import Mathlib

/-!
# Ticket queues

A queue in shared memory that producers and consumers enter with tickets. A producer draws the next
ticket from `tail`, waits until the cell of its ticket is free, writes the cell and sets the cell's
flag to its ticket plus one; a consumer with the same ticket waits for that flag, reads the cell and
clears the flag. A ticket's cell is the ticket modulo the capacity.

`Carries cap q entries` is what such a queue guarantees while it has had at most `cap` entries: the
flag of a cell, if set, belongs to the cell's own ticket, and the cell holds the entry that was
given that ticket.

`InFlight cap q flying due` adds that nothing gets lost on the way: the flag of a ticket that a
producer still has in hand is down, and a ticket that a consumer may wait for has its flag up or is
in a producer's hand.
-/

namespace PtoRuntime.Lib

open Function

structure TicketQueue (α : Type) where
  head : Nat
  tail : Nat
  cells : Nat → α
  flags : Nat → Nat

namespace TicketQueue

variable {α : Type}

/-- No tickets drawn, no flag raised; the cells hold anything. -/
def fresh (cells : Nat → α) : TicketQueue α := ⟨0, 0, cells, fun _ => 0⟩

/-- A producer draws a ticket. -/
def draw (q : TicketQueue α) : TicketQueue α := { q with tail := q.tail + 1 }

/-- The producer with `ticket` writes its cell and raises the flag. -/
def publish (cap : Nat) (q : TicketQueue α) (ticket : Nat) (v : α) : TicketQueue α :=
  { q with
    cells := update q.cells (ticket % cap) v
    flags := update q.flags (ticket % cap) (ticket + 1) }

/-- The consumer with `ticket` clears the flag. -/
def clear (cap : Nat) (q : TicketQueue α) (ticket : Nat) : TicketQueue α :=
  { q with flags := update q.flags (ticket % cap) 0 }

/-- The cell of `ticket` holds its entry. -/
def Wrote (cap : Nat) (q : TicketQueue α) (entries : List α) (ticket : Nat) : Prop :=
  entries[ticket]? = some (q.cells (ticket % cap))

structure Carries (cap : Nat) (q : TicketQueue α) (entries : List α) : Prop where
  tail : q.tail = entries.length
  room : entries.length ≤ cap
  flagged : ∀ i < cap, q.flags i ≠ 0 → q.flags i = i + 1 ∧ Wrote cap q entries i

variable {cap : Nat} {q : TicketQueue α} {entries : List α} {ticket i : Nat} {v : α}

theorem Carries.fresh (cells : Nat → α) : Carries cap (TicketQueue.fresh cells) [] :=
  ⟨rfl, Nat.zero_le _, fun _ _ h => absurd rfl h⟩

/-- A new ticket leaves the written cells. -/
theorem Wrote.append (h : Wrote cap q entries i) : Wrote cap q.draw (entries ++ [v]) i := by
  unfold Wrote at h ⊢
  have hlt := (List.getElem?_eq_some_iff.mp h).1
  rw [List.getElem?_append_left hlt]
  exact h

/-- A ticket is drawn. -/
theorem Carries.draw (h : Carries cap q entries) (hroom : entries.length < cap) :
    Carries cap q.draw (entries ++ [v]) where
  tail := by
    rw [List.length_append, ← h.tail]
    rfl
  room := by
    rw [List.length_append]
    exact hroom
  flagged j hj hf := ⟨(h.flagged j hj hf).1, (h.flagged j hj hf).2.append⟩

/-- Writing the right entry keeps every cell that holds its own. -/
theorem Wrote.publish (hroom : entries.length ≤ cap) (hv : entries[ticket]? = some v)
    (h : Wrote cap q entries i) : Wrote cap (q.publish cap ticket v) entries i := by
  have hi := (List.getElem?_eq_some_iff.mp h).1
  have ht := (List.getElem?_eq_some_iff.mp hv).1
  unfold Wrote at h ⊢
  simp only [TicketQueue.publish]
  -- below the capacity each ticket has its own cell
  rw [Nat.mod_eq_of_lt (Nat.lt_of_lt_of_le hi hroom)] at h ⊢
  rw [Nat.mod_eq_of_lt (Nat.lt_of_lt_of_le ht hroom), update_apply]
  split
  · rename_i he
    rw [he]
    exact hv
  · exact h

/-- What was published can be read. -/
theorem Wrote.published (hroom : entries.length ≤ cap) (hv : entries[ticket]? = some v) :
    Wrote cap (q.publish cap ticket v) entries ticket := by
  have ht := (List.getElem?_eq_some_iff.mp hv).1
  unfold Wrote
  simp only [TicketQueue.publish]
  rw [Nat.mod_eq_of_lt (Nat.lt_of_lt_of_le ht hroom), update_self]
  exact hv

/-- A cell is written. -/
theorem Carries.publish (h : Carries cap q entries) (hv : entries[ticket]? = some v) :
    Carries cap (q.publish cap ticket v) entries where
  tail := h.tail
  room := h.room
  flagged j hj hf := by
    have ht := Nat.lt_of_lt_of_le (List.getElem?_eq_some_iff.mp hv).1 h.room
    have hflags : (q.publish cap ticket v).flags j = if j = ticket then ticket + 1 else
      q.flags j := by
      simp only [TicketQueue.publish, Nat.mod_eq_of_lt ht, update_apply]
    rw [hflags] at hf ⊢
    by_cases he : j = ticket
    · subst he
      exact ⟨if_pos rfl, .published h.room hv⟩
    · rw [if_neg he] at hf ⊢
      exact ⟨(h.flagged j hj hf).1, .publish h.room hv (h.flagged j hj hf).2⟩

/-- A cell is emptied. -/
theorem Carries.clear (h : Carries cap q entries) : Carries cap (q.clear cap ticket) entries where
  tail := h.tail
  room := h.room
  flagged j hj hf := by
    simp only [TicketQueue.clear, update_apply] at hf ⊢
    split at hf
    · exact absurd rfl hf
    · rename_i hne
      rw [if_neg hne]
      exact ⟨(h.flagged j hj hf).1, (h.flagged j hj hf).2⟩

/-- A raised flag that carries the ticket's number: the entry can be read. -/
theorem Carries.wrote_of_flag (h : Carries cap q entries) (hi : i < cap)
    (hf : q.flags (i % cap) = i + 1) : Wrote cap q entries i := by
  rw [Nat.mod_eq_of_lt hi] at hf
  exact (h.flagged i hi (by omega)).2

/-! ## Tickets in flight -/

structure InFlight (cap : Nat) (q : TicketQueue α) (flying due : Nat → Prop) : Prop where
  flying_lt : ∀ i, flying i → i < cap
  due_lt : ∀ i, due i → i < cap
  down : ∀ i, flying i → q.flags i = 0
  up : ∀ i, due i → q.flags i = i + 1 ∨ flying i

variable {q' : TicketQueue α} {flying flying' due due' : Nat → Prop}

/-- A ticket in flight has its flag down. -/
theorem InFlight.flag_down (h : InFlight cap q flying due) (hi : flying i) :
    q.flags (i % cap) = 0 := by
  rw [Nat.mod_eq_of_lt (h.flying_lt i hi)]
  exact h.down i hi

/-- A ticket that has landed has its flag up. -/
theorem InFlight.flag_up (h : InFlight cap q flying due) (hi : due i) (hnot : ¬ flying i) :
    q.flags (i % cap) = i + 1 := by
  rw [Nat.mod_eq_of_lt (h.due_lt i hi)]
  exact (h.up i hi).resolve_right hnot

theorem InFlight.congr (h : InFlight cap q flying due) (hflags : q'.flags = q.flags)
    (hfly : ∀ i, flying' i ↔ flying i) (hdue : ∀ i, due' i → due i) :
    InFlight cap q' flying' due' := by
  refine ⟨fun i hi => h.flying_lt i ((hfly i).mp hi), fun i hi => h.due_lt i (hdue i hi), ?_, ?_⟩
  · intro i hi
    rw [hflags]
    exact h.down i ((hfly i).mp hi)
  · intro i hi
    rw [hflags, hfly]
    exact h.up i (hdue i hi)

/-- A producer takes a ticket in hand. -/
theorem InFlight.draw (h : InFlight cap q flying due) (hlt : ticket < cap)
    (hdown : q.flags ticket = 0) (hflags : q'.flags = q.flags)
    (hfly : ∀ i, flying' i ↔ flying i ∨ i = ticket) (hdue : ∀ i, due' i → due i ∨ i = ticket) :
    InFlight cap q' flying' due' := by
  refine ⟨?_, ?_, ?_, ?_⟩
  · intro i hi
    rcases (hfly i).mp hi with hi | rfl
    · exact h.flying_lt i hi
    · exact hlt
  · intro i hi
    rcases hdue i hi with hi | rfl
    · exact h.due_lt i hi
    · exact hlt
  · intro i hi
    rw [hflags]
    rcases (hfly i).mp hi with hi | rfl
    · exact h.down i hi
    · exact hdown
  · intro i hi
    rw [hflags, hfly]
    rcases hdue i hi with hi | rfl
    · exact (h.up i hi).imp_right .inl
    · exact .inr (.inr rfl)

/-- The producer's ticket leaves its hand. -/
theorem InFlight.publish (h : InFlight cap q flying due) (hlt : ticket < cap)
    (hfly : ∀ i, flying' i ↔ flying i ∧ i ≠ ticket) (hdue : ∀ i, due' i → due i) :
    InFlight cap (q.publish cap ticket v) flying' due' := by
  have hother {i : Nat} (hi : i ≠ ticket) : (q.publish cap ticket v).flags i = q.flags i := by
    rw [TicketQueue.publish, Nat.mod_eq_of_lt hlt]
    exact update_of_ne hi ..
  refine ⟨fun i hi => h.flying_lt i ((hfly i).mp hi).1, fun i hi => h.due_lt i (hdue i hi), ?_, ?_⟩
  · intro i hi
    obtain ⟨hfly', hne⟩ := (hfly i).mp hi
    rw [hother hne]
    exact h.down i hfly'
  · intro i hi
    by_cases heq : i = ticket
    · subst heq
      left
      rw [TicketQueue.publish, Nat.mod_eq_of_lt hlt]
      exact update_self ..
    · rw [hother heq, hfly]
      exact (h.up i (hdue i hi)).imp_right fun hi => ⟨hi, heq⟩

/-- The consumer of a ticket has been served. -/
theorem InFlight.clear (h : InFlight cap q flying due) (hlt : ticket < cap)
    (hfly : ∀ i, flying' i ↔ flying i) (hdue : ∀ i, due' i → due i ∧ i ≠ ticket) :
    InFlight cap (q.clear cap ticket) flying' due' := by
  have hflags (i : Nat) : (q.clear cap ticket).flags i = if i = ticket then 0 else q.flags i := by
    simp only [TicketQueue.clear, Nat.mod_eq_of_lt hlt, update_apply]
  refine ⟨fun i hi => h.flying_lt i ((hfly i).mp hi), fun i hi => h.due_lt i (hdue i hi).1, ?_, ?_⟩
  · intro i hi
    rw [hflags, h.down i ((hfly i).mp hi), ite_self]
  · intro i hi
    obtain ⟨hdue', hne⟩ := hdue i hi
    rw [hflags, if_neg hne, hfly]
    exact h.up i hdue'

end TicketQueue

end PtoRuntime.Lib
