import Mathlib

/-!
# Intrusive doubly linked lists

The nodes of such a list hold the pointers to their neighbours themselves, and a head points to
the first node. `Linked k before cur l` says that the nodes met from `cur` on are those of `l`,
and that each points back to the one before it, the first to `before`. New nodes come in front;
a node leaves by joining its neighbours, and the head moves if the node was the first.
-/

namespace PtoRuntime.Lib

open Function

open List

/-- The two pointers of every node. -/
structure Links (κ : Type) where
  next : κ → Option κ
  prev : κ → Option κ

variable {κ : Type} {k k' : Links κ} {before cur head : Option κ} {e y : κ} {l : List κ}

def Linked (k : Links κ) : Option κ → Option κ → List κ → Prop
  | _, cur, [] => cur = none
  | before, cur, e :: l => cur = some e ∧ k.prev e = before ∧ Linked k (some e) (k.next e) l

/-- A list depends on its own links only. -/
theorem Linked.congr (h : Linked k before cur l)
    (hk : ∀ x ∈ l, k'.next x = k.next x ∧ k'.prev x = k.prev x) : Linked k' before cur l := by
  induction l generalizing before cur with
  | nil => exact h
  | cons x l ih =>
    obtain ⟨hcur, hprev, htail⟩ := h
    obtain ⟨hx, hrest⟩ := forall_mem_cons.mp hk
    exact ⟨hcur, hx.2.trans hprev, hx.1 ▸ ih htail hrest⟩

theorem Linked.head_mem (h : Linked k before (some e) l) : e ∈ l := by
  cases l with
  | nil => cases h
  | cons x l =>
    cases h.1
    exact mem_cons_self

/-- No element is its own successor. -/
theorem Linked.next_ne (h : Linked k before cur l) (hnd : l.Nodup) (he : e ∈ l) :
    k.next e ≠ some e := by
  induction l generalizing before cur with
  | nil => cases he
  | cons x l ih =>
    obtain ⟨hx, hnd⟩ := nodup_cons.mp hnd
    rcases mem_cons.mp he with rfl | he
    · exact fun heq => hx (heq ▸ h.2.2).head_mem
    · exact ih h.2.2 hnd he

/-- A successor is in the list. -/
theorem Linked.next_mem (h : Linked k before cur l) (he : e ∈ l) (hy : k.next e = some y) :
    y ∈ l := by
  induction l generalizing before cur with
  | nil => cases he
  | cons x l ih =>
    obtain ⟨-, -, htail⟩ := h
    rcases mem_cons.mp he with rfl | he
    · exact mem_cons_of_mem _ (hy ▸ htail).head_mem
    · exact mem_cons_of_mem _ (ih htail he)

/-- A node is the first, or some node of the list comes before it. -/
theorem Linked.prev_cases (h : Linked k before cur l) (hnd : l.Nodup) (he : e ∈ l) :
    cur = some e ∧ k.prev e = before ∨ cur ≠ some e ∧ ∃ p ∈ l, k.prev e = some p := by
  induction l generalizing before cur with
  | nil => cases he
  | cons x l ih =>
    obtain ⟨rfl, hprev, htail⟩ := h
    obtain ⟨hx, hnd⟩ := nodup_cons.mp hnd
    rcases mem_cons.mp he with rfl | he
    · exact .inl ⟨rfl, hprev⟩
    · refine .inr ⟨fun heq => hx (Option.some.inj heq ▸ he), ?_⟩
      rcases ih htail hnd he with ⟨-, hp⟩ | ⟨-, p, hp, hprev⟩
      · exact ⟨x, mem_cons_self, hp⟩
      · exact ⟨p, mem_cons_of_mem _ hp, hprev⟩

variable [DecidableEq κ]

/-- A pointer field of a node, if there is one. -/
def assign (f : κ → Option κ) : Option κ → Option κ → κ → Option κ
  | none, _ => f
  | some p, v => update f p v

theorem assign_of_ne {f : κ → Option κ} {p v : Option κ} {x : κ} (h : p ≠ some x) :
    assign f p v x = f x := by
  cases p with
  | none => rfl
  | some p => exact update_of_ne (fun heq => h (congrArg some heq.symm)) ..

namespace Links

/-- A node in front of the one at `head`. -/
def push (k : Links κ) (head : Option κ) (e : κ) : Links κ where
  next := update k.next e head
  prev := update (assign k.prev head (some e)) e none

def clear (k : Links κ) (e : κ) : Links κ where
  next := update k.next e none
  prev := update k.prev e none

/-- The neighbours of a node point to each other. -/
def join (k : Links κ) (e : κ) : Links κ where
  next := assign k.next (k.prev e) (k.next e)
  prev := assign k.prev (k.next e) (k.prev e)

def unlink (k : Links κ) (e : κ) : Links κ := (k.join e).clear e

/-- The head of a list that a node has left. -/
def headAfter (k : Links κ) (head : Option κ) (e : κ) : Option κ :=
  if k.prev e = none then k.next e else head

end Links

/-- Clearing an element of another list. -/
theorem Linked.clear (h : Linked k before cur l) (he : e ∉ l) : Linked (k.clear e) before cur l :=
  h.congr fun x hx => by
    have hne : x ≠ e := ne_of_mem_of_not_mem hx he
    exact ⟨update_of_ne hne .., update_of_ne hne ..⟩

/-- A new head. -/
theorem Linked.push (h : Linked k none head l) (hnd : l.Nodup) (he : e ∉ l) :
    Linked (k.push head e) none (some e) (e :: l) := by
  refine ⟨rfl, update_self .., ?_⟩
  rw [show (k.push head e).next e = head from update_self ..]
  cases l with
  | nil => exact h
  | cons y l =>
    obtain ⟨rfl, -, htail⟩ := h
    obtain ⟨hy, hnd⟩ := nodup_cons.mp hnd
    obtain ⟨hey, hel⟩ := not_or.mp (mem_cons.not.mp he)
    have hnext {x : κ} (hx : x ≠ e) : (k.push (some y) e).next x = k.next x :=
      update_of_ne hx ..
    refine ⟨rfl, ?_, ?_⟩
    -- the old head now points back to the new one
    · exact (update_of_ne (Ne.symm hey) ..).trans (update_self ..)
    · rw [hnext (Ne.symm hey)]
      refine htail.congr fun x hx => ?_
      have hne : x ≠ e := ne_of_mem_of_not_mem hx hel
      exact ⟨hnext hne, (update_of_ne hne ..).trans
        (update_of_ne (ne_of_mem_of_not_mem hx hy) ..)⟩

/-- A push to another list. -/
theorem Linked.push_other (h : Linked k before cur l) (he : e ∉ l)
    (hhead : ∀ x ∈ l, head ≠ some x) :
    Linked (k.push head e) before cur l :=
  h.congr fun x hx => by
    have hne : x ≠ e := ne_of_mem_of_not_mem hx he
    exact ⟨update_of_ne hne .., (update_of_ne hne ..).trans (assign_of_ne (hhead x hx))⟩

/-- The rest of the list is linked when the neighbours of a node are joined; the node before
the list, if any, is not one of it. -/
theorem Linked.join (h : Linked k before cur l) (hnd : l.Nodup) (he : e ∈ l)
    (hbefore : ∀ x ∈ l, before ≠ some x) :
    Linked (k.join e) before (if cur = some e then k.next e else cur) (l.erase e) := by
  induction l generalizing before cur with
  | nil => cases he
  | cons x l ih =>
    obtain ⟨rfl, hprev, htail⟩ := h
    obtain ⟨hx, hnd⟩ := nodup_cons.mp hnd
    -- the node is the first one, or further down
    by_cases hxe : x = e
    · subst hxe
      rw [if_pos rfl, erase_cons_head]
      cases l with
      | nil => exact htail
      | cons y l =>
        obtain ⟨hy, -, htail⟩ := htail
        obtain ⟨hyl, -⟩ := nodup_cons.mp hnd
        have hnext {z : κ} (hz : z ∈ y :: l) : (k.join x).next z = k.next z :=
          assign_of_ne (hprev ▸ hbefore z (mem_cons_of_mem _ hz))
        refine ⟨hy, ?_, ?_⟩
        · show assign k.prev (k.next x) (k.prev x) y = before
          rw [hy, hprev]
          exact update_self ..
        · rw [hnext mem_cons_self]
          refine htail.congr fun z hz => ⟨hnext (mem_cons_of_mem _ hz), assign_of_ne ?_⟩
          rw [hy]
          exact fun heq => hyl (Option.some.inj heq ▸ hz)
    · have he : e ∈ l := (mem_cons.mp he).resolve_left (Ne.symm hxe)
      have hbefore' : ∀ z ∈ l, some x ≠ some z := fun z hz heq => hx (Option.some.inj heq ▸ hz)
      rw [if_neg (fun heq => hxe (Option.some.inj heq)), erase_cons_tail (by simpa using hxe)]
      refine ⟨rfl, ?_, ?_⟩
      · exact (assign_of_ne fun heq => hx (htail.next_mem he heq)).trans hprev
      · have hnext : (k.join e).next x = if k.next x = some e then k.next e else k.next x := by
          show assign k.next (k.prev e) (k.next e) x = _
          -- its predecessor is `x`, or behind `x`
          rcases htail.prev_cases hnd he with ⟨hcur, hp⟩ | ⟨hcur, p, hp, hpe⟩
          · rw [if_pos hcur, hp]
            exact update_self ..
          · rw [if_neg hcur]
            exact assign_of_ne (hpe ▸ (hbefore' p hp).symm)
        rw [hnext]
        exact ih htail hnd he hbefore'

/-- An element is taken out. -/
theorem Linked.unlink (h : Linked k none head l) (hnd : l.Nodup) (he : e ∈ l) :
    Linked (k.unlink e) none (k.headAfter head e) (l.erase e) := by
  have hhead : k.headAfter head e = if head = some e then k.next e else head := by
    unfold Links.headAfter
    rcases h.prev_cases hnd he with ⟨hcur, hp⟩ | ⟨hcur, p, -, hp⟩
    · rw [if_pos hcur, if_pos hp]
    · rw [if_neg hcur, if_neg (by rw [hp]; nofun)]
  rw [hhead]
  exact (h.join hnd he fun _ _ => nofun).clear hnd.not_mem_erase

/-- A list that holds neither the node nor one of its neighbours stays as it is. -/
theorem Linked.unlink_other {l' : List κ} {head' : Option κ} (h : Linked k before cur l)
    (h' : Linked k none head' l') (hnd : l'.Nodup) (he : e ∈ l') (hdisj : ∀ x ∈ l, x ∉ l') :
    Linked (k.unlink e) before cur l := by
  refine Linked.clear (h.congr fun x hx => ⟨assign_of_ne fun heq => ?_, assign_of_ne fun heq => ?_⟩)
    fun hel => hdisj e hel he
  · rcases h'.prev_cases hnd he with ⟨-, hp⟩ | ⟨-, p, hp, hpe⟩
    · exact absurd (hp.symm.trans heq) nofun
    · exact hdisj x hx (Option.some.inj (hpe.symm.trans heq) ▸ hp)
  · exact hdisj x hx (h'.next_mem he heq)

end PtoRuntime.Lib
