import PtoRuntime.Lib.Window

/-!
# A queue in a ring

A queue between one writer and one reader: entry `i` lies in cell `i % cap`, the writer owns
`tail` and the reader owns `head`. An entry is stored first and published by a step of the tail;
it is read first and released by a step of the head.
-/

namespace PtoRuntime.Lib

open List

structure RingQueue (β : Type) where
  slots : Nat → β
  head : Nat
  tail : Nat

namespace RingQueue

variable {β : Type} {cap : Nat} {q : RingQueue β} {x : β}

/-- The entries that are published and not released. -/
def unread (q : RingQueue β) (cap : Nat) : List β :=
  (range (q.tail - q.head)).map fun i => q.slots ((q.head + i) % cap)

def front (q : RingQueue β) (cap : Nat) : β := q.slots (q.head % cap)

def back (q : RingQueue β) (cap : Nat) : β := q.slots (q.tail % cap)

def store (q : RingQueue β) (cap : Nat) (x : β) : RingQueue β :=
  { q with slots := Function.update q.slots (q.tail % cap) x }

def publish (q : RingQueue β) : RingQueue β := { q with tail := q.tail + 1 }

def release (q : RingQueue β) : RingQueue β := { q with head := q.head + 1 }

theorem back_store : (q.store cap x).back cap = x := Function.update_self ..

/-- A store behind the tail touches no other slot. -/
theorem slots_store {i : Nat} (hi : q.head ≤ i) (hlt : i < q.tail) (hroom : q.tail < q.head + cap) :
    (q.store cap x).slots (i % cap) = q.slots (i % cap) := by
  refine Function.update_of_ne (fun heq => ?_) ..
  have hi := eq_of_mod_eq heq (by omega) (by omega)
  omega

theorem front_store (hlt : q.head < q.tail) (hroom : q.tail < q.head + cap) :
    (q.store cap x).front cap = q.front cap :=
  slots_store le_rfl hlt hroom

/-- A stored entry is not visible yet. -/
theorem unread_store (hroom : q.tail < q.head + cap) : (q.store cap x).unread cap = q.unread cap :=
  map_congr_left fun i hi => by
    have hi : i < q.tail - q.head := mem_range.mp hi
    exact slots_store (i := q.head + i) (Nat.le_add_right ..) (by omega) hroom

/-- Publishing appends the stored entry. -/
theorem unread_publish (h : q.head ≤ q.tail) :
    q.publish.unread cap = q.unread cap ++ [q.back cap] := by
  have hlen : q.tail + 1 - q.head = q.tail - q.head + 1 := by omega
  show (range (q.tail + 1 - q.head)).map (fun i => q.slots ((q.head + i) % cap)) = _
  rw [hlen, range_succ, map_append, map_singleton, Nat.add_sub_cancel' h]
  rfl

/-- Releasing takes the entry at the head. -/
theorem unread_release (h : q.head < q.tail) :
    q.unread cap = q.front cap :: q.release.unread cap := by
  have hlen : q.tail - q.head = q.tail - (q.head + 1) + 1 := by omega
  rw [unread, hlen, range_succ_eq_map, map_cons, map_map]
  refine congrArg (_ :: ·) (map_congr_left fun i _ => ?_)
  show q.slots ((q.head + (i + 1)) % cap) = q.slots ((q.head + 1 + i) % cap)
  rw [Nat.add_right_comm, add_assoc]

end RingQueue

end PtoRuntime.Lib
