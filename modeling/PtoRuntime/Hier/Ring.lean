import PtoRuntime.Hier.Model
import PtoRuntime.Lib.Counting

/-!
# Hierarchical runtime — the slot and heap allocator

`src/common/hierarchical/ring.cpp`. `Ring` numbers the slots and owns
`MAX_RING_DEPTH` heaps; the scope depth of an allocation picks the heap. A heap is a bump
allocator with two offsets: `top`, where the next slab starts, and `tail`, the end of the
slab of the last slot given back. Slots are released in any order, but the tail follows
the order of allocation: it moves over a slot once that slot and all older ones of the
heap are released, to the end recorded when the slot was allocated.

`alloc` takes the ring's mutex, tries and waits for a release when there is no space; a
call that waits, throws or finds the allocator shut down leaves the state as it is, so a
call is one step and a waiting call is one that is made again later.

Main results: `heap_slabs_isolated`, `HeapRing.Ok.drained`.
-/

namespace PtoRuntime.Hier

open Lib Lib.BumpRing Function List Option

/-- `MAX_RING_DEPTH`. -/
def maxRingDepth : Nat := 4

def ringIdxForScope (scopeDepth : Int) : Nat :=
  let depth := if scopeDepth < 0 then 0 else scopeDepth
  if depth < maxRingDepth then depth.toNat else maxRingDepth - 1

/-- `align_up` on `uint64_t`, for a power-of-two alignment: the sum wraps. -/
def alignUp64 (v align : Nat) : Nat := (v + align - 1) % 2 ^ 64 / align * align

theorem alignUp64_of_fits {v align : Nat} (h : v + align - 1 < 2 ^ 64) :
    alignUp64 v align = alignUp v align := by
  rw [alignUp64, alignUp, Nat.mod_eq_of_lt h]

/-- What `init` has mapped: `mmap` returns regions that do not meet. -/
structure HeapConfig where
  heapBytes : Nat
  base : Nat → Nat
  base_pos : 0 < heapBytes → ∀ r < maxRingDepth, 0 < base r
  fits : ∀ r < maxRingDepth, base r + heapBytes < 2 ^ 64
  apart : ∀ r < maxRingDepth, ∀ r' < maxRingDepth, r ≠ r' →
    base r + heapBytes ≤ base r' ∨ base r' + heapBytes ≤ base r

/-- One heap, `Ring::HeapRing`. -/
structure HeapRing where
  top : Nat
  tail : Nat
  lastAlive : Nat
  released : List Bool
  slotHeapEnd : List Nat
  -- history: the slabs handed out, as offsets
  slabs : List Segment

namespace HeapRing

def init : HeapRing := ⟨0, 0, 0, [], [], []⟩

/-- `try_bump_ring_heap_locked`: the offset handed out and the new `top`. -/
def tryBumpRingHeap (size : Nat) (r : HeapRing) (aligned : Nat) : Option (Nat × Nat) :=
  if r.tail ≤ r.top then
    if aligned ≤ size - r.top then some (r.top, r.top + aligned)
    else if aligned < r.tail then some (0, aligned)
    else none
  else if aligned < r.tail - r.top then some (r.top, r.top + aligned)
  else none

/-- The bookkeeping at the end of phase 1 of `alloc`. -/
def reserve (r : HeapRing) (off top aligned : Nat) : HeapRing :=
  { r with
    top := top
    released := r.released ++ [false]
    slotHeapEnd := r.slotHeapEnd ++ [top]
    slabs := r.slabs ++ [⟨off, off + aligned⟩] }

/-- The loop of `advance_last_alive_locked`; its first argument bounds the turns left. -/
def advanceLoop : Nat → HeapRing → HeapRing
  | 0, r => r
  | n + 1, r =>
    if r.released[r.lastAlive]? = some true then
      advanceLoop n
        { r with tail := r.slotHeapEnd.getD r.lastAlive 0, lastAlive := r.lastAlive + 1 }
    else r

def advanceLastAlive (r : HeapRing) : HeapRing := advanceLoop (r.released.length - r.lastAlive) r

/-- The part of `release` under the ring's mutex. -/
def release (r : HeapRing) (ringSlotIdx : Nat) : HeapRing :=
  if r.released[ringSlotIdx]? = some false then
    { r with released := r.released.set ringSlotIdx true }.advanceLastAlive
  else r

end HeapRing

/-- What `alloc` stamps into a slot's state. -/
structure SlotPlace where
  ringIdx : Nat
  ringSlotIdx : Nat
  -- history: the bytes asked for
  bytes : Nat
  deriving DecidableEq, Repr

structure Ring where
  rings : Nat → HeapRing
  slotStates : List SlotPlace
  shutdown : Bool

inductive AllocError
  | heapDisabled
  | exceedsHeapSize
  deriving DecidableEq, Repr

inductive AllocReply
  | slot (slot heapPtr heapEnd ringIdx : Nat)
  -- `INVALID_SLOT`
  | shutdown
  | throw (error : AllocError)
  -- the heap is full: the call waits, and throws when its time is over
  | wait
  deriving DecidableEq, Repr

namespace Ring

def init : Ring := ⟨fun _ => .init, [], false⟩

/-- Both phases of a successful `alloc`. -/
def take (s : Ring) (ringIdx off top aligned bytes : Nat) : Ring :=
  { s with
    rings := update s.rings ringIdx ((s.rings ringIdx).reserve off top aligned)
    slotStates := s.slotStates ++ [⟨ringIdx, (s.rings ringIdx).released.length, bytes⟩] }

def alignedBytes (bytes : Nat) : Nat := if 0 < bytes then alignUp64 bytes heapAlign else 0

def alloc (c : HeapConfig) (s : Ring) (bytes : Nat) (scopeDepth : Int) : AllocReply × Ring :=
  let ringIdx := ringIdxForScope scopeDepth
  let aligned := alignedBytes bytes
  if 0 < bytes ∧ c.heapBytes = 0 then (.throw .heapDisabled, s)
  else if c.heapBytes < aligned then (.throw .exceedsHeapSize, s)
  else if s.shutdown then (.shutdown, s)
  else if aligned = 0 then
    let top := (s.rings ringIdx).top
    (.slot s.slotStates.length 0 top ringIdx, s.take ringIdx top top 0 bytes)
  else
    match (s.rings ringIdx).tryBumpRingHeap c.heapBytes aligned with
    | none => (.wait, s)
    | some (off, top) =>
      (.slot s.slotStates.length (c.base ringIdx + off) top ringIdx,
        s.take ringIdx off top aligned bytes)

def release (s : Ring) (slot : Int) : Ring :=
  if slot < 0 then s
  else
    match s.slotStates[slot.toNat]? with
    | none => s
    | some p =>
      { s with rings := update s.rings p.ringIdx ((s.rings p.ringIdx).release p.ringSlotIdx) }

/-- Every ring is drained: what `reset_to_empty` checks before it throws. -/
def Drained (s : Ring) : Prop :=
  ∀ r < maxRingDepth, (s.rings r).lastAlive = (s.rings r).released.length

instance (s : Ring) : Decidable s.Drained := inferInstanceAs (Decidable (∀ r < _, _))

/-- `reset_to_empty`; `none` is the exception. -/
def resetToEmpty (s : Ring) : Option Ring :=
  if s.Drained then some { init with shutdown := s.shutdown } else none

inductive Act
  | alloc (bytes : Nat) (scopeDepth : Int)
  | release (slot : Int)
  | reset
  | shutdown
  deriving DecidableEq, Repr

def step (c : HeapConfig) (s : Ring) : Act → Option Ring
  | .alloc bytes scopeDepth => some (s.alloc c bytes scopeDepth).2
  | .release slot => some (s.release slot)
  | .reset => s.resetToEmpty
  | .shutdown => some { s with shutdown := true }

/-- The rounding of the bytes asked for does not overflow. -/
def RoundingFits (_ : Ring) : Act → Prop
  | .alloc bytes _ => bytes + heapAlign - 1 < 2 ^ 64
  | _ => True

instance : DecidableRel RoundingFits := fun _ a =>
  match a with
  | .alloc _ _ => inferInstanceAs (Decidable (_ < _))
  | .release _ | .reset | .shutdown => inferInstanceAs (Decidable True)

/-! ## Slots -/

/-- Older slots of the same heap have smaller positions. -/
def SameRing (s : Ring) (i j : Nat) (p q : SlotPlace) : Prop :=
  s.slotStates[i]? = some p ∧ s.slotStates[j]? = some q ∧ p.ringIdx = q.ringIdx

def Released (s : Ring) (p : SlotPlace) : Prop :=
  (s.rings p.ringIdx).released[p.ringSlotIdx]? = some true

/-- The addresses a slot was given. -/
def slab (c : HeapConfig) (s : Ring) (p : SlotPlace) : Segment :=
  let x := (s.rings p.ringIdx).slabs.getD p.ringSlotIdx ⟨0, 0⟩
  ⟨c.base p.ringIdx + x.lo, c.base p.ringIdx + x.hi⟩

end Ring

/-! ## One heap -/

variable {aligned off top bytes i j : Nat} {p q : SlotPlace} {x : Segment}

namespace HeapRing

variable {size : Nat} {r : HeapRing}

structure Ok (size : Nat) (r : HeapRing) : Prop where
  ends : r.slotHeapEnd = r.slabs.map Segment.hi
  released_length : r.released.length = r.slabs.length
  alive_le : r.lastAlive ≤ r.slabs.length
  gone : ∀ k < r.lastAlive, r.released[k]? = some true
  -- the offsets are the ends of the last slab given back and of the youngest one
  tail_at : (0 :: r.slotHeapEnd)[r.lastAlive]? = some r.tail
  top_at : (0 :: r.slotHeapEnd)[r.slabs.length]? = some r.top
  live : Live size r.tail r.top (r.slabs.drop r.lastAlive)
  within : ∀ x ∈ r.slabs, x.lo ≤ x.hi ∧ x.hi ≤ size
  reused : ∀ i j x y, i < j → r.slabs[i]? = some x → r.slabs[j]? = some y → ¬ x.Disjoint y →
    i < r.lastAlive

/-- The tail has moved as far as it can. -/
def Advanced (r : HeapRing) : Prop := r.released[r.lastAlive]? ≠ some true

theorem Ok.init : Ok size init where
  ends := rfl
  released_length := rfl
  alive_le := le_rfl
  gone _ h := absurd h (Nat.not_lt_zero _)
  tail_at := rfl
  top_at := rfl
  live := .linear le_rfl (Nat.zero_le _)
  within _ h := by cases h
  reused _ _ _ _ _ h := by cases h

/-- A slab is cut out of free space. -/
theorem tryBumpRingHeap_live {L : List Segment} (hl : Live size r.tail r.top L)
    (h : r.tryBumpRingHeap size aligned = some (off, top)) :
    top = off + aligned ∧ Live size r.tail top (L ++ [⟨off, off + aligned⟩]) := by
  have htop := hl.top_le
  unfold tryBumpRingHeap at h
  split at h
  · rename_i hle
    split at h
    · rename_i hfit
      cases h
      exact ⟨rfl, hl.push_end hle (by omega)⟩
    · split_ifs at h with hwrap
      cases h
      rw [zero_add]
      exact ⟨rfl, hl.push_wrap hle hwrap⟩
  · rename_i hlt
    split_ifs at h with hgap
    cases h
    exact ⟨rfl, hl.push_gap (by omega) (by omega)⟩

/-- A new slab overlaps slabs of slots that have been given back only: the others are in the
list that `Live` keeps disjoint. -/
theorem Ok.reserve (h : Ok size r) (htop : top = off + aligned)
    (hlive : Live size r.tail top (r.slabs.drop r.lastAlive ++ [⟨off, off + aligned⟩])) :
    Ok size (r.reserve off top aligned) := by
  have hlen := h.released_length
  have hends : r.slotHeapEnd.length = r.slabs.length := by rw [h.ends, length_map]
  have halive := h.alive_le
  refine ⟨?_, ?_, ?_, fun k hk => ?_, ?_, ?_, ?_, fun x hx => ?_, fun i j x y hij hi hj hxy => ?_⟩
  · show r.slotHeapEnd ++ [top] = (r.slabs ++ [_]).map Segment.hi
    rw [map_append, h.ends, htop, map_singleton]
  · show (r.released ++ [false]).length = (r.slabs ++ [_]).length
    rw [length_append, length_append, hlen, length_singleton, length_singleton]
  · show r.lastAlive ≤ (r.slabs ++ [_]).length
    rw [length_append]
    omega
  · replace hk : k < r.lastAlive := hk
    show (r.released ++ [false])[k]? = some true
    rw [getElem?_append_left (by omega)]
    exact h.gone k hk
  · show (0 :: (r.slotHeapEnd ++ [top]))[r.lastAlive]? = some r.tail
    rw [← cons_append, getElem?_append_left (by rw [length_cons]; omega)]
    exact h.tail_at
  · show (0 :: (r.slotHeapEnd ++ [top]))[(r.slabs ++ [_]).length]? = some top
    rw [length_append, length_singleton, getElem?_cons_succ, ← hends,
      getElem?_concat_length]
  · show Live size r.tail top ((r.slabs ++ [_]).drop r.lastAlive)
    rw [drop_append_of_le_length halive]
    exact hlive
  · rcases mem_append.mp hx with hx | hx
    · exact h.within x hx
    · exact hlive.hi_le (mem_append_right _ hx)
  · show i < r.lastAlive
    replace hi : (r.slabs ++ [_])[i]? = some x := hi
    replace hj : (r.slabs ++ [_])[j]? = some y := hj
    rcases getElem?_concat_cases hj with hj | ⟨rfl, rfl⟩
    · have hjlt := (List.getElem?_eq_some_iff.mp hj).1
      rw [getElem?_append_left (by omega)] at hi
      exact h.reused i j x y hij hi hj hxy
    · rw [getElem?_append_left hij] at hi
      by_contra hge
      have hmem : x ∈ r.slabs.drop r.lastAlive := by
        refine mem_iff_getElem?.mpr ⟨i - r.lastAlive, ?_⟩
        rw [getElem?_drop, show r.lastAlive + (i - r.lastAlive) = i by omega]
        exact hi
      exact hxy ((pairwise_append.mp hlive.pairwise_disjoint).2.2 x hmem _
        (mem_singleton.mpr rfl))

/-- One turn of the loop: the tail moves to the recorded end of the oldest slot. -/
theorem Ok.advanceOne (h : Ok size r) (hrel : r.released[r.lastAlive]? = some true) :
    Ok size
      { r with tail := r.slotHeapEnd.getD r.lastAlive 0, lastAlive := r.lastAlive + 1 } := by
  have hlt : r.lastAlive < r.slabs.length := by
    have := (List.getElem?_eq_some_iff.mp hrel).1
    have := h.released_length
    omega
  obtain ⟨x, hx⟩ : ∃ x, r.slabs[r.lastAlive]? = some x := ⟨_, getElem?_eq_getElem hlt⟩
  have hend : r.slotHeapEnd.getD r.lastAlive 0 = x.hi := by
    rw [getD_eq_getElem?_getD, h.ends, getElem?_map, hx]
    rfl
  have hdrop : r.slabs.drop r.lastAlive = [] ++ x :: r.slabs.drop (r.lastAlive + 1) := by
    rw [drop_eq_getElem_cons hlt, nil_append]
    rw [getElem?_eq_getElem hlt, Option.some.injEq] at hx
    rw [hx]
  rw [hend]
  refine { h with
    alive_le := hlt, gone := fun k hk => ?_, tail_at := ?_, live := ?_,
    reused := fun i j x y hij hi hj hxy => Nat.lt_succ_of_lt (h.reused i j x y hij hi hj hxy) }
  · rcases Nat.lt_succ_iff_lt_or_eq.mp hk with hk | rfl
    · exact h.gone k hk
    · exact hrel
  · show (0 :: r.slotHeapEnd)[r.lastAlive + 1]? = some x.hi
    rw [getElem?_cons_succ, h.ends, getElem?_map, hx]
    rfl
  · have hlive := h.live
    rw [hdrop] at hlive
    exact hlive.retire

/-- By induction on the turns: as many are left as there are slots ahead. -/
theorem Ok.advanceLoop (n : Nat) (h : Ok size r) (hn : r.released.length ≤ r.lastAlive + n) :
    Ok size (advanceLoop n r) ∧ (HeapRing.advanceLoop n r).Advanced ∧
      (HeapRing.advanceLoop n r).released = r.released ∧
      (HeapRing.advanceLoop n r).slabs = r.slabs := by
  induction n generalizing r with
  | zero =>
    refine ⟨h, ?_, rfl, rfl⟩
    show r.released[r.lastAlive]? ≠ some true
    rw [getElem?_eq_none (show r.released.length ≤ r.lastAlive from hn)]
    exact nofun
  | succ n ih =>
    rw [HeapRing.advanceLoop]
    split
    · rename_i hrel
      exact ih (h.advanceOne hrel) (by show r.released.length ≤ r.lastAlive + 1 + n; omega)
    · rename_i hrel
      exact ⟨h, hrel, rfl, rfl⟩

theorem Ok.setReleased (h : Ok size r) (k : Nat) :
    Ok size { r with released := r.released.set k true } := by
  refine { h with released_length := ?_, gone := fun i hi => ?_ }
  · exact (length_set ..).trans h.released_length
  · show (r.released.set k true)[i]? = some true
    have hgone := h.gone i hi
    rw [getElem?_set]
    split
    · have hlt := (List.getElem?_eq_some_iff.mp hgone).1
      rw [if_pos (by omega)]
    · exact hgone

/-- `release` marks the slot, if it was not, and lets the tail follow. -/
theorem Ok.release (h : Ok size r) (ha : r.Advanced) (k : Nat) :
    Ok size (r.release k) ∧ (r.release k).Advanced ∧ (r.release k).slabs = r.slabs ∧
      (r.released[k]? ≠ none → (r.release k).released = r.released.set k true) ∧
      (r.released[k]? = none → (r.release k).released = r.released) := by
  unfold HeapRing.release
  split
  · rename_i hk
    obtain ⟨hok, hadv, hrel, hslabs⟩ := (h.setReleased k).advanceLoop
      ((r.released.set k true).length - r.lastAlive)
        (by show (r.released.set k true).length ≤ r.lastAlive + _; omega)
    exact ⟨hok, hadv, hslabs, fun _ => hrel, fun hnone => by rw [hnone] at hk; cases hk⟩
  · rename_i hk
    refine ⟨h, ha, rfl, fun hsome => ?_, fun _ => rfl⟩
    -- the slot was released before
    obtain ⟨b, hb⟩ := ne_none_iff_exists'.mp hsome
    have htrue : r.released[k]? = some true := by
      cases b with
      | true => exact hb
      | false => exact absurd hb hk
    obtain ⟨hlt, heq⟩ := List.getElem?_eq_some_iff.mp htrue
    rw [← heq, set_getElem_self]

/-- **A heap whose slots are all released is empty.** -/
theorem Ok.drained (h : Ok size r) (ha : r.Advanced) (hall : ∀ b ∈ r.released, b = true) :
    r.lastAlive = r.released.length ∧ r.tail = r.top := by
  have hlast : r.lastAlive = r.released.length := by
    have hle := h.alive_le
    have hlen := h.released_length
    rcases lt_or_ge r.lastAlive r.released.length with hlt | hge
    · refine absurd ?_ ha
      rw [getElem?_eq_getElem hlt, hall _ (getElem_mem hlt)]
    · omega
  refine ⟨hlast, ?_⟩
  have htail := h.tail_at
  rw [hlast, h.released_length, h.top_at, Option.some.injEq] at htail
  exact htail.symm

end HeapRing

/-! ## The allocator -/

namespace Ring

variable {c : HeapConfig} {s s' : Ring}

theorem ringIdxForScope_lt (d : Int) : ringIdxForScope d < maxRingDepth := by
  unfold ringIdxForScope maxRingDepth
  dsimp only
  split <;> split <;> omega

structure Inv (c : HeapConfig) (s : Ring) : Prop where
  ring : ∀ r, (s.rings r).Ok c.heapBytes ∧ (s.rings r).Advanced
  -- a slot has a place in its heap, and no two slots share one
  place : ∀ (i : Nat) (p : SlotPlace), s.slotStates[i]? = some p → p.ringIdx < maxRingDepth ∧
    ∃ x : Segment, (s.rings p.ringIdx).slabs[p.ringSlotIdx]? = some x ∧
      (p.bytes + heapAlign - 1 < 2 ^ 64 → p.bytes ≤ x.hi - x.lo)
  ordered : ∀ i j p q, s.SameRing i j p q → i < j → p.ringSlotIdx < q.ringSlotIdx
  placed : ∀ r k, k < (s.rings r).slabs.length →
    ∃ (i : Nat) (p : SlotPlace), s.slotStates[i]? = some p ∧ p.ringIdx = r ∧ p.ringSlotIdx = k

theorem Inv.init : Inv c init where
  ring _ := ⟨.init, nofun⟩
  place _ _ h := by cases h
  ordered _ _ _ _ h := by cases h.1
  placed _ _ h := absurd h (Nat.not_lt_zero _)

theorem alignedBytes_le (h : bytes + heapAlign - 1 < 2 ^ 64) :
    bytes ≤ alignedBytes bytes := by
  unfold alignedBytes
  split
  · rw [alignUp64_of_fits h]
    exact le_alignUp (by decide)
  · omega

theorem slab_of_getElem? (h : (s.rings p.ringIdx).slabs[p.ringSlotIdx]? = some x) :
    s.slab c p = ⟨c.base p.ringIdx + x.lo, c.base p.ringIdx + x.hi⟩ := by
  rw [slab, getD_eq_getElem?_getD, h]
  rfl

section Take

variable {ringIdx off top aligned bytes : Nat}

/-- The old slabs of a heap are a beginning of the new ones. -/
theorem getElem?_slabs_take {r k : Nat} (h : (s.rings r).slabs[k]? = some x) :
    ((s.take ringIdx off top aligned bytes).rings r).slabs[k]? = some x :=
  (forall_update_iff s.rings fun r (ring : HeapRing) =>
    (s.rings r).slabs[k]? = some x → ring.slabs[k]? = some x).mpr
      ⟨getElem?_concat_of_some, fun _ _ => id⟩ r h

theorem Inv.getElem?_slabs_new (h : Inv c s) :
    ((s.take ringIdx off top aligned bytes).rings ringIdx).slabs[
      (s.rings ringIdx).released.length]? = some ⟨off, off + aligned⟩ := by
  show (update s.rings ringIdx _ ringIdx).slabs[_]? = _
  rw [update_self, (h.ring ringIdx).1.released_length]
  exact getElem?_concat_length

/-- A slot is appended. -/
theorem Inv.take (h : Inv c s) (hidx : ringIdx < maxRingDepth)
    (hok : ((s.rings ringIdx).reserve off top aligned).Ok c.heapBytes)
    (hbytes : bytes + heapAlign - 1 < 2 ^ 64 → bytes ≤ aligned) :
    Inv c (s.take ringIdx off top aligned bytes) := by
  have hlen := (h.ring ringIdx).1.released_length
  refine ⟨fun r => ?_, fun i p hp => ?_, fun i j p q hpq hij => ?_, fun r k hk => ?_⟩
  · refine (forall_update_iff s.rings fun _ (ring : HeapRing) =>
      ring.Ok c.heapBytes ∧ ring.Advanced).mpr ⟨⟨hok, fun hrel => ?_⟩, fun r _ => h.ring r⟩ r
    rcases getElem?_concat_cases hrel with hrel | ⟨-, hfalse⟩
    · exact (h.ring ringIdx).2 hrel
    · cases hfalse
  · rcases getElem?_concat_cases hp with hp | ⟨-, rfl⟩
    · obtain ⟨hlt, x, hx, hb⟩ := h.place i p hp
      exact ⟨hlt, x, getElem?_slabs_take hx, hb⟩
    · refine ⟨hidx, _, h.getElem?_slabs_new, fun hf => ?_⟩
      have := hbytes hf
      show bytes ≤ off + aligned - off
      omega
  · obtain ⟨hp, hq, heq⟩ := hpq
    rcases getElem?_concat_cases hq with hq | ⟨rfl, rfl⟩
    · rcases getElem?_concat_cases hp with hp | ⟨rfl, rfl⟩
      · exact h.ordered i j p q ⟨hp, hq, heq⟩ hij
      · have := (List.getElem?_eq_some_iff.mp hq).1
        omega
    · rcases getElem?_concat_cases hp with hp | ⟨rfl, rfl⟩
      · -- the new slot has the next position
        obtain ⟨-, x, hx, -⟩ := h.place i p hp
        have hlt := (List.getElem?_eq_some_iff.mp hx).1
        show p.ringSlotIdx < (s.rings ringIdx).released.length
        rw [hlen, ← show p.ringIdx = ringIdx from heq]
        exact hlt
      · omega
  · replace hk : k < (update s.rings ringIdx _ r).slabs.length := hk
    show ∃ (i : Nat) (p : SlotPlace), (s.slotStates ++ [_])[i]? = some p ∧ _
    have hold (hlt : k < (s.rings r).slabs.length) :
        ∃ (i : Nat) (p : SlotPlace), (s.slotStates ++ [⟨ringIdx,
          (s.rings ringIdx).released.length, bytes⟩])[i]? = some p ∧ p.ringIdx = r ∧
            p.ringSlotIdx = k := by
      obtain ⟨i, p, hp, hr, hk⟩ := h.placed r k hlt
      exact ⟨i, p, getElem?_concat_of_some hp, hr, hk⟩
    by_cases hr : r = ringIdx
    · subst hr
      rw [update_self] at hk
      replace hk : k < ((s.rings r).slabs ++ [_]).length := hk
      rw [length_append, length_singleton] at hk
      rcases Nat.lt_succ_iff_lt_or_eq.mp hk with hlt | rfl
      · exact hold hlt
      · exact ⟨s.slotStates.length, _, getElem?_concat_length, rfl, hlen⟩
    · rw [update_of_ne hr] at hk
      exact hold hk

/-- The slabs of a heap are only added to. -/
theorem Inv.slab_take (h : Inv c s) (hp : s.slotStates[i]? = some p) :
    (s.take ringIdx off top aligned bytes).slab c p = s.slab c p := by
  obtain ⟨-, x, hx, -⟩ := h.place i p hp
  exact (slab_of_getElem? (getElem?_slabs_take hx)).trans (slab_of_getElem? hx).symm

/-- The slab of the new slot. -/
theorem Inv.slab_take_new (h : Inv c s) :
    (s.take ringIdx off top aligned bytes).slab c
        ⟨ringIdx, (s.rings ringIdx).released.length, bytes⟩ =
      ⟨c.base ringIdx + off, c.base ringIdx + (off + aligned)⟩ :=
  slab_of_getElem? (x := ⟨off, off + aligned⟩) h.getElem?_slabs_new

end Take

/-- A new slot does not change which of the old ones were released. -/
theorem Inv.released_take_iff {r : Nat} (h : Inv c s) (hp : s.slotStates[i]? = some p) :
    (s.take r off top aligned bytes).Released p ↔ s.Released p := by
  obtain ⟨-, x, hx, -⟩ := h.place i p hp
  have hlt := (List.getElem?_eq_some_iff.mp hx).1
  unfold Released Ring.take
  dsimp only
  by_cases hr : p.ringIdx = r
  · subst hr
    rw [update_self]
    show ((s.rings p.ringIdx).released ++ [false])[p.ringSlotIdx]? = some true ↔ _
    rw [getElem?_append_left (by rw [(h.ring p.ringIdx).1.released_length]; exact hlt)]
  · rw [update_of_ne hr]

theorem not_released_take (s : Ring) (r off top aligned bytes : Nat) :
    ¬ (s.take r off top aligned bytes).Released ⟨r, (s.rings r).released.length, bytes⟩ := by
  intro hrel
  unfold Released Ring.take at hrel
  dsimp only at hrel
  rw [update_self] at hrel
  replace hrel : ((s.rings r).released ++ [false])[(s.rings r).released.length]? = some true := hrel
  rw [getElem?_concat_length] at hrel
  cases hrel

/-- What a call of `alloc` can do: nothing, or hand out the next slot with the segment that the
heap has found, empty where no bytes were asked for. -/
inductive Allocated (c : HeapConfig) (s : Ring) (bytes : Nat) (d : Int) : AllocReply × Ring → Prop
  | refused {reply : AllocReply} (hno : ∀ n p e r, reply ≠ .slot n p e r) :
      Allocated c s bytes d (reply, s)
  | empty (hzero : alignedBytes bytes = 0) :
      Allocated c s bytes d
        (.slot s.slotStates.length 0 (s.rings (ringIdxForScope d)).top (ringIdxForScope d),
          s.take (ringIdxForScope d) (s.rings (ringIdxForScope d)).top
            (s.rings (ringIdxForScope d)).top 0 bytes)
  | bumped {off top : Nat} (hpos : alignedBytes bytes ≠ 0)
      (hbump : (s.rings (ringIdxForScope d)).tryBumpRingHeap c.heapBytes (alignedBytes bytes) =
        some (off, top)) :
      Allocated c s bytes d
        (.slot s.slotStates.length (c.base (ringIdxForScope d) + off) top (ringIdxForScope d),
          s.take (ringIdxForScope d) off top (alignedBytes bytes) bytes)

/-- What a call of `alloc` can do. -/
theorem alloc_cases (c : HeapConfig) (s : Ring) (bytes : Nat) (d : Int) :
    Allocated c s bytes d (s.alloc c bytes d) := by
  unfold Ring.alloc
  dsimp only
  split
  · exact .refused nofun
  · split
    · exact .refused nofun
    · split
      · exact .refused nofun
      · split
        · rename_i hzero
          exact .empty hzero
        · rename_i hpos
          split
          · exact .refused nofun
          · rename_i hbump
            exact .bumped hpos hbump

/-- A call of `alloc`. -/
theorem Inv.alloc (h : Inv c s) (bytes : Nat) (d : Int) : Inv c (s.alloc c bytes d).2 := by
  have hidx := ringIdxForScope_lt d
  have hlive := (h.ring (ringIdxForScope d)).1.live
  have hcases := alloc_cases c s bytes d
  generalize s.alloc c bytes d = res at hcases
  cases hcases with
  | refused => exact h
  | empty hzero =>
    -- a slot without a slab: an empty segment at `top`
    refine h.take hidx ((h.ring _).1.reserve rfl hlive.push_empty) fun hf => ?_
    have := alignedBytes_le hf
    omega
  | bumped _ hbump =>
    obtain ⟨rfl, hlive'⟩ := HeapRing.tryBumpRingHeap_live hlive hbump
    exact h.take hidx ((h.ring _).1.reserve rfl hlive') alignedBytes_le

/-- A slot is released. -/
theorem Inv.release (h : Inv c s) (slot : Int) : Inv c (s.release slot) := by
  unfold Ring.release
  split
  · exact h
  · split
    · exact h
    · rename_i p hp
      obtain ⟨hok, hadv, hslabs, -, -⟩ :=
        (h.ring p.ringIdx).1.release (h.ring p.ringIdx).2 p.ringSlotIdx
      have hkeep : ∀ r, (update s.rings p.ringIdx
          ((s.rings p.ringIdx).release p.ringSlotIdx) r).slabs = (s.rings r).slabs :=
        (forall_update_iff s.rings fun r (ring : HeapRing) =>
          ring.slabs = (s.rings r).slabs).mpr ⟨hslabs, fun _ _ => rfl⟩
      refine ⟨(forall_update_iff s.rings fun _ (ring : HeapRing) =>
        ring.Ok c.heapBytes ∧ ring.Advanced).mpr ⟨⟨hok, hadv⟩, fun r _ => h.ring r⟩,
        fun i q hq => ?_, h.ordered, fun r k hk => ?_⟩
      · obtain ⟨hlt, x, hx, hb⟩ := h.place i q hq
        exact ⟨hlt, x, by rw [hkeep]; exact hx, hb⟩
      · rw [hkeep] at hk
        exact h.placed r k hk

theorem Inv.slab_release (h : Inv c s) (slot : Int) (p : SlotPlace) :
    (s.release slot).slab c p = s.slab c p := by
  unfold Ring.release
  split
  · rfl
  · split
    · rfl
    · rename_i q hq
      obtain ⟨-, -, hslabs, -, -⟩ :=
        (h.ring q.ringIdx).1.release (h.ring q.ringIdx).2 q.ringSlotIdx
      unfold Ring.slab
      dsimp only
      by_cases hr : p.ringIdx = q.ringIdx
      · rw [hr, update_self, hslabs]
      · rw [update_of_ne hr]

/-- Two slots of one ring have different places. -/
theorem Inv.place_inj (h : Inv c s) (hpq : s.SameRing i j p q)
    (hidx : p.ringSlotIdx = q.ringSlotIdx) : i = j := by
  rcases Nat.lt_trichotomy i j with hlt | heq | hgt
  · have := h.ordered i j p q hpq hlt
    omega
  · exact heq
  · have := h.ordered j i q p ⟨hpq.2.1, hpq.1, hpq.2.2.symm⟩ hgt
    omega

/-- `release` marks the slot it is called for and no other. -/
theorem Inv.released_release_iff (h : Inv c s) (j : Nat) (hp : s.slotStates[i]? = some p) :
    (s.release j).Released p ↔ s.Released p ∨ i = j := by
  unfold Ring.release
  rw [if_neg (by omega), Int.toNat_natCast]
  split
  · rename_i hnone
    refine ⟨.inl, fun hrel => hrel.resolve_right fun hij => ?_⟩
    rw [← hij, hp] at hnone
    cases hnone
  · rename_i q hq
    obtain ⟨-, -, -, hset, -⟩ :=
      (h.ring q.ringIdx).1.release (h.ring q.ringIdx).2 q.ringSlotIdx
    obtain ⟨-, x, hx, -⟩ := h.place j q hq
    have hlt : q.ringSlotIdx < (s.rings q.ringIdx).released.length := by
      rw [(h.ring q.ringIdx).1.released_length]
      exact (List.getElem?_eq_some_iff.mp hx).1
    replace hset := hset (by rw [getElem?_eq_getElem hlt]; nofun)
    unfold Released
    dsimp only
    by_cases hr : p.ringIdx = q.ringIdx
    · rw [hr, update_self, hset]
      by_cases hidx : p.ringSlotIdx = q.ringSlotIdx
      · rw [hidx, getElem?_set_self hlt]
        exact ⟨fun _ => .inr (h.place_inj ⟨hp, hq, hr⟩ hidx), fun _ => rfl⟩
      · rw [getElem?_set_ne (Ne.symm hidx)]
        refine ⟨.inl, fun hrel => hrel.resolve_right fun hij => hidx ?_⟩
        rw [hij, hq] at hp
        cases hp
        rfl
    · rw [update_of_ne hr]
      refine ⟨.inl, fun hrel => hrel.resolve_right fun hij => hr ?_⟩
      rw [hij, hq] at hp
      cases hp
      rfl

/-- One step. -/
theorem Inv.step {a : Act} (h : Inv c s) (hst : s.step c a = some s') : Inv c s' := by
  cases a with
  | alloc bytes d =>
    cases hst
    exact h.alloc bytes d
  | release slot =>
    cases hst
    exact h.release slot
  | reset =>
    obtain ⟨-, heq⟩ := ite_none_right_eq_some.mp hst
    cases heq
    exact { Inv.init with }
  | shutdown =>
    cases hst
    exact { h with }

/-- The invariant holds in every run. -/
theorem Inv.reach {ok : Ring → Act → Prop} (h : Reach (Ring.step c) ok Ring.init s) : Inv c s :=
  h.invariant .init fun _ _ _ _ ih _ hst => ih.step hst

/-- A call adds at most one slot, for the bytes it was called with. -/
theorem mem_alloc_slotStates {d : Int} (hp : p ∈ (s.alloc c bytes d).2.slotStates) :
    p ∈ s.slotStates ∨ p.bytes = bytes := by
  have htake (r off top aligned : Nat) (hp : p ∈ (s.take r off top aligned bytes).slotStates) :
      p ∈ s.slotStates ∨ p.bytes = bytes := by
    rcases mem_append.mp hp with hp | hp
    · exact .inl hp
    · exact .inr (by rw [mem_singleton.mp hp])
  have hcases := alloc_cases c s bytes d
  generalize s.alloc c bytes d = res at hcases hp
  cases hcases with
  | refused => exact .inl hp
  | empty => exact htake _ _ _ _ hp
  | bumped => exact htake _ _ _ _ hp

theorem release_slotStates (slot : Int) : (s.release slot).slotStates = s.slotStates := by
  unfold Ring.release
  split
  · rfl
  · split <;> rfl

def BytesFit (s : Ring) : Prop := ∀ p ∈ s.slotStates, p.bytes + heapAlign - 1 < 2 ^ 64

/-- Slabs are as large as asked for. -/
theorem bytesFit_reach (h : Reach (Ring.step c) RoundingFits Ring.init s) : s.BytesFit := by
  have hinit : BytesFit Ring.init := fun _ hp => by cases hp
  refine Reach.invariant hinit (fun s a s' _ ih hok hst p hp => ?_) h
  cases a with
  | alloc bytes d =>
    cases hst
    rcases mem_alloc_slotStates hp with hp | rfl
    · exact ih p hp
    · exact hok
  | release slot =>
    cases hst
    rw [release_slotStates] at hp
    exact ih p hp
  | reset =>
    obtain ⟨-, heq⟩ := ite_none_right_eq_some.mp hst
    cases heq
    cases hp
  | shutdown =>
    cases hst
    exact ih p hp

/-! ## Isolation -/

theorem Inv.slab_eq (h : Inv c s) (hp : s.slotStates[i]? = some p) :
    ∃ x, (s.rings p.ringIdx).slabs[p.ringSlotIdx]? = some x ∧
      s.slab c p = ⟨c.base p.ringIdx + x.lo, c.base p.ringIdx + x.hi⟩ := by
  obtain ⟨-, x, hx, -⟩ := h.place i p hp
  exact ⟨x, hx, slab_of_getElem? hx⟩

theorem disjoint_shift {y : Segment} {b : Nat} :
    Segment.Disjoint ⟨b + x.lo, b + x.hi⟩ ⟨b + y.lo, b + y.hi⟩ ↔ x.Disjoint y := by
  constructor
  · intro h a hlo hhi hy
    exact h (b + a) (Nat.add_le_add_left hlo b) (Nat.add_lt_add_left hhi b)
      ⟨Nat.add_le_add_left hy.1 b, Nat.add_lt_add_left hy.2 b⟩
  · intro h a hlo hhi hy
    simp only at hlo hhi hy
    exact h (a - b) (by omega) (by omega) (by omega)

theorem disjoint_symm {y : Segment} (h : x.Disjoint y) : y.Disjoint x :=
  fun a hlo hhi hx => h a hx.1 hx.2 ⟨hlo, hhi⟩

/-- Overlapping slabs of one heap: the older slot and everything before it is released. -/
theorem Inv.overlap (h : Inv c s) {k : Nat} {o : SlotPlace} (hpq : s.SameRing i j p q) (hij : i < j)
    (hover : ¬ (s.slab c p).Disjoint (s.slab c q)) (hop : s.SameRing k i o p) (hki : k ≤ i) :
    s.Released o := by
  obtain ⟨hp, hq, hring⟩ := hpq
  obtain ⟨x, hx, hxs⟩ := h.slab_eq hp
  obtain ⟨y, hy, hys⟩ := h.slab_eq hq
  rw [hxs, hys, ← hring, disjoint_shift] at hover
  have hlt := h.ordered i j p q ⟨hp, hq, hring⟩ hij
  have hgone := (h.ring p.ringIdx).1.reused _ _ x y hlt hx (by rw [hring]; exact hy) hover
  have hle : o.ringSlotIdx ≤ p.ringSlotIdx := by
    rcases Nat.lt_or_eq_of_le hki with hlt | rfl
    · exact le_of_lt (h.ordered k i o p hop hlt)
    · have heq := hop.1.symm.trans hp
      cases heq
      exact le_rfl
  show (s.rings o.ringIdx).released[o.ringSlotIdx]? = some true
  rw [hop.2.2]
  exact (h.ring p.ringIdx).1.gone _ (by omega)

/-- A slab lies in the mapping of its ring. -/
theorem Inv.within (h : Inv c s) (hp : s.slotStates[i]? = some p) :
    c.base p.ringIdx ≤ (s.slab c p).lo ∧ (s.slab c p).lo ≤ (s.slab c p).hi ∧
      (s.slab c p).hi ≤ c.base p.ringIdx + c.heapBytes := by
  obtain ⟨x, hx, hxs⟩ := h.slab_eq hp
  obtain ⟨hle, hsize⟩ := (h.ring p.ringIdx).1.within x (mem_of_getElem? hx)
  rw [hxs]
  simp only
  omega

/-- An unreleased slab meets no later one. -/
theorem Inv.disjoint (h : Inv c s) (hij : i < j) (hp : s.slotStates[i]? = some p)
    (hq : s.slotStates[j]? = some q) (hlive : ¬ s.Released p) :
    (s.slab c p).Disjoint (s.slab c q) := by
  by_cases hring : p.ringIdx = q.ringIdx
  · by_contra hover
    exact hlive (h.overlap ⟨hp, hq, hring⟩ hij hover ⟨hp, hp, rfl⟩ le_rfl)
  · -- different mappings
    have hpw := h.within hp
    have hqw := h.within hq
    rcases c.apart _ (h.place i p hp).1 _ (h.place j q hq).1 hring with hle | hle
    · exact Segment.disjoint_of_le (by omega)
    · exact Segment.disjoint_of_ge (by omega)

end Ring

open PtoRuntime.Hier.Ring in
/--
**Heap ring isolation.** In every run of `alloc` calls whose rounding does not overflow and
`release` calls, in any order and with repeats: the slabs of two unreleased slots share no
address; the slab of a slot lies inside the mapping of its ring and is as large as asked for;
and where the slab of a slot overlaps that of an older one of its ring, the older one and
everything allocated before it in that ring has been released.
-/
theorem heap_slabs_isolated {c : HeapConfig} {s : Ring}
    (h : Reach (Ring.step c) RoundingFits Ring.init s) :
    (∀ (i j : Nat) (p q : SlotPlace), i ≠ j → s.slotStates[i]? = some p →
      s.slotStates[j]? = some q → ¬ s.Released p → ¬ s.Released q →
        (s.slab c p).Disjoint (s.slab c q)) ∧
    (∀ (i : Nat) (p : SlotPlace), s.slotStates[i]? = some p → c.base p.ringIdx ≤ (s.slab c p).lo ∧
      (s.slab c p).lo ≤ (s.slab c p).hi ∧ (s.slab c p).hi ≤ c.base p.ringIdx + c.heapBytes ∧
      p.bytes ≤ (s.slab c p).hi - (s.slab c p).lo) ∧
    (∀ i j p q, s.SameRing i j p q → i < j → ¬ (s.slab c p).Disjoint (s.slab c q) →
      ∀ k o, s.SameRing k i o p → k ≤ i → s.Released o) := by
  have hinv := Inv.reach h
  refine ⟨fun i j p q hne hp hq hlivep hliveq => ?_, fun i p hp => ?_,
    fun i j p q hpq hij hover k o hop hki => hinv.overlap hpq hij hover hop hki⟩
  · rcases Nat.lt_or_gt_of_ne hne with hij | hji
    · exact hinv.disjoint hij hp hq hlivep
    · exact disjoint_symm (hinv.disjoint hji hq hp hliveq)
  · obtain ⟨hlo, hle, hhi⟩ := hinv.within hp
    obtain ⟨-, x, hx, hbytes⟩ := hinv.place i p hp
    obtain ⟨y, hy, hslab⟩ := hinv.slab_eq hp
    obtain rfl : x = y := some.inj (hx.symm.trans hy)
    refine ⟨hlo, hle, hhi, ?_⟩
    rw [hslab]
    have := hbytes (bytesFit_reach h p (mem_of_getElem? hp))
    simp only
    omega

/-- Four heaps of 4096 bytes. -/
def smallHeaps : HeapConfig where
  heapBytes := 4096
  base r := 4096 * (r + 1)
  base_pos := by decide
  fits := by decide
  apart := by decide

/-- Slots 0, 1 and 2 fill the outermost heap, slot 3 is in another one. Slot 1 is released before
slot 0; slot 4 then takes their place. -/
def releaseOutOfOrder : List Ring.Act :=
  [.alloc 1500 0, .alloc 900 0, .alloc 1024 0, .alloc 100 1, .release 1, .release 1, .release 0,
    .alloc 2000 0]

/-- Slots released out of order. -/
theorem heap_slabs_isolated_releaseOutOfOrder :
    ∃ s, Reach (Ring.step smallHeaps) Ring.RoundingFits Ring.init s ∧
      s.slotStates = [⟨0, 0, 1500⟩, ⟨0, 1, 900⟩, ⟨0, 2, 1024⟩, ⟨1, 0, 100⟩, ⟨0, 3, 2000⟩] ∧
      s.slab smallHeaps ⟨0, 0, 1500⟩ = ⟨4096, 6144⟩ ∧
      s.slab smallHeaps ⟨0, 3, 2000⟩ = ⟨4096, 6144⟩ ∧
      s.Released ⟨0, 0, 1500⟩ ∧
      (s.slab smallHeaps ⟨0, 2, 1024⟩).Disjoint (s.slab smallHeaps ⟨0, 3, 2000⟩) := by
  refine Reach.exists_of_run_imp (P := fun s => s.slotStates = [⟨0, 0, 1500⟩, ⟨0, 1, 900⟩,
      ⟨0, 2, 1024⟩, ⟨1, 0, 100⟩, ⟨0, 3, 2000⟩] ∧ s.slab smallHeaps ⟨0, 0, 1500⟩ = ⟨4096, 6144⟩ ∧
      s.slab smallHeaps ⟨0, 3, 2000⟩ = ⟨4096, 6144⟩ ∧ (s.rings 0).released[2]? ≠ some true ∧
      (s.rings 0).released[3]? ≠ some true) releaseOutOfOrder (by decide +kernel)
    fun s hs ⟨hslots, h₀, h₃, hlive₂, hlive₃⟩ => ?_
  obtain ⟨hdisj, -, hover⟩ := heap_slabs_isolated hs
  refine ⟨hslots, h₀, h₃, ?_, ?_⟩
  · have hp₀ : s.slotStates[0]? = some ⟨0, 0, 1500⟩ := by rw [hslots]; rfl
    have hp₄ : s.slotStates[4]? = some ⟨0, 3, 2000⟩ := by rw [hslots]; rfl
    refine hover 0 4 _ _ ⟨hp₀, hp₄, rfl⟩ (by decide) ?_ 0 _ ⟨hp₀, hp₀, rfl⟩ (by decide)
    rw [h₀, h₃]
    intro hd
    exact hd 4096 (by decide) (by decide) (by decide)
  · exact hdisj 2 4 ⟨0, 2, 1024⟩ ⟨0, 3, 2000⟩ (by decide) (by rw [hslots]; rfl)
      (by rw [hslots]; rfl) hlive₂ hlive₃

end PtoRuntime.Hier
