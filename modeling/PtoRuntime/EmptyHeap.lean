import PtoRuntime.Hier.Ring
import PtoRuntime.Tmrb.Allocator

/-!
# Requests to an empty heap

Both runtimes keep their heaps as bump rings with `top` and `tail` only
(`Ring::try_bump_ring_heap_locked`, `PTO2TaskAllocator::try_bump_heap`). When everything
has been given back the two offsets are equal, but they stay where the last slab ended;
neither allocator moves them back to the start. A request then has to fit between `top`
and the end of the heap, or strictly below `tail`.

Main results: `empty_heap_serves_iff`, `empty_heap_refuses`.
-/

namespace PtoRuntime

open Lib

section Hierarchical

open Hier

variable {c : HeapConfig} {s : Ring}

/-- Where the offsets are equal, the allocator looks at the two sides of `top`. -/
theorem tryBumpRingHeap_isSome_iff {r : Hier.HeapRing} (h : r.tail = r.top) (size aligned : Nat) :
    (r.tryBumpRingHeap size aligned).isSome ↔ aligned ≤ size - r.top ∨ aligned < r.top := by
  unfold Hier.HeapRing.tryBumpRingHeap
  rw [if_pos h.le, h]
  split
  · rename_i hfit
    exact iff_of_true rfl (.inl hfit)
  · rename_i hfit
    split
    · rename_i hwrap
      exact iff_of_true rfl (.inr hwrap)
    · rename_i hwrap
      exact iff_of_false nofun fun h => h.elim hfit hwrap

/-- A request that is at most as large as the heap is rounded without overflow. -/
theorem alignedBytes_of_le {bytes : Nat} (h : alignUp bytes heapAlign ≤ c.heapBytes) :
    Ring.alignedBytes bytes = alignUp bytes heapAlign := by
  have hfit := c.fits 0 (by decide)
  unfold Ring.alignedBytes
  split_ifs with hzero
  · refine alignUp64_of_fits ?_
    have hdiv := Nat.div_add_mod (bytes + heapAlign - 1) heapAlign
    unfold alignUp at h
    unfold heapAlign at *
    omega
  · obtain rfl : bytes = 0 := by omega
    rfl

/-- **The hierarchical allocator.** -/
theorem Ring.alloc_empty_iff {bytes : Nat} {d : Int} (hinv : Ring.Inv c s)
    (hempty : ∀ b ∈ (s.rings (ringIdxForScope d)).released, b = true)
    (hon : s.shutdown = false) (hsize : alignUp bytes heapAlign ≤ c.heapBytes) :
    (∃ slot heapPtr heapEnd, (s.alloc c bytes d).1 =
        .slot slot heapPtr heapEnd (ringIdxForScope d)) ↔
      bytes = 0 ∨ alignUp bytes heapAlign ≤ c.heapBytes - (s.rings (ringIdxForScope d)).top ∨
        alignUp bytes heapAlign < (s.rings (ringIdxForScope d)).top := by
  obtain ⟨hok, hadv⟩ := hinv.ring (ringIdxForScope d)
  obtain ⟨-, heq⟩ := hok.drained hadv hempty
  have hbytes : bytes ≤ alignUp bytes heapAlign := le_alignUp (by decide)
  have hiff := tryBumpRingHeap_isSome_iff heq c.heapBytes (alignUp bytes heapAlign)
  unfold Ring.alloc
  dsimp only
  rw [alignedBytes_of_le hsize, if_neg (by omega), if_neg (by omega), hon,
    if_neg Bool.false_ne_true]
  by_cases hzero : alignUp bytes heapAlign = 0
  · rw [if_pos hzero]
    exact iff_of_true ⟨_, _, _, rfl⟩ (.inl (by omega))
  · have hne : bytes ≠ 0 := by
      rintro rfl
      exact hzero rfl
    rw [if_neg hzero, or_iff_right hne, ← hiff]
    cases hb : (s.rings (ringIdxForScope d)).tryBumpRingHeap c.heapBytes
        (alignUp bytes heapAlign) with
    | none => exact iff_of_false (fun ⟨_, _, _, h⟩ => by cases h) nofun
    | some x => exact iff_of_true ⟨_, _, _, rfl⟩ rfl

end Hierarchical

section TensorMapAndRingBuffer

open Tmrb

variable {c : RingConfig} {s : Tmrb.HeapRing}

theorem tryBumpHeap_isSome_iff {size : Nat} (h : s.heapTail = s.heapTop) :
    (s.tryBumpHeap c size).isSome ↔
      size = 0 ∨ size ≤ c.heapSize - s.heapTop ∨ size < s.heapTop := by
  unfold Tmrb.HeapRing.tryBumpHeap
  split
  · rename_i hzero
    exact iff_of_true rfl (.inl hzero)
  · rename_i hzero
    rw [if_pos h.le, h, or_iff_right hzero]
    split
    · rename_i hfit
      exact iff_of_true rfl (.inl hfit)
    · rename_i hfit
      split
      · rename_i hwrap
        exact iff_of_true rfl (.inr hwrap)
      · rename_i hwrap
        exact iff_of_false nofun fun h => h.elim hfit hwrap

/-- `heap_top` is the end of the buffer of the youngest task. -/
def TopAt (c : RingConfig) (s : Tmrb.HeapRing) : Prop :=
  s.heapTop = if s.localTaskId = 0 then 0
    else (s.packed (s.localTaskId - 1)).packedBufferEnd - c.heapBase

theorem tryBumpHeap_top {size ptr top : Nat} (h : s.tryBumpHeap c size = some (ptr, top)) :
    top = ptr + size - c.heapBase := by
  unfold Tmrb.HeapRing.tryBumpHeap at h
  split at h
  · rename_i hzero
    cases h
    omega
  · split at h
    · split at h
      · cases h
        omega
      · split_ifs at h
        cases h
        omega
    · split_ifs at h
      cases h
      omega

theorem TopAt.load (h : TopAt c s) (n : Nat) : TopAt c (s.updateHeapTail c n) := by
  unfold Tmrb.HeapRing.updateHeapTail
  split <;> exact h

theorem TopAt.step {s' : Tmrb.HeapRing} {a : Tmrb.HeapRing.Act} (h : TopAt c s)
    (hst : Tmrb.HeapRing.step c s a = some s') : TopAt c s' := by
  cases a with
  | alloc size =>
    obtain ⟨-, heq⟩ := Option.ite_none_right_eq_some.mp hst
    cases heq
    exact h.load s.lastTaskAlive
  | orch =>
    unfold Tmrb.HeapRing.step at hst
    dsimp only at hst
    split at hst
    · cases hst
      unfold Tmrb.HeapRing.allocCheck
      split
      · split
        · rename_i ptr top hbump
          -- the task that is committed is the youngest one
          show top = if s.localTaskId + 1 = 0 then 0
            else (Function.update s.packed s.localTaskId _ (s.localTaskId + 1 - 1)).packedBufferEnd
              - c.heapBase
          rw [if_neg (Nat.succ_ne_zero _), Nat.add_sub_cancel, Function.update_self]
          exact tryBumpHeap_top hbump
        · exact h
      · exact h
    · cases hst
      unfold Tmrb.HeapRing.allocSpin
      dsimp only
      split
      · exact h.load s.lastTaskAlive
      · split <;> exact h.load s.lastTaskAlive
    · cases hst
      exact h
    · cases hst
    · cases hst
  | advance n =>
    obtain ⟨-, heq⟩ := Option.ite_none_right_eq_some.mp hst
    cases heq
    exact h

/-- Once the allocator has seen that all tasks are retired, the offsets are equal. -/
theorem heapTail_eq_heapTop (hcore : s.Core c) (htop : TopAt c s)
    (hempty : s.lastAliveSeen = s.localTaskId) : s.heapTail = s.heapTop := by
  unfold TopAt at htop
  by_cases hzero : s.localTaskId = 0
  · rw [if_pos hzero] at htop
    rw [(hcore.tail_init (by omega)).2, htop]
  · rw [if_neg hzero] at htop
    rw [(hcore.tail (by omega)).2, hempty, htop]
    rfl

/-- The first two steps of `alloc`: the load of the watermark and the first turn of the loop. -/
def tryAlloc (c : RingConfig) (s : Tmrb.HeapRing) (outputSize : Int) : Option Tmrb.HeapRing :=
  (Tmrb.HeapRing.step c s (.alloc outputSize)).bind fun s' => Tmrb.HeapRing.step c s' .orch

/-- **The task allocator.** The loop returns in its first turn or starts to spin. -/
theorem alloc_empty_iff {outputSize : Int} (hok : s.Ok c) (htop : TopAt c s) (hpc : s.pc = .idle)
    (hempty : s.lastTaskAlive = s.localTaskId) :
    (∃ s' id base stop, tryAlloc c s outputSize = some s' ∧ s'.pc = .granted id base stop) ↔
      alignedSize outputSize = 0 ∨ alignedSize outputSize ≤ c.heapSize - s.heapTop ∨
        alignedSize outputSize < s.heapTop := by
  obtain ⟨hcore, hseen⟩ := hok.core.load
  obtain ⟨-, hlocal⟩ := Tmrb.HeapRing.updateHeapTail_local (c := c) (s := s) (n := s.lastTaskAlive)
  have hloaded : (s.updateHeapTail c s.lastTaskAlive).heapTop = s.heapTop := by
    unfold Tmrb.HeapRing.updateHeapTail
    split <;> rfl
  have hequal := heapTail_eq_heapTop hcore (htop.load s.lastTaskAlive) (by omega)
  rw [← hloaded, ← tryBumpHeap_isSome_iff hequal]
  -- the window has room for a task
  have hroom : (s.alloc c outputSize).localTaskId - s.lastTaskAlive + 1 < c.windowSize := by
    have := c.four_le
    show (s.updateHeapTail c s.lastTaskAlive).localTaskId - _ + 1 < 2 ^ c.windowBits
    omega
  have hrun : tryAlloc c s outputSize =
      some ((s.alloc c outputSize).allocCheck c outputSize 0 s.lastTaskAlive s.lastTaskAlive) := by
    rw [tryAlloc, Tmrb.HeapRing.step, if_pos hpc]
    rfl
  rw [hrun]
  unfold Tmrb.HeapRing.allocCheck
  rw [if_pos hroom]
  cases hb : (s.updateHeapTail c s.lastTaskAlive).tryBumpHeap c (alignedSize outputSize) with
  | none =>
    have hb' : (s.alloc c outputSize).tryBumpHeap c (alignedSize outputSize) = none := hb
    rw [hb']
    refine iff_of_false ?_ nofun
    rintro ⟨s', id, base, stop, heq, hgranted⟩
    cases heq
    cases hgranted
  | some x =>
    obtain ⟨ptr, top⟩ := x
    have hb' : (s.alloc c outputSize).tryBumpHeap c (alignedSize outputSize) = some (ptr, top) := hb
    rw [hb']
    exact iff_of_true ⟨_, _, _, _, rfl, rfl⟩ rfl

end TensorMapAndRingBuffer

/--
**Requests to an empty heap.** In every run of either allocator, whenever all earlier
allocations of a heap have been given back, a request whose rounded size is at most the size
of the heap is served at once if, and only if, it is empty, fits between `top` and the end of
the heap, or is strictly smaller than `top`.
-/
theorem empty_heap_serves_iff (h : Hier.HeapConfig) (r : Hier.Ring) (bytes : Nat) (d : Int)
    (c : Tmrb.RingConfig) (s : Tmrb.HeapRing) (outputSize : Int) :
    (Reach (Hier.Ring.step h) free Hier.Ring.init r → r.shutdown = false →
      (∀ b ∈ (r.rings (Hier.ringIdxForScope d)).released, b = true) →
      alignUp bytes Hier.heapAlign ≤ h.heapBytes →
      ((∃ slot heapPtr heapEnd, (r.alloc h bytes d).1 =
          .slot slot heapPtr heapEnd (Hier.ringIdxForScope d)) ↔
        bytes = 0 ∨
        alignUp bytes Hier.heapAlign ≤
          h.heapBytes - (r.rings (Hier.ringIdxForScope d)).top ∨
        alignUp bytes Hier.heapAlign < (r.rings (Hier.ringIdxForScope d)).top)) ∧
    (Reach (Tmrb.HeapRing.step c) free Tmrb.HeapRing.init s → s.pc = .idle →
      s.lastTaskAlive = s.localTaskId → Tmrb.alignedSize outputSize ≤ c.heapSize →
      ((∃ s' id base stop, tryAlloc c s outputSize = some s' ∧ s'.pc = .granted id base stop) ↔
        Tmrb.alignedSize outputSize = 0 ∨
        Tmrb.alignedSize outputSize ≤ c.heapSize - s.heapTop ∨
        Tmrb.alignedSize outputSize < s.heapTop)) := by
  constructor
  · intro hs hon hempty hsize
    exact Ring.alloc_empty_iff (Hier.Ring.Inv.reach hs) hempty hon hsize
  · intro hs hpc hempty _
    have htop : TopAt c s :=
      Reach.invariant (show TopAt c Tmrb.HeapRing.init from rfl)
        (fun _ _ _ _ ih _ hst => ih.step hst) hs
    exact alloc_empty_iff (.reach hs) htop hpc hempty

/-- Half of the heap was used and given back. -/
def halfUsed : List Hier.Ring.Act := [.alloc 2048 0, .release 0]

def halfPacked : List Tmrb.HeapRing.Act := [.alloc 128, .orch, .orch, .advance 1]

/-- The other half is served at once. -/
theorem empty_heap_serves_iff_otherHalf :
    (∃ s, Reach (Hier.Ring.step Hier.smallHeaps) free Hier.Ring.init s ∧ (s.rings 0).top = 2048 ∧
      ∃ slot heapPtr heapEnd, (s.alloc Hier.smallHeaps 2000 0).1 = .slot slot heapPtr heapEnd 0) ∧
    ∃ s, Reach (Tmrb.HeapRing.step Tmrb.smallRing) free Tmrb.HeapRing.init s ∧ s.heapTop = 128 ∧
      ∃ s' id base stop, tryAlloc Tmrb.smallRing s 100 = some s' ∧ s'.pc =
        .granted id base stop := by
  obtain ⟨s, hs, hon, hempty, htop⟩ : ∃ s, Reach (Hier.Ring.step Hier.smallHeaps) free
      Hier.Ring.init s ∧ s.shutdown = false ∧ (∀ b ∈ (s.rings 0).released, b = true) ∧
        (s.rings 0).top = 2048 :=
    Reach.exists_of_run halfUsed (by decide +kernel)
  obtain ⟨t, ht, hpc, halive, htop'⟩ : ∃ t, Reach (Tmrb.HeapRing.step Tmrb.smallRing) free
      Tmrb.HeapRing.init t ∧ t.pc = .idle ∧ t.lastTaskAlive = t.localTaskId ∧ t.heapTop = 128 :=
    Reach.exists_of_run halfPacked (by decide +kernel)
  obtain ⟨hserves, hserves'⟩ :=
    empty_heap_serves_iff Hier.smallHeaps s 2000 0 Tmrb.smallRing t 100
  refine ⟨⟨s, hs, htop, ?_⟩, t, ht, htop', ?_⟩
  · refine (hserves hs hon hempty (by decide)).mpr (.inr (.inl ?_))
    show alignUp 2000 Hier.heapAlign ≤ 4096 - (s.rings 0).top
    rw [htop]
    decide
  · refine (hserves' ht hpc halive (by decide)).mpr (.inr (.inl ?_))
    rw [htop']
    decide

/-- A request for three quarters of the heap is not: the hierarchical allocator waits, and the
task allocator starts to spin on the heap. -/
theorem empty_heap_refuses :
    (∃ s, Reach (Hier.Ring.step Hier.smallHeaps) free Hier.Ring.init s ∧ s.shutdown = false ∧
      (∀ b ∈ (s.rings 0).released, b = true) ∧
      alignUp 3072 Hier.heapAlign ≤ Hier.smallHeaps.heapBytes ∧
      (s.alloc Hier.smallHeaps 3072 0).1 = .wait) ∧
    ∃ s, Reach (Tmrb.HeapRing.step Tmrb.smallRing) free Tmrb.HeapRing.init s ∧
      s.lastTaskAlive = s.localTaskId ∧
      Tmrb.alignedSize 192 ≤ Tmrb.smallRing.heapSize ∧
      (tryAlloc Tmrb.smallRing s 192).map (fun s' => s'.pc) = some (.spin 192 0 1 true) :=
  ⟨Reach.exists_of_run halfUsed (by decide +kernel),
    Reach.exists_of_run halfPacked (by decide +kernel)⟩

end PtoRuntime
