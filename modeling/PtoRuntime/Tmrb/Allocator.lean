import PtoRuntime.Lib.BumpRing
import PtoRuntime.Lib.Reach
import PtoRuntime.Lib.Window

/-!
# The task allocator of a ring

`PTO2TaskAllocator` hands out the next local task id of a ring together with a packed
output buffer in the ring's heap. It keeps only the next id and the two heap pointers;
what has been given back it learns from the watermark `last_task_alive`, whose last
retired task's descriptor holds the end of that task's buffer.

The orchestrator is one thread, but the watermark is advanced by the schedulers at any
time, so every load of it is a step of its own: `alloc` is a loop that reloads the
watermark, moves `heap_tail` and tries again, until it succeeds or gives up after
`PTO2_ALLOC_SPIN_LIMIT` loads without progress. The caller fills the task's descriptor
later (`submit_task_common`, `alloc_tensors`); the watermark never passes a task whose
descriptor has not been filled. Task ids are `int32_t` in the source: a run submits fewer
than 2³¹ tasks to a ring.

Main result: `heap_ring_isolated`.
-/

namespace PtoRuntime.Tmrb

open Lib Function List

/-- One ring: its task window (a power of two, at least 4) and its heap. -/
structure RingConfig where
  windowBits : Nat
  four_le : 4 ≤ 2 ^ windowBits
  heapBase : Nat
  heapBase_pos : 0 < heapBase  -- not the null pointer
  heapSize : Nat

namespace RingConfig

def windowSize (c : RingConfig) : Nat := 2 ^ c.windowBits

def windowMask (c : RingConfig) : Nat := c.windowSize - 1

theorem and_windowMask (c : RingConfig) (n : Nat) : n &&& c.windowMask = n % c.windowSize :=
  Nat.and_two_pow_sub_one_eq_mod n c.windowBits

end RingConfig

/-- The size `alloc` asks the heap for: `PTO2_ALIGN_UP(output_size, PTO2_ALIGN_SIZE)`. -/
def alignedSize (outputSize : Int) : Nat :=
  if 0 < outputSize then alignUp outputSize.toNat 64 else 0

/-- The part of `PTO2TaskDescriptor` that the allocator reads. -/
structure TaskDescriptor where
  packedBufferBase : Nat
  packedBufferEnd : Nat
  deriving DecidableEq, Repr

inductive AllocError
  | heapRingDeadlock
  | flowControlDeadlock
  deriving DecidableEq, Repr

/-- Where the orchestrator is inside `alloc`, and after it. -/
inductive AllocPc
  | idle
  -- the loop test, with the watermark loaded last
  | check (outputSize : Int) (spinCount prevLastAlive lastAlive : Nat)
  -- the next load of the watermark
  | spin (outputSize : Int) (spinCount prevLastAlive : Nat) (blockedOnHeap : Bool)
  -- `alloc` has returned; the descriptor is still to be filled
  | granted (taskId packedBase packedEnd : Nat)
  | failed
  deriving DecidableEq, Repr

structure HeapRing where
  -- PTO2TaskAllocator
  localTaskId : Nat
  heapTop : Nat
  heapTail : Nat
  lastAliveSeen : Nat
  -- shared memory of the ring
  currentTaskIndex : Nat
  lastTaskAlive : Nat
  descriptors : Nat → TaskDescriptor
  errorCode : Option AllocError
  pc : AllocPc
  -- history
  packed : Nat → TaskDescriptor      -- what `alloc` returned for a task
  filled : Nat                       -- tasks whose descriptors have been filled
  owner : Nat → Option Nat           -- the task that filled a descriptor last
  tailFrom : Option Nat              -- the task whose descriptor `heap_tail` was read from

namespace HeapRing

/-- `PTO2TaskAllocator::init` on zeroed shared memory. -/
def init : HeapRing where
  localTaskId := 0
  heapTop := 0
  heapTail := 0
  lastAliveSeen := 0
  currentTaskIndex := 0
  lastTaskAlive := 0
  descriptors _ := ⟨0, 0⟩
  errorCode := none
  pc := .idle
  packed _ := ⟨0, 0⟩
  filled := 0
  owner _ := none
  tailFrom := none

variable (c : RingConfig)

/-- `update_heap_tail`. -/
def updateHeapTail (s : HeapRing) (lastAlive : Nat) : HeapRing :=
  if lastAlive ≤ s.lastAliveSeen then s
  else
    let slot := (lastAlive - 1) &&& c.windowMask
    { s with
      lastAliveSeen := lastAlive
      heapTail := (s.descriptors slot).packedBufferEnd - c.heapBase
      tailFrom := s.owner slot }

/-- `try_bump_heap`: the address given out and the new `heap_top`, if there is space. -/
def tryBumpHeap (s : HeapRing) (allocSize : Nat) : Option (Nat × Nat) :=
  if allocSize = 0 then some (c.heapBase + s.heapTop, s.heapTop)
  else if s.heapTail ≤ s.heapTop then
    if allocSize ≤ c.heapSize - s.heapTop then
      some (c.heapBase + s.heapTop, s.heapTop + allocSize)
    else if allocSize < s.heapTail then some (c.heapBase, allocSize)
    else none
  else if allocSize < s.heapTail - s.heapTop then
    some (c.heapBase + s.heapTop, s.heapTop + allocSize)
  else none

/-- `commit_task` and the result of `alloc`. -/
def commitTask (s : HeapRing) (heapPtr heapTop alignedSize : Nat) : HeapRing :=
  { s with
    localTaskId := s.localTaskId + 1
    currentTaskIndex := s.localTaskId + 1
    heapTop := heapTop
    packed := update s.packed s.localTaskId ⟨heapPtr, heapPtr + alignedSize⟩
    pc := .granted s.localTaskId heapPtr (heapPtr + alignedSize) }

def allocSpinLimit : Nat := 100000

/-- `alloc(output_size)`: the first load of the watermark. -/
def alloc (s : HeapRing) (outputSize : Int) : HeapRing :=
  { s.updateHeapTail c s.lastTaskAlive with
    pc := .check outputSize 0 s.lastTaskAlive s.lastTaskAlive }

/-- The body of the loop: both resources are checked before either is taken. -/
def allocCheck (s : HeapRing) (outputSize : Int) (spinCount prevLastAlive lastAlive : Nat) :
    HeapRing :=
  if s.localTaskId - lastAlive + 1 < c.windowSize then
    match s.tryBumpHeap c (alignedSize outputSize) with
    | some (heapPtr, heapTop) => s.commitTask heapPtr heapTop (alignedSize outputSize)
    | none => { s with pc := .spin outputSize spinCount prevLastAlive true }
  else { s with pc := .spin outputSize spinCount prevLastAlive false }

/-- The end of the loop body: the watermark is loaded again. -/
def allocSpin (s : HeapRing) (outputSize : Int) (spinCount prevLastAlive : Nat)
    (blockedOnHeap : Bool) : HeapRing :=
  let s' := s.updateHeapTail c s.lastTaskAlive
  if prevLastAlive < s.lastTaskAlive then
    { s' with pc := .check outputSize 0 s.lastTaskAlive s.lastTaskAlive }
  else if allocSpinLimit ≤ spinCount + 1 then
    -- report_deadlock
    { s' with
      errorCode := some (if blockedOnHeap then .heapRingDeadlock else .flowControlDeadlock)
      pc := .failed }
  else { s' with pc := .check outputSize (spinCount + 1) prevLastAlive s.lastTaskAlive }

/-- The caller writes `packed_buffer_base` and `packed_buffer_end` to the descriptor. -/
def fill (s : HeapRing) (taskId packedBase packedEnd : Nat) : HeapRing :=
  let slot := taskId &&& c.windowMask
  { s with
    descriptors := update s.descriptors slot ⟨packedBase, packedEnd⟩
    owner := update s.owner slot (some taskId)
    filled := taskId + 1
    pc := .idle }

inductive Act
  | alloc (outputSize : Int)
  | orch
  | advance (lastAlive : Nat)
  deriving DecidableEq, Repr

/-- The orchestrator's steps, and the schedulers advancing the watermark in any way that
keeps it at most the number of filled descriptors. -/
def step (s : HeapRing) : Act → Option HeapRing
  | .alloc outputSize => if s.pc = .idle then some (s.alloc c outputSize) else none
  | .orch =>
    match s.pc with
    | .check size spin prev last => some (s.allocCheck c size spin prev last)
    | .spin size spin prev blocked => some (s.allocSpin c size spin prev blocked)
    | .granted id base stop => some (s.fill c id base stop)
    | .idle | .failed => none
  | .advance n =>
    if s.lastTaskAlive ≤ n ∧ n ≤ s.filled then some { s with lastTaskAlive := n } else none

/-! ## The invariant -/

variable {c : RingConfig} {s s' : HeapRing}

/-- The buffer of a task, as offsets into the heap. -/
def offsetSegment (c : RingConfig) (s : HeapRing) (i : Nat) : Segment :=
  ⟨(s.packed i).packedBufferBase - c.heapBase, (s.packed i).packedBufferEnd - c.heapBase⟩

/-- The tasks that have an id and are not known to the allocator to be retired. -/
def unreclaimed (s : HeapRing) : List Nat :=
  List.range' s.lastAliveSeen (s.localTaskId - s.lastAliveSeen)

structure Core (c : RingConfig) (s : HeapRing) : Prop where
  seen_le : s.lastAliveSeen ≤ s.lastTaskAlive
  alive_le : s.lastTaskAlive ≤ s.filled
  filled_le : s.filled ≤ s.localTaskId
  window : s.localTaskId < s.lastAliveSeen + c.windowSize
  -- a descriptor belongs to the youngest filled task of its place
  descriptors : ∀ i, i < s.filled → s.filled ≤ i + c.windowSize →
    s.descriptors (i % c.windowSize) = s.packed i ∧ s.owner (i % c.windowSize) = some i
  tail_init : s.lastAliveSeen = 0 → s.tailFrom = none ∧ s.heapTail = 0
  tail : s.lastAliveSeen ≠ 0 → s.tailFrom = some (s.lastAliveSeen - 1) ∧
    s.heapTail = (s.offsetSegment c (s.lastAliveSeen - 1)).hi
  based : ∀ i < s.localTaskId, c.heapBase ≤ (s.packed i).packedBufferBase ∧
    c.heapBase ≤ (s.packed i).packedBufferEnd
  live : BumpRing.Live c.heapSize s.heapTail s.heapTop (s.unreclaimed.map (s.offsetSegment c))

/-- What the program counter says. -/
def PcOk (s : HeapRing) : Prop :=
  match s.pc with
  | .check _ _ _ last => last = s.lastAliveSeen ∧ s.filled = s.localTaskId
  | .granted id base stop =>
    id = s.filled ∧ s.localTaskId = id + 1 ∧ s.packed id = ⟨base, stop⟩
  | .idle | .spin _ _ _ _ | .failed => s.filled = s.localTaskId

theorem core_init : Core c init := by
  refine ⟨le_rfl, le_rfl, le_rfl, ?_, ?_, ?_, ?_, ?_, ?_⟩
  · have := c.four_le
    show 0 < 0 + 2 ^ c.windowBits
    omega
  · intro i hi
    cases hi
  · intro _
    exact ⟨rfl, rfl⟩
  · intro h
    exact absurd rfl h
  · intro i hi
    cases hi
  · exact .linear le_rfl (Nat.zero_le _)

/-- Only the program counter and the error code change. -/
theorem Core.setPc (h : Core c s) {pc : AllocPc} {e : Option AllocError} :
    Core c { s with pc := pc, errorCode := e } :=
  ⟨h.seen_le, h.alive_le, h.filled_le, h.window, h.descriptors, h.tail_init, h.tail,
    h.based, h.live⟩

/-- **A load of the watermark.** The descriptor read is that of the last retired task: it
has been filled, and the window is too short for a younger task in its place. -/
theorem Core.load (h : Core c s) :
    Core c (s.updateHeapTail c s.lastTaskAlive) ∧
      (s.updateHeapTail c s.lastTaskAlive).lastAliveSeen = s.lastTaskAlive := by
  have hseen := h.seen_le
  have halive := h.alive_le
  have hfilled := h.filled_le
  have hwin := h.window
  unfold updateHeapTail
  split
  · rename_i hle
    exact ⟨h, by omega⟩
  · rename_i hlt
    set n := s.lastTaskAlive with hn
    obtain ⟨hdesc, howner⟩ := h.descriptors (n - 1) (by omega) (by omega)
    have hslot : (n - 1) &&& c.windowMask = (n - 1) % c.windowSize := c.and_windowMask _
    -- the tasks up to the new watermark leave the list of segments
    have hlist : s.unreclaimed = range' s.lastAliveSeen (n - 1 - s.lastAliveSeen) ++
        (n - 1) :: range' n (s.localTaskId - n) := by
      have hcons : (n - 1) :: range' n (s.localTaskId - n) =
          range' (n - 1) (s.localTaskId - n + 1) := by
        rw [range'_succ, show n - 1 + 1 = n by omega]
      have happ := range'_append_1 (s := s.lastAliveSeen) (m := n - 1 - s.lastAliveSeen)
        (n := s.localTaskId - n + 1)
      rw [show s.lastAliveSeen + (n - 1 - s.lastAliveSeen) = n - 1 by omega] at happ
      rw [hcons, unreclaimed, happ]
      congr 1
      omega
    have hlive := h.live
    rw [hlist, map_append, map_cons] at hlive
    refine ⟨⟨le_rfl, halive, hfilled, ?_, h.descriptors, ?_, ?_, h.based, ?_⟩, rfl⟩
    · show s.localTaskId < n + c.windowSize
      omega
    · intro h0
      exact absurd h0 (show n ≠ 0 by omega)
    · intro _
      show s.owner _ = some (n - 1) ∧ (s.descriptors _).packedBufferEnd - c.heapBase = _
      rw [hslot, hdesc, howner]
      exact ⟨rfl, rfl⟩
    · simp only [hslot, hdesc]
      exact hlive.retire

/-- A buffer is cut out of free space. -/
theorem tryBumpHeap_live {size ptr top : Nat} {L : List Segment}
    (hl : BumpRing.Live c.heapSize s.heapTail s.heapTop L)
    (h : s.tryBumpHeap c size = some (ptr, top)) :
    ∃ lo, ptr = c.heapBase + lo ∧
      BumpRing.Live c.heapSize s.heapTail top (L ++ [⟨lo, lo + size⟩]) := by
  have htop := hl.top_le
  unfold tryBumpHeap at h
  split at h
  · rename_i h0
    subst h0
    cases h
    exact ⟨s.heapTop, rfl, hl.push_empty⟩
  · split at h
    · rename_i hle
      split at h
      · rename_i hfit
        cases h
        exact ⟨s.heapTop, rfl, hl.push_end hle (by omega)⟩
      · split_ifs at h with hwrap
        cases h
        refine ⟨0, rfl, ?_⟩
        rw [zero_add]
        exact hl.push_wrap hle hwrap
    · rename_i hlt
      split_ifs at h with hgap
      cases h
      exact ⟨s.heapTop, rfl, hl.push_gap (by omega) (by omega)⟩

/-- A task gets its buffer. -/
theorem Core.commit (h : Core c s) {size ptr top : Nat}
    (hwin : s.localTaskId - s.lastAliveSeen + 1 < c.windowSize)
    (hbump : s.tryBumpHeap c size = some (ptr, top)) : Core c (s.commitTask ptr top size) := by
  obtain ⟨lo, rfl, hlive⟩ := tryBumpHeap_live h.live hbump
  have hseen := h.seen_le
  have halive := h.alive_le
  have hfilled := h.filled_le
  -- older tasks keep their buffers
  have hold {i : Nat} (hi : i < s.localTaskId) :
      (s.commitTask (c.heapBase + lo) top size).packed i = s.packed i :=
    update_of_ne (ne_of_lt hi) ..
  have hnew : (s.commitTask (c.heapBase + lo) top size).packed s.localTaskId =
      ⟨c.heapBase + lo, c.heapBase + lo + size⟩ := update_self ..
  have hseg {i : Nat} (hi : i < s.localTaskId) :
      (s.commitTask (c.heapBase + lo) top size).offsetSegment c i = s.offsetSegment c i := by
    rw [offsetSegment, hold hi, offsetSegment]
  refine ⟨hseen, halive, ?_, ?_, ?_, h.tail_init, ?_, ?_, ?_⟩
  · show s.filled ≤ s.localTaskId + 1
    omega
  · show s.localTaskId + 1 < s.lastAliveSeen + c.windowSize
    omega
  · intro i hi hw
    have hi' : i < s.filled := hi
    rw [hold (by omega)]
    exact h.descriptors i hi hw
  · intro h0
    have h0' : s.lastAliveSeen ≠ 0 := h0
    obtain ⟨htf, hht⟩ := h.tail h0
    refine ⟨htf, hht.trans (congrArg Segment.hi (hseg ?_).symm)⟩
    omega
  · intro i hi
    have hi' : i < s.localTaskId + 1 := hi
    rcases Nat.lt_succ_iff_lt_or_eq.mp hi' with hlt | rfl
    · rw [hold hlt]
      exact h.based i hlt
    · rw [hnew]
      exact ⟨Nat.le_add_right .., by show c.heapBase ≤ c.heapBase + lo + size; omega⟩
  · -- the new segment goes to the end of the list
    have hrange : (s.commitTask (c.heapBase + lo) top size).unreclaimed =
        s.unreclaimed ++ [s.localTaskId] := by
      show range' s.lastAliveSeen (s.localTaskId + 1 - s.lastAliveSeen) = _
      rw [show s.localTaskId + 1 - s.lastAliveSeen = s.localTaskId - s.lastAliveSeen + 1 by omega,
        range'_concat, unreclaimed]
      congr 2
      omega
    have hmap : s.unreclaimed.map ((s.commitTask (c.heapBase + lo) top size).offsetSegment c) =
        s.unreclaimed.map (s.offsetSegment c) := by
      refine map_congr_left fun i hi => hseg ?_
      have := mem_range'_1.mp hi
      omega
    have hlast : (s.commitTask (c.heapBase + lo) top size).offsetSegment c s.localTaskId =
        ⟨lo, lo + size⟩ := by
      rw [offsetSegment, hnew]
      simp only [Segment.mk.injEq]
      omega
    rw [hrange, map_append, hmap, map_singleton, hlast]
    exact hlive

/-- The descriptor is filled. -/
theorem Core.fill (h : Core c s) {base stop : Nat} (hlocal : s.localTaskId = s.filled + 1)
    (hpacked : s.packed s.filled = ⟨base, stop⟩) : Core c (s.fill c s.filled base stop) := by
  have hseen := h.seen_le
  have halive := h.alive_le
  refine ⟨hseen, Nat.le_succ_of_le halive, le_of_eq hlocal.symm, h.window, ?_, h.tail_init,
    h.tail, h.based, h.live⟩
  intro i hi hw
  have hi' : i < s.filled + 1 := hi
  have hw' : s.filled + 1 ≤ i + c.windowSize := hw
  simp only [HeapRing.fill, c.and_windowMask]
  by_cases he : i = s.filled
  · subst he
    rw [update_self, update_self, hpacked]
    exact ⟨rfl, rfl⟩
  · -- another place of the window
    have hne : i % c.windowSize ≠ s.filled % c.windowSize := fun hm =>
      he (eq_of_mod_eq hm (by omega) (by omega))
    rw [update_of_ne hne, update_of_ne hne]
    exact h.descriptors i (by omega) (by omega)

/-- The watermark moves. -/
theorem Core.advance (h : Core c s) {n : Nat} (hle : s.lastTaskAlive ≤ n) (hn : n ≤ s.filled) :
    Core c { s with lastTaskAlive := n } :=
  ⟨le_trans h.seen_le hle, hn, h.filled_le, h.window, h.descriptors, h.tail_init, h.tail,
    h.based, h.live⟩

/-! ## Runs -/

structure Ok (c : RingConfig) (s : HeapRing) : Prop where
  core : Core c s
  pc : PcOk s

theorem updateHeapTail_local {n : Nat} :
    (s.updateHeapTail c n).filled = s.filled ∧ (s.updateHeapTail c n).localTaskId =
      s.localTaskId := by
  unfold updateHeapTail
  split <;> exact ⟨rfl, rfl⟩

theorem Ok.alloc (h : Ok c s) {size : Int} (hpc : s.pc = .idle) : Ok c (s.alloc c size) := by
  obtain ⟨hcore, hseen⟩ := h.core.load
  have hfill : s.filled = s.localTaskId := by
    have := h.pc
    rwa [PcOk, hpc] at this
  refine ⟨hcore.setPc (e := (s.updateHeapTail c s.lastTaskAlive).errorCode), hseen.symm, ?_⟩
  obtain ⟨h₁, h₂⟩ := updateHeapTail_local (c := c) (s := s) (n := s.lastTaskAlive)
  show (s.updateHeapTail c _).filled = (s.updateHeapTail c _).localTaskId
  rw [h₁, h₂, hfill]

/-- The first test for space. -/
theorem Ok.check (h : Ok c s) {size : Int} {spin prev last : Nat}
    (hpc : s.pc = .check size spin prev last) : Ok c (s.allocCheck c size spin prev last) := by
  obtain ⟨rfl, hfill⟩ : last = s.lastAliveSeen ∧ s.filled = s.localTaskId := by
    have := h.pc
    rwa [PcOk, hpc] at this
  unfold allocCheck
  split_ifs with hwin
  · split
    · rename_i ptr top hbump
      refine ⟨h.core.commit hwin hbump, ?_⟩
      exact ⟨hfill.symm, rfl, update_self ..⟩
    · exact ⟨h.core.setPc, hfill⟩
  · exact ⟨h.core.setPc, hfill⟩

/-- One more load of the watermark. -/
theorem Ok.spin (h : Ok c s) {size : Int} {spin prev : Nat} {blocked : Bool}
    (hpc : s.pc = .spin size spin prev blocked) : Ok c (s.allocSpin c size spin prev blocked) := by
  obtain ⟨hcore, hseen⟩ := h.core.load
  have hfill : (s.updateHeapTail c s.lastTaskAlive).filled =
      (s.updateHeapTail c s.lastTaskAlive).localTaskId := by
    obtain ⟨h₁, h₂⟩ := updateHeapTail_local (c := c) (s := s) (n := s.lastTaskAlive)
    have := h.pc
    rw [PcOk, hpc] at this
    rw [h₁, h₂]
    exact this
  unfold allocSpin
  split
  · exact ⟨hcore.setPc, hseen.symm, hfill⟩
  · split
    · exact ⟨hcore.setPc, hfill⟩
    · exact ⟨hcore.setPc, hseen.symm, hfill⟩

/-- The granted task is filled. -/
theorem Ok.granted (h : Ok c s) {id base stop : Nat} (hpc : s.pc = .granted id base stop) :
    Ok c (s.fill c id base stop) := by
  obtain ⟨rfl, hlocal, hpacked⟩ : id = s.filled ∧ s.localTaskId = id + 1 ∧
      s.packed id = ⟨base, stop⟩ := by
    have := h.pc
    rwa [PcOk, hpc] at this
  exact ⟨h.core.fill hlocal hpacked, hlocal.symm⟩

theorem Ok.advance (h : Ok c s) {n : Nat} (hle : s.lastTaskAlive ≤ n) (hn : n ≤ s.filled) :
    Ok c { s with lastTaskAlive := n } :=
  ⟨h.core.advance hle hn, h.pc⟩

/-- One step. -/
theorem ok_step {a : Act} (h : Ok c s) (hst : step c s a = some s') : Ok c s' := by
  cases a with
  | alloc size =>
    obtain ⟨hpc, ⟨⟩⟩ := Option.ite_none_right_eq_some.mp hst
    exact h.alloc hpc
  | orch =>
    unfold step at hst
    dsimp only at hst
    split at hst <;> cases hst
    · exact h.check (by assumption)
    · exact h.spin (by assumption)
    · exact h.granted (by assumption)
  | advance n =>
    obtain ⟨⟨hle, hn⟩, ⟨⟩⟩ := Option.ite_none_right_eq_some.mp hst
    exact h.advance hle hn

/-- The invariant holds in every run. -/
theorem Ok.reach (h : Reach (step c) free init s) : Ok c s :=
  Reach.invariant (show Ok c init from ⟨core_init, rfl⟩) (fun _ _ _ _ hs _ hst => ok_step hs hst) h

/-- The packed buffer of a task, as addresses. -/
def buffer (s : HeapRing) (i : Nat) : Segment :=
  ⟨(s.packed i).packedBufferBase, (s.packed i).packedBufferEnd⟩

theorem Core.mem_unreclaimed (h : Core c s) {i : Nat} (hi : s.lastTaskAlive ≤ i)
    (hlt : i < s.localTaskId) : i ∈ s.unreclaimed := by
  have := h.seen_le
  exact mem_range'_1.mpr ⟨by omega, by omega⟩

/-- Live buffers do not meet. -/
theorem Core.disjoint (h : Core c s) {i j : Nat} (hi : s.lastTaskAlive ≤ i) (hij : i < j)
    (hj : j < s.localTaskId) : (s.buffer i).Disjoint (s.buffer j) := by
  have hpair := pairwise_map.mp h.live.pairwise_disjoint
  -- the list of ids is increasing, so `i` stands before `j` in it
  have hseg : (s.offsetSegment c i).Disjoint (s.offsetSegment c j) := by
    have hseen := h.seen_le
    rw [unreclaimed, pairwise_iff_getElem] at hpair
    have := hpair (i - s.lastAliveSeen) (j - s.lastAliveSeen)
      (by rw [length_range']; omega) (by rw [length_range']; omega) (by omega)
    simp only [getElem_range'] at this
    rwa [show s.lastAliveSeen + 1 * (i - s.lastAliveSeen) = i by omega,
      show s.lastAliveSeen + 1 * (j - s.lastAliveSeen) = j by omega] at this
  obtain ⟨hbi, hei⟩ := h.based i (by omega)
  obtain ⟨hbj, hej⟩ := h.based j hj
  intro x hlo hhi hx
  refine hseg (x - c.heapBase) ?_ ?_ ?_ <;>
    simp only [offsetSegment, buffer] at * <;> omega

end HeapRing

open HeapRing in
/--
**Heap ring isolation.** In every reachable state the packed buffers of two unretired
tasks share no address, the packed buffer of an unretired task lies inside the heap, and
`heap_tail`, once a retired task has been seen, is the end of the packed buffer of the
last one, read from the descriptor that this task itself filled.
-/
theorem heap_ring_isolated {c : RingConfig} {s : HeapRing} (h : Reach (step c) free init s) :
    (∀ i j, s.lastTaskAlive ≤ i → i < j → j < s.localTaskId →
      (s.buffer i).Disjoint (s.buffer j)) ∧
    (∀ i, s.lastTaskAlive ≤ i → i < s.localTaskId →
      c.heapBase ≤ (s.buffer i).lo ∧ (s.buffer i).lo ≤ (s.buffer i).hi ∧
        (s.buffer i).hi ≤ c.heapBase + c.heapSize) ∧
    (s.lastAliveSeen = 0 → s.heapTail = 0) ∧
    (s.lastAliveSeen ≠ 0 → s.tailFrom = some (s.lastAliveSeen - 1) ∧
      s.heapTail = (s.buffer (s.lastAliveSeen - 1)).hi - c.heapBase) := by
  have hc := (Ok.reach h).core
  refine ⟨fun i j hi hij hj => hc.disjoint hi hij hj, fun i hi hlt => ?_,
    fun h0 => (hc.tail_init h0).2, hc.tail⟩
  obtain ⟨hbase, hend⟩ := hc.based i hlt
  have hmem := mem_map_of_mem (f := s.offsetSegment c) (hc.mem_unreclaimed hi hlt)
  obtain ⟨hle, hcap⟩ := hc.live.hi_le hmem
  simp only [offsetSegment, buffer] at *
  omega

/-- A heap of 256 bytes at address 4096 and a window of 4 tasks. -/
def smallRing : RingConfig := ⟨2, by decide, 4096, by decide, 256⟩

/-- Tasks 0 and 1 fill the heap; when task 0 retires, task 2 wraps around into its place. -/
def wrapAround : List HeapRing.Act :=
  [.alloc 100, .orch, .orch, .alloc 128, .orch, .orch, .alloc 60, .orch, .advance 1, .orch, .orch,
    .orch]

/-- A buffer before the tail. -/
theorem heap_ring_isolated_wrapAround :
    ∃ s, Reach (HeapRing.step smallRing) free HeapRing.init s ∧ s.lastTaskAlive = 1 ∧
      s.buffer 1 = ⟨4224, 4352⟩ ∧ s.buffer 2 = ⟨4096, 4160⟩ ∧
      (s.buffer 1).Disjoint (s.buffer 2) := by
  refine Reach.exists_of_run_imp (P := fun s => s.lastTaskAlive = 1 ∧ s.localTaskId = 3 ∧
      s.buffer 1 = ⟨4224, 4352⟩ ∧ s.buffer 2 = ⟨4096, 4160⟩) wrapAround (by decide)
    fun s hReach ⟨hAlive, hLocal, h₁, h₂⟩ => ?_
  exact ⟨hAlive, h₁, h₂, (heap_ring_isolated hReach).1 1 2 (by omega) (by omega) (by omega)⟩

end PtoRuntime.Tmrb
