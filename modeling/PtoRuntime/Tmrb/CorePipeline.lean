import PtoRuntime.Lib.Reach

/-!
# The dual-slot pipeline of a core

The AICPU hands a subtask to a core by writing its register id to `DATA_MAIN_BASE`; the core
answers in `COND` with an ACK when it has picked the id up and a FIN when it is done. Both are
plain registers: a write replaces what was there. To keep the core busy, the AICPU dispatches a
second subtask while the first one runs, so it has two slots per core (`running` and `pending`),
and two payload buffers, selected by the low bit of the register id. `decide_slot_transition`
works out from one sample of `COND` which of the two are done.

The core and the AICPU thread that owns the core run concurrently. A dispatch is two steps
(payload and bookkeeping, then the register), and so is a poll (the sample, then what follows
from it); the core makes any number of steps in between. A subtask is named by the number of
dispatches to this core before it.

What carries the proof is that the values of `COND` are a fixed sequence: `condValue w` is the
value after `w` writes. The hidden state of the core is then the number `w` of its writes, the
state of the AICPU is the number `d` of subtasks reported, and every sample is some `condValue v`
with `2 * d ≤ v ≤ w`.

Main results: `core_pipeline_completes_once`, `core_pipeline_pending_first`.
-/

namespace PtoRuntime.Tmrb

open Lib Function List Option

/-! ## Register values -/

def taskIdMask : Nat := 0x7FFFFFFF
def taskStateMask : Nat := 0x80000000
def aicoreExitSignal : Nat := 0x7FFFFFF0
def aicoreIdleTaskId : Nat := 0x7FFFFFFF
def aicpuIdleTaskId : Nat := 0x7FFFFFFD
def aicpuTaskInvalid : Int := -1

/-- `TASK_ACK_STATE` and `TASK_FIN_STATE`. -/
inductive RegState
  | ack
  | fin
  deriving DecidableEq

def extractTaskId (regVal : Nat) : Nat := regVal &&& taskIdMask

def extractTaskState (regVal : Nat) : RegState :=
  if (regVal &&& taskStateMask) >>> 31 = 1 then .fin else .ack

def makeAckValue (taskId : Nat) : Nat := taskId &&& taskIdMask

def makeFinValue (taskId : Nat) : Nat := (taskId &&& taskIdMask) ||| taskStateMask

theorem extractTaskId_eq (v : Nat) : extractTaskId v = v % 2 ^ 31 :=
  Nat.and_two_pow_sub_one_eq_mod v 31

variable {id v w w' d : Nat} {s : CorePipeline}

theorem makeAckValue_eq (h : id < 2 ^ 31) : makeAckValue id = id := by
  rw [makeAckValue, ← extractTaskId, extractTaskId_eq, Nat.mod_eq_of_lt h]

theorem makeFinValue_eq (h : id < 2 ^ 31) : makeFinValue id = 2 ^ 31 + id := by
  rw [makeFinValue, ← makeAckValue, makeAckValue_eq h, Nat.or_comm]
  exact (Nat.two_pow_add_eq_or_of_lt h 1).symm

@[simp] theorem extractTaskId_ack {id : Nat} (h : id < 2 ^ 31) :
    extractTaskId (makeAckValue id) = id := by
  rw [makeAckValue_eq h, extractTaskId_eq, Nat.mod_eq_of_lt h]

@[simp] theorem extractTaskId_fin {id : Nat} (h : id < 2 ^ 31) :
    extractTaskId (makeFinValue id) = id := by
  rw [makeFinValue_eq h, extractTaskId_eq, Nat.add_mod_left, Nat.mod_eq_of_lt h]

-- The state is bit 31, which only `MAKE_FIN_VALUE` sets.
/-- Bit 31 is the state. -/
theorem extractTaskState_eq (v : Nat) :
    extractTaskState v = if v.testBit 31 then .fin else .ack := by
  have hbit : (v &&& taskStateMask) >>> 31 = v >>> 31 % 2 := by
    rw [Nat.shiftRight_and_distrib]
    exact Nat.and_one_is_mod _
  have htest : v.testBit 31 = decide (v >>> 31 % 2 = 1) := by
    rw [Nat.testBit, Nat.one_and_eq_mod_two]
    rcases Nat.mod_two_eq_zero_or_one (v >>> 31) with h | h <;> simp [h]
  rw [extractTaskState, hbit, htest]
  simp only [decide_eq_true_eq]

@[simp] theorem extractTaskState_ack {id : Nat} (h : id < 2 ^ 31) :
    extractTaskState (makeAckValue id) = .ack := by
  rw [makeAckValue_eq h, extractTaskState_eq, Nat.testBit_lt_two_pow h]
  rfl

@[simp] theorem extractTaskState_fin {id : Nat} (h : id < 2 ^ 31) :
    extractTaskState (makeFinValue id) = .fin := by
  rw [makeFinValue_eq h, extractTaskState_eq, Nat.testBit_two_pow_add_eq,
    Nat.testBit_lt_two_pow h]
  rfl

/-! ## Register ids -/

def regTaskId (dispatchSeq : Nat) : Nat := dispatchSeq &&& taskIdMask

/-- `dispatch_seq` after one more dispatch: incremented, and past the reserved ids. -/
def nextSeq (dispatchSeq : Nat) : Nat :=
  let seq := (dispatchSeq + 1) % 2 ^ 32
  if aicoreExitSignal ≤ regTaskId seq then (seq + (taskIdMask - regTaskId seq + 1)) % 2 ^ 32
  else seq

/-- `dispatch_seq` after `n` dispatches. -/
def seqAfter : Nat → Nat
  | 0 => 0
  | n + 1 => nextSeq (seqAfter n)

/-- The register id of subtask `n`. -/
def regIdOf (n : Nat) : Nat := regTaskId (seqAfter (n + 1))

theorem regTaskId_eq (seq : Nat) : regTaskId seq = seq % 2 ^ 31 :=
  Nat.and_two_pow_sub_one_eq_mod seq 31

/-- The reserved ids are skipped. -/
theorem regTaskId_nextSeq {seq : Nat} (h : regTaskId seq < aicoreExitSignal) :
    regTaskId (nextSeq seq) =
      if regTaskId seq + 1 < aicoreExitSignal then regTaskId seq + 1 else 0 := by
  simp only [nextSeq, regTaskId_eq, aicoreExitSignal, taskIdMask] at h ⊢
  split <;> split <;> omega

theorem regTaskId_seqAfter_lt (n : Nat) : regTaskId (seqAfter n) < aicoreExitSignal := by
  induction n with
  | zero => decide
  | succ n ih =>
    rw [seqAfter, regTaskId_nextSeq ih]
    split
    · assumption
    · decide

theorem regIdOf_lt (n : Nat) : regIdOf n < aicoreExitSignal := regTaskId_seqAfter_lt (n + 1)

theorem regIdOf_lt_pow (n : Nat) : regIdOf n < 2 ^ 31 :=
  lt_trans (regIdOf_lt n) (by decide)

theorem regIdOf_succ (n : Nat) :
    regIdOf (n + 1) = regIdOf n + 1 ∨ regIdOf n + 1 = 0x7FFFFFF0 ∧ regIdOf (n + 1) = 0 := by
  have hlt : regIdOf n < 0x7FFFFFF0 := regIdOf_lt n
  have h := regTaskId_nextSeq (regTaskId_seqAfter_lt (n + 1))
  by_cases hnext : regIdOf n + 1 < 0x7FFFFFF0
  · exact .inl (h.trans (if_pos hnext))
  · exact .inr ⟨by omega, h.trans (if_neg hnext)⟩

-- The ids repeat after 2^31 - 16 dispatches; only neighbours are ever compared.
/-- Neighbours have different ids. -/
theorem regIdOf_succ_ne (n : Nat) : regIdOf (n + 1) ≠ regIdOf n := by
  have h := regIdOf_succ n
  omega

theorem regIdOf_add_two_ne (n : Nat) : regIdOf (n + 2) ≠ regIdOf n := by
  have h₁ := regIdOf_succ n
  have h₂ := regIdOf_succ (n + 1)
  rw [show n + 1 + 1 = n + 2 from rfl] at h₂
  omega

/-- Neighbours use different payload buffers: an even number of ids is skipped at the end. -/
theorem regIdOf_buffer_ne (n : Nat) : regIdOf (n + 1) &&& 1 ≠ regIdOf n &&& 1 := by
  have h := regIdOf_succ n
  simp only [Nat.and_one_is_mod]
  omega

/-! ## The pipeline -/

/-- Where the AICPU thread is with respect to this core. -/
inductive AicpuPc
  | rest
  | writeReg (regTaskId : Nat)   -- in `dispatch_subtask_to_core`, before `write_reg`
  | sampled (regVal : Nat)       -- in a poll, after `read_reg`
  deriving DecidableEq

/-- Where the core is in its loop. -/
inductive CorePc
  | wait                                      -- before it reads `DATA_MAIN_BASE`
  | ack (taskId : Nat)                        -- before it writes the ACK
  | exec (taskId : Nat)                       -- before `execute_task`
  | fin (taskId : Nat) (executed : Option Nat) -- before it writes the FIN
  deriving DecidableEq

structure CorePipeline where
  -- `CoreExecState`
  runningSlotState : Option Nat
  pendingSlotState : Option Nat
  runningRegTaskId : Int
  pendingRegTaskId : Int
  dispatchSeq : Nat
  -- the bits of the core in `CoreTracker`
  idle : Bool
  pendingOccupied : Bool
  -- `payload_per_core_[core_id]`: the subtask a buffer was built for
  payload : Nat → Option Nat
  -- the registers of the core
  dataMainBase : Nat
  cond : Nat
  aicpu : AicpuPc
  core : CorePc
  lastRegVal : Nat
  -- history
  dispatched : Nat
  finished : List (Option Nat)   -- what the core had executed at each of its FINs
  reports : List (List Nat)      -- the calls of `complete_slot_task`, poll by poll

structure SlotTransition where
  matched : Bool := false
  runningDone : Bool := false
  pendingDone : Bool := false
  runningFreed : Bool := false
  pendingFreed : Bool := false

def decideSlotTransition (regTaskId : Int) (regState : RegState) (runningId pendingId : Int) :
    SlotTransition :=
  if pendingId ≠ aicpuTaskInvalid ∧ regTaskId = pendingId then
    { matched := true, runningDone := true, runningFreed := true, pendingFreed := true
      pendingDone := regState = .fin }                      -- cases 1 and 2
  else if regTaskId = runningId then
    match regState with
    | .fin =>
      if pendingId = aicpuTaskInvalid then
        { matched := true, runningDone := true, runningFreed := true }   -- case 3.2
      else {}                                               -- case 3.1
    | .ack => { matched := true, pendingFreed := true }     -- case 4
  else {}

namespace CorePipeline

/-- After the handshake: the core has written its idle value. -/
def init : CorePipeline where
  runningSlotState := none
  pendingSlotState := none
  runningRegTaskId := aicpuTaskInvalid
  pendingRegTaskId := aicpuTaskInvalid
  dispatchSeq := 0
  idle := true
  pendingOccupied := false
  payload _ := none
  dataMainBase := aicpuIdleTaskId
  cond := makeFinValue aicoreIdleTaskId
  aicpu := .rest
  core := .wait
  lastRegVal := aicpuIdleTaskId
  dispatched := 0
  finished := []
  reports := []

inductive Act
  | dispatch (toPending : Bool)
  | poll
  | reassign   -- `reassign_cores_for_all_threads`
  | aicpu      -- the rest of a dispatch or a poll
  | core       -- the next step of the core
  deriving DecidableEq

/-- The core is among those `get_dispatchable_cores` offers, for a dispatch to this slot. -/
def dispatchable (s : CorePipeline) (toPending : Bool) : Bool :=
  if toPending then !s.idle && !s.pendingOccupied else s.idle

/-- `dispatch_subtask_to_core` up to `write_reg`. -/
def dispatch (toPending : Bool) (s : CorePipeline) : CorePipeline :=
  let seq := nextSeq s.dispatchSeq
  let id := regTaskId seq
  let s' := { s with
    dispatchSeq := seq
    payload := update s.payload (id &&& 1) (some s.dispatched)
    dispatched := s.dispatched + 1
    aicpu := .writeReg id }
  if toPending then
    { s' with pendingSlotState := some s.dispatched, pendingRegTaskId := id }
  else
    { s' with runningSlotState := some s.dispatched, runningRegTaskId := id, idle := !s.idle }

/-- The subtasks a transition completes, in the order of the calls. -/
def completed (t : SlotTransition) (s : CorePipeline) : List Nat :=
  (if t.pendingDone then s.pendingSlotState.toList else []) ++
    (if t.runningDone then s.runningSlotState.toList else [])

def complete (t : SlotTransition) (s : CorePipeline) : CorePipeline :=
  if s.completed t = [] then s else { s with reports := s.reports ++ [s.completed t] }

def promotePendingToRunning (s : CorePipeline) : CorePipeline :=
  { s with runningSlotState := s.pendingSlotState, runningRegTaskId := s.pendingRegTaskId
           pendingSlotState := none, pendingRegTaskId := aicpuTaskInvalid }

def clearRunningSlot (s : CorePipeline) : CorePipeline :=
  { s with runningSlotState := none, runningRegTaskId := aicpuTaskInvalid }

def updateSlots (t : SlotTransition) (s : CorePipeline) : CorePipeline :=
  if t.runningFreed then
    if s.pendingSlotState ≠ none ∧ t.pendingDone = false then s.promotePendingToRunning
    else if t.pendingDone then
      { s.clearRunningSlot with pendingSlotState := none, pendingRegTaskId := aicpuTaskInvalid }
    else s.clearRunningSlot
  else s

def updateTracker (t : SlotTransition) (s : CorePipeline) : CorePipeline :=
  if s.runningRegTaskId = aicpuTaskInvalid then
    { s with idle := !s.idle, pendingOccupied := false }
  else if t.pendingFreed ∧ s.pendingRegTaskId = aicpuTaskInvalid then
    { s with pendingOccupied := false }
  else s

/-- The body of the loop of `check_running_cores_for_completion` after `read_reg`. -/
def applyTransition (regVal : Nat) (s : CorePipeline) : CorePipeline :=
  let t := decideSlotTransition (extractTaskId regVal) (extractTaskState regVal)
    s.runningRegTaskId s.pendingRegTaskId
  if t.matched then updateTracker t (updateSlots t (complete t s)) else s

/-- One step of the loop of the core. The exit signal is only sent at shutdown. -/
def coreStep (s : CorePipeline) : CorePipeline :=
  match s.core with
  | .wait =>
    if s.dataMainBase = aicpuIdleTaskId ∨ s.dataMainBase = s.lastRegVal then s
    else { s with core := .ack s.dataMainBase }
  | .ack id => { s with cond := makeAckValue id, core := .exec id }
  | .exec id => { s with core := .fin id (s.payload (id &&& 1)) }
  | .fin id x =>
    { s with lastRegVal := id, cond := makeFinValue id, core := .wait, finished :=
      s.finished ++ [x] }

def aicpuStep (s : CorePipeline) : Option CorePipeline :=
  match s.aicpu with
  | .rest => none
  | .writeReg id => some { s with dataMainBase := id, pendingOccupied := true, aicpu := .rest }
  | .sampled v => some { applyTransition v s with aicpu := .rest }

def step (s : CorePipeline) : Act → Option CorePipeline
  | .dispatch toPending =>
    if s.aicpu = .rest ∧ s.dispatchable toPending then some (s.dispatch toPending) else none
  | .poll =>
    if s.aicpu = .rest ∧ s.idle = false then some { s with aicpu := .sampled s.cond } else none
  | .reassign =>
    if s.aicpu = .rest then some { s with pendingOccupied := !s.idle } else none
  | .aicpu => s.aicpuStep
  | .core => some s.coreStep

theorem step_writeReg (hpc : s.aicpu = .writeReg id) :
    s.step .aicpu =
      some { s with dataMainBase := id, pendingOccupied := true, aicpu := .rest } := by
  simp only [step, aicpuStep, hpc]

theorem step_sampled (hpc : s.aicpu = .sampled v) :
    s.step .aicpu = some { applyTransition v s with aicpu := .rest } := by
  simp only [step, aicpuStep, hpc]

/-! ## The two registers as sequences -/

/-- `COND` after `w` writes of the core's loop. -/
def condValue : Nat → Nat
  | 0 => makeFinValue aicoreIdleTaskId
  | w + 1 => if w % 2 = 0 then makeAckValue (regIdOf (w / 2)) else makeFinValue (regIdOf (w / 2))

/-- `DATA_MAIN_BASE` after `m` dispatches. -/
def baseValue : Nat → Nat
  | 0 => aicpuIdleTaskId
  | m + 1 => regIdOf m

theorem condValue_ack (n : Nat) : condValue (2 * n + 1) = makeAckValue (regIdOf n) := by
  rw [condValue, if_pos (Nat.mul_mod_right 2 n), Nat.mul_div_cancel_left n (by decide)]

theorem condValue_fin (n : Nat) : condValue (2 * n + 2) = makeFinValue (regIdOf n) := by
  rw [condValue, if_neg (by omega), show (2 * n + 1) / 2 = n by omega]

theorem baseValue_ne_idle (m : Nat) : baseValue (m + 1) ≠ aicpuIdleTaskId :=
  ne_of_lt (lt_trans (regIdOf_lt m) (by decide))

theorem baseValue_succ_ne (m : Nat) : baseValue (m + 1) ≠ baseValue m := by
  cases m with
  | zero => exact baseValue_ne_idle 0
  | succ m => exact regIdOf_succ_ne m

-- A FIN that was there before subtask `d` started names neither `d` nor `d + 1`.
theorem extractTaskId_condValue_ne (d : Nat) :
    extractTaskId (condValue (2 * d)) ≠ regIdOf d ∧
      extractTaskId (condValue (2 * d)) ≠ regIdOf (d + 1) := by
  cases d with
  | zero =>
    have hidle : extractTaskId (condValue 0) = aicoreIdleTaskId := extractTaskId_fin (by decide)
    have hlt : ∀ n, aicoreIdleTaskId ≠ regIdOf n := fun n =>
      (ne_of_lt (lt_trans (regIdOf_lt n) (by decide))).symm
    exact ⟨hidle ▸ hlt 0, hidle ▸ hlt 1⟩
  | succ d =>
    rw [show 2 * (d + 1) = 2 * d + 2 by omega, condValue_fin, extractTaskId_fin (regIdOf_lt_pow d)]
    exact ⟨(regIdOf_succ_ne d).symm, (regIdOf_add_two_ne d).symm⟩

/-! ## What the polls report -/

/-- The reports of the first `d` subtasks: one by one, or two in a poll, the later one first. -/
inductive Reported : Nat → List (List Nat) → Prop
  | nil : Reported 0 []
  | one {d : Nat} {rs : List (List Nat)} : Reported d rs → Reported (d + 1) (rs ++ [[d]])
  | two {d : Nat} {rs : List (List Nat)} : Reported d rs → Reported (d + 2) (rs ++ [[d + 1, d]])

namespace Reported

variable {d : Nat} {rs : List (List Nat)}

/-- All tasks below `d` are reported. -/
theorem mem_flatten_iff (h : Reported d rs) (n : Nat) : n ∈ rs.flatten ↔ n < d := by
  induction h with
  | nil => simp
  | one _ ih =>
    rw [flatten_append, mem_append, ih, flatten_singleton, mem_singleton]
    omega
  | two _ ih =>
    rw [flatten_append, mem_append, ih, flatten_singleton, mem_pair]
    omega

theorem shape (h : Reported d rs) : ∀ r ∈ rs, ∃ n, r = [n] ∨ r = [n + 1, n] := by
  induction h with
  | nil => simp
  | one _ ih => exact forall_mem_append.mpr ⟨ih, forall_mem_singleton.mpr ⟨_, .inl rfl⟩⟩
  | two _ ih => exact forall_mem_append.mpr ⟨ih, forall_mem_singleton.mpr ⟨_, .inr rfl⟩⟩

-- The polls before the last reported exactly the subtasks below `d`.
private theorem pairwise_concat {r : List Nat} (h : Reported d rs)
    (ih : rs.Pairwise fun r r' => ∀ a ∈ r, ∀ b ∈ r', a < b) (hr : ∀ b ∈ r, d ≤ b) :
    (rs ++ [r]).Pairwise fun r r' => ∀ a ∈ r, ∀ b ∈ r', a < b := by
  rw [pairwise_append]
  refine ⟨ih, pairwise_singleton _ _, ?_⟩
  intro r' hr' r'' hr'' a ha b hb
  rw [mem_singleton] at hr''
  have hlt : a < d := (h.mem_flatten_iff a).mp (mem_flatten.mpr ⟨r', hr', ha⟩)
  exact lt_of_lt_of_le hlt (hr b (hr'' ▸ hb))

/-- Reports come in order. -/
theorem pairwise (h : Reported d rs) : rs.Pairwise fun r r' => ∀ a ∈ r, ∀ b ∈ r', a < b := by
  induction h with
  | nil => exact List.Pairwise.nil
  | one h ih => exact h.pairwise_concat ih (by simp)
  | two h ih => exact h.pairwise_concat ih (by simp)

end Reported

/-! ## The simulation invariant -/

/-- The dispatches whose register write is done. -/
def regWritten (s : CorePipeline) : Nat :=
  match s.aicpu with
  | .writeReg _ => s.dispatched - 1
  | _ => s.dispatched

/-- The slots of the AICPU: subtask `d` runs and `d + 1` is pending, if they are dispatched. -/
structure Slots (d : Nat) (s : CorePipeline) : Prop where
  le : d ≤ s.dispatched
  le_two : s.dispatched ≤ d + 2
  idle : s.idle = decide (s.dispatched = d)
  running : s.runningSlotState = if d < s.dispatched then some d else none
  runningId : s.runningRegTaskId = if d < s.dispatched then (regIdOf d : Int) else aicpuTaskInvalid
  pending : s.pendingSlotState = if d + 1 < s.dispatched then some (d + 1) else none
  pendingId : s.pendingRegTaskId =
    if d + 1 < s.dispatched then (regIdOf (d + 1) : Int) else aicpuTaskInvalid
  payload : ∀ n, d ≤ n → n < s.dispatched → s.payload (regIdOf n &&& 1) = some n

/-- Where the AICPU thread is; a sample is a value that `COND` had since the last report. -/
def AicpuOk (w d : Nat) (s : CorePipeline) : Prop :=
  match s.aicpu with
  | .rest => True
  | .writeReg id => 0 < s.dispatched ∧ id = regIdOf (s.dispatched - 1)
  | .sampled v => d < s.dispatched ∧ ∃ w', 2 * d ≤ w' ∧ w' ≤ w ∧ v = condValue w'

/-- Where the core is, after `w` writes to `COND`. -/
def CoreOk (w : Nat) (s : CorePipeline) : Prop :=
  match s.core with
  | .wait => w % 2 = 0 ∧ s.lastRegVal = baseValue (w / 2)
  | .ack id => w % 2 = 0 ∧ id = regIdOf (w / 2) ∧ w / 2 < s.regWritten
  | .exec id => w % 2 = 1 ∧ id = regIdOf (w / 2)
  | .fin id x => w % 2 = 1 ∧ id = regIdOf (w / 2) ∧ x = some (w / 2)

/-- `w` counts the core's writes to `COND`, `d` the subtasks reported. -/
structure Inv (w d : Nat) (s : CorePipeline) : Prop where
  seq : s.dispatchSeq = seqAfter s.dispatched
  reported_le : 2 * d ≤ w
  le_written : w ≤ 2 * s.regWritten
  -- nothing is dispatched over an id that the core has not picked up
  written_le : s.regWritten ≤ (w + 1) / 2 + 1
  picked : s.dispatched = d + 2 → 2 * d < w
  -- a cleared `pending_occupied` says that the ACK of the running subtask was seen
  released : d < s.dispatched → s.regWritten = s.dispatched → s.pendingOccupied = false →
    s.dispatched = d + 1 ∧ 2 * d < w
  slots : Slots d s
  base : s.dataMainBase = baseValue s.regWritten
  cond : s.cond = condValue w
  aicpu : AicpuOk w d s
  core : CoreOk w s
  finished : s.finished = (range (w / 2)).map some
  reports : Reported d s.reports

theorem regWritten_le (s : CorePipeline) : s.regWritten ≤ s.dispatched := by
  unfold regWritten
  split
  · exact Nat.sub_le _ _
  · exact le_rfl

theorem regWritten_of_rest (h : s.aicpu = .rest) :
    s.regWritten = s.dispatched := by
  rw [regWritten, h]

-- An older sample stays one.
theorem AicpuOk.mono (h : AicpuOk w d s) (hle : w ≤ w') :
    AicpuOk w' d s := by
  unfold AicpuOk at h ⊢
  split at h
  · trivial
  · exact h
  · obtain ⟨hlt, v, hdv, hvw, heq⟩ := h
    exact ⟨hlt, v, hdv, le_trans hvw hle, heq⟩

theorem CoreOk.mono {s' : CorePipeline} (h : CoreOk w s) (hcore : s'.core = s.core)
    (hlast : s'.lastRegVal = s.lastRegVal) (hreg : s.regWritten ≤ s'.regWritten) : CoreOk w s' := by
  unfold CoreOk at h ⊢
  rw [hcore, hlast]
  split at h
  · exact h
  · exact ⟨h.1, h.2.1, lt_of_lt_of_le h.2.2 hreg⟩
  · exact h
  · exact h

theorem inv_init : Inv 0 0 init where
  seq := rfl
  reported_le := le_rfl
  le_written := le_rfl
  written_le := Nat.zero_le _
  picked := nofun
  released := nofun
  slots := ⟨le_rfl, Nat.zero_le _, rfl, rfl, rfl, rfl, rfl, nofun⟩
  base := rfl
  cond := rfl
  aicpu := trivial
  core := ⟨rfl, rfl⟩
  finished := rfl
  reports := .nil

section Steps

variable {s s' : CorePipeline} {w d : Nat}

/-! ## Steps of the core -/

/-- How far the core is: it goes up by one with each step that is not a spin. -/
def progress (w : Nat) (s : CorePipeline) : Nat :=
  match s.core with
  | .wait => 2 * w
  | .ack _ => 2 * w + 1
  | .exec _ => 2 * w
  | .fin _ _ => 2 * w + 1

/-- A step of the core keeps the invariant of the AICPU's side; `w` may go up. -/
theorem Inv.of_core {pc : CorePc} {l : Nat} {xs : List (Option Nat)} (h : Inv w d s)
    (hs' : s' = { s with core := pc, cond := v, lastRegVal := l, finished := xs }) (hle : w ≤ w')
    (hwritten : w' ≤ 2 * s.regWritten) (hcond : v = condValue w') (hcore : CoreOk w' s')
    (hfin : xs = (range (w' / 2)).map some) : Inv w' d s' := by
  subst hs'
  have hbound := h.written_le
  exact { h with
    reported_le := le_trans h.reported_le hle
    le_written := hwritten
    written_le := show s.regWritten ≤ _ by omega
    picked := fun hd => lt_of_lt_of_le (h.picked hd) hle
    released := fun hd hw ho =>
      ⟨(h.released hd hw ho).1, lt_of_lt_of_le (h.released hd hw ho).2 hle⟩
    slots := { h.slots with }
    cond := hcond
    core := hcore
    finished := hfin
    aicpu := h.aicpu.mono hle }

/-- The core finds at most one new id: it has picked up all but the last. -/
theorem Inv.base_of_wait (h : Inv w d s) (heven : w % 2 = 0) :
    s.regWritten = w / 2 ∨ s.regWritten = w / 2 + 1 := by
  have h₁ := h.le_written
  have h₂ := h.written_le
  omega

/-- **Core step.** The core runs the subtasks in dispatch order, each with its own payload, and
goes on as long as there is one that it has not finished. -/
theorem Inv.coreStep (h : Inv w d s) :
    ∃ w', Inv w' d s.coreStep ∧
      (w < 2 * s.regWritten → progress w' s.coreStep = progress w s + 1) := by
  have hcore := h.core
  unfold CoreOk at hcore
  split at hcore
  case h_1 hpc =>
    obtain ⟨heven, hlast⟩ := hcore
    by_cases hnew : s.regWritten = w / 2
    · -- nothing new: the register still holds the id that was executed last
      have hspin : s.coreStep = s := by
        simp only [CorePipeline.coreStep, hpc, h.base, hnew, hlast, or_true, if_true]
      rw [hspin]
      exact ⟨w, h, fun hlt => by omega⟩
    · have hw : s.regWritten = w / 2 + 1 := (h.base_of_wait heven).resolve_left hnew
      have hstep : s.coreStep = { s with core := .ack (regIdOf (w / 2)) } := by
        have hbase : s.dataMainBase = regIdOf (w / 2) := by rw [h.base, hw, baseValue]
        have hne : ¬ (s.dataMainBase = aicpuIdleTaskId ∨ s.dataMainBase = s.lastRegVal) := by
          rw [h.base, hw, hlast]
          exact not_or.mpr ⟨baseValue_ne_idle _, baseValue_succ_ne _⟩
        simp only [CorePipeline.coreStep, hpc, if_neg hne]
        rw [hbase]
      refine ⟨w, h.of_core hstep (le_refl w) h.le_written h.cond ?_ h.finished, ?_⟩
      · rw [hstep]
        refine ⟨heven, rfl, ?_⟩
        show w / 2 < s.regWritten
        omega
      · intro _
        simp only [hstep, progress, hpc]
  case h_2 id hpc =>
    obtain ⟨heven, rfl, hlt⟩ := hcore
    have hstep : s.coreStep =
        { s with cond := makeAckValue (regIdOf (w / 2)), core := .exec (regIdOf (w / 2)) } := by
      simp only [CorePipeline.coreStep, hpc]
    have hdouble : 2 * (w / 2) = w := by omega
    have hnext : (w + 1) / 2 = w / 2 := by omega
    refine ⟨w + 1, h.of_core hstep (by omega) (by omega) ?_ ?_ (hnext ▸ h.finished), ?_⟩
    · rw [← condValue_ack, hdouble]
    · rw [hstep]
      exact ⟨by omega, by rw [hnext]⟩
    · intro _
      simp only [hstep, progress, hpc]
      omega
  case h_3 id hpc =>
    obtain ⟨hodd, rfl⟩ := hcore
    -- the subtask is not reported before its FIN, so its payload is still there
    have hpayload : s.payload (regIdOf (w / 2) &&& 1) = some (w / 2) := by
      have h₁ := h.reported_le
      have h₂ := h.le_written
      have h₃ := s.regWritten_le
      exact h.slots.payload (w / 2) (by omega) (by omega)
    have hstep : s.coreStep = { s with core := .fin (regIdOf (w / 2)) (some (w / 2)) } := by
      simp only [CorePipeline.coreStep, hpc, hpayload]
    refine ⟨w, h.of_core hstep (le_refl w) h.le_written h.cond ?_ h.finished, ?_⟩
    · rw [hstep]
      exact ⟨hodd, rfl, rfl⟩
    · intro _
      simp only [hstep, progress, hpc]
  case h_4 id x hpc =>
    obtain ⟨hodd, rfl, rfl⟩ := hcore
    have hstep : s.coreStep =
        { s with lastRegVal := regIdOf (w / 2), cond := makeFinValue (regIdOf (w / 2)),
                 core := .wait, finished := s.finished ++ [some (w / 2)] } := by
      simp only [CorePipeline.coreStep, hpc]
    have hnext : (w + 1) / 2 = w / 2 + 1 := by omega
    have hbound := h.le_written
    refine ⟨w + 1, h.of_core hstep (by omega) (by omega) ?_ ?_ ?_, ?_⟩
    · rw [← condValue_fin, show 2 * (w / 2) + 2 = w + 1 by omega]
    · rw [hstep]
      exact ⟨by omega, by rw [hnext]; rfl⟩
    · rw [hnext, range_succ, map_append, ← h.finished]
      rfl
    · intro _
      simp only [hstep, progress, hpc]
      omega

/-! ## Dispatch -/

/-- An idle core has finished everything. -/
theorem Inv.idle_iff (h : Inv w d s) : s.idle = true ↔ s.dispatched = d := by
  rw [h.slots.idle, decide_eq_true_eq]

/-- A task to an idle core. -/
theorem Slots.dispatch_running (h : Slots d s) (hd : s.dispatched = d)
    (hid : regTaskId (nextSeq s.dispatchSeq) = regIdOf s.dispatched) :
    Slots d (s.dispatch false) := by
  subst hd
  refine ⟨Nat.le_succ _, Nat.le_succ _, ?_, ?_, ?_, ?_, ?_, ?_⟩
  · show (!s.idle) = decide (s.dispatched + 1 = s.dispatched)
    rw [h.idle]
    simp
  · exact (if_pos (Nat.lt_succ_self s.dispatched)).symm
  · show ((regTaskId (nextSeq s.dispatchSeq) : Nat) : Int) = if _ < s.dispatched + 1 then _ else _
    rw [hid, if_pos (Nat.lt_succ_self s.dispatched)]
  · show s.pendingSlotState = if s.dispatched + 1 < s.dispatched + 1 then _ else none
    rw [h.pending, if_neg (by omega), if_neg (by omega)]
  · show s.pendingRegTaskId = if s.dispatched + 1 < s.dispatched + 1 then _ else _
    rw [h.pendingId, if_neg (by omega), if_neg (by omega)]
  · intro n hle hlt
    obtain rfl : n = s.dispatched := le_antisymm (Nat.lt_succ_iff.mp hlt) hle
    show update s.payload (regTaskId (nextSeq s.dispatchSeq) &&& 1) _ _ = _
    rw [hid, update_self]

/-- A task behind the running one. -/
theorem Slots.dispatch_pending (h : Slots d s) (hd : s.dispatched = d + 1)
    (hid : regTaskId (nextSeq s.dispatchSeq) = regIdOf s.dispatched) :
    Slots d (s.dispatch true) := by
  refine ⟨?_, ?_, ?_, ?_, ?_, ?_, ?_, ?_⟩
  · exact Nat.le_succ_of_le h.le
  · show s.dispatched + 1 ≤ d + 2
    omega
  · show s.idle = decide (s.dispatched + 1 = d)
    rw [h.idle, hd]
    simp
    omega
  · show s.runningSlotState = if d < s.dispatched + 1 then some d else none
    rw [h.running, if_pos (by omega), if_pos (by omega)]
  · show s.runningRegTaskId = if d < s.dispatched + 1 then _ else _
    rw [h.runningId, if_pos (by omega), if_pos (by omega)]
  · show some s.dispatched = if d + 1 < s.dispatched + 1 then some (d + 1) else none
    rw [hd, if_pos (Nat.lt_succ_self _)]
  · show ((regTaskId (nextSeq s.dispatchSeq) : Nat) : Int) =
        if d + 1 < s.dispatched + 1 then _ else _
    rw [hid, hd, if_pos (Nat.lt_succ_self _)]
  · -- the new payload goes into the buffer that the running subtask does not use
    intro n hle hlt
    have hlt' : n < s.dispatched + 1 := hlt
    show update s.payload (regTaskId (nextSeq s.dispatchSeq) &&& 1) _ _ = _
    rw [hid, hd]
    by_cases hn : n = d + 1
    · rw [hn, update_self]
    · obtain rfl : n = d := by omega
      rw [update_of_ne (regIdOf_buffer_ne n).symm]
      exact h.payload n hle (by omega)

/-- **Dispatch.** To the running slot of an idle core, which has nothing left to report, or to the
pending slot of a core that has picked up the running subtask. -/
theorem Inv.dispatch {toPending : Bool} (h : Inv w d s) (hrest : s.aicpu = .rest)
    (hok : s.dispatchable toPending = true) : Inv w d (s.dispatch toPending) := by
  have hreg : s.regWritten = s.dispatched := regWritten_of_rest hrest
  have hid : regTaskId (nextSeq s.dispatchSeq) = regIdOf s.dispatched := by
    rw [h.seq, regIdOf, seqAfter]
  obtain ⟨hslots, hpick⟩ : Slots d (s.dispatch toPending) ∧ (s.dispatched = d + 1 → 2 * d < w) := by
    cases toPending with
    | false =>
      have hd : s.dispatched = d := h.idle_iff.mp hok
      exact ⟨h.slots.dispatch_running hd hid, by omega⟩
    | true =>
      rw [dispatchable, if_pos rfl, Bool.and_eq_true, Bool.not_eq_true', Bool.not_eq_true'] at hok
      have hlt : d < s.dispatched := by
        refine Nat.lt_of_le_of_ne h.slots.le ?_
        intro hd
        rw [h.idle_iff.mpr hd.symm] at hok
        exact absurd hok.1 (by decide)
      obtain ⟨hd, hpick⟩ := h.released hlt hreg hok.2
      exact ⟨h.slots.dispatch_pending hd hid, fun _ => hpick⟩
  -- the register is not written yet
  obtain ⟨hreg', hpc⟩ : (s.dispatch toPending).regWritten = s.regWritten ∧
      AicpuOk w d (s.dispatch toPending) := by
    cases toPending <;> exact ⟨hreg.symm, Nat.succ_pos _, hid⟩
  have hcore : CoreOk w (s.dispatch toPending) :=
    h.core.mono (by cases toPending <;> rfl) (by cases toPending <;> rfl) (le_of_eq hreg'.symm)
  have hseq : nextSeq s.dispatchSeq = seqAfter (s.dispatched + 1) := by
    rw [h.seq, seqAfter]
  have hunwritten : s.regWritten ≠ s.dispatched + 1 := by omega
  cases toPending <;> exact { h with
    seq := hseq
    le_written := hreg' ▸ h.le_written
    written_le := hreg' ▸ h.written_le
    picked := fun htwo => hpick (Nat.succ.inj htwo)
    released := fun _ hwritten => absurd (hreg'.symm.trans hwritten) hunwritten
    slots := hslots
    base := hreg' ▸ h.base
    aicpu := hpc
    core := hcore }

/-- **The register write.** It replaces an id that the core has picked up. -/
theorem Inv.writeReg (h : Inv w d s) (hpc : s.aicpu = .writeReg id) :
    Inv w d { s with dataMainBase := id, pendingOccupied := true, aicpu := .rest } := by
  have haicpu := h.aicpu
  rw [AicpuOk, hpc] at haicpu
  obtain ⟨hpos, rfl⟩ := haicpu
  have hreg : s.regWritten = s.dispatched - 1 := by
    rw [regWritten, hpc]
  have hle := h.le_written
  have hrep := h.reported_le
  have htwo := h.slots.le_two
  refine { h with
    le_written := show w ≤ 2 * s.dispatched by omega
    written_le := ?_, released := nofun, slots := { h.slots with }, base := ?_, aicpu := trivial
    core := h.core.mono rfl rfl s.regWritten_le }
  · show s.dispatched ≤ (w + 1) / 2 + 1
    rcases lt_or_ge s.dispatched (d + 2) with hlt | hge
    · omega
    · have hpick := h.picked (le_antisymm htwo hge)
      omega
  · show regIdOf (s.dispatched - 1) = baseValue s.dispatched
    obtain ⟨n, hn⟩ := Nat.exists_eq_succ_of_ne_zero (ne_of_gt hpos)
    rw [hn]
    rfl

/-! ## Poll -/

theorem Inv.poll (h : Inv w d s) (hrest : s.aicpu = .rest) (hrunning : s.idle = false) :
    Inv w d { s with aicpu := .sampled s.cond } := by
  have hreg : s.regWritten = s.dispatched := regWritten_of_rest hrest
  have hlt : d < s.dispatched := by
    refine Nat.lt_of_le_of_ne h.slots.le ?_
    intro hd
    rw [h.idle_iff.mpr hd.symm] at hrunning
    cases hrunning
  exact { h with
    le_written := hreg ▸ h.le_written
    written_le := hreg ▸ h.written_le
    released := fun hd _ hocc => h.released hd hreg hocc
    slots := { h.slots with }
    base := hreg ▸ h.base
    aicpu := ⟨hlt, w, h.reported_le, le_refl w, h.cond⟩
    core := h.core.mono rfl rfl (le_of_eq hreg) }

/-- A poll changes what the AICPU has of the core; `d'` subtasks are reported after it. -/
theorem Inv.polled {d' : Nat} {run pend : Option Nat} {runId pendId : Int} {idle occ : Bool}
    {rs : List (List Nat)} (h : Inv w d s) (hpc : s.aicpu = .sampled v) (hs' : s' = { s with
      runningSlotState := run, runningRegTaskId := runId, pendingSlotState := pend
      pendingRegTaskId := pendId, idle := idle, pendingOccupied := occ, reports := rs
      aicpu := .rest }) (hle : 2 * d' ≤ w) (hpicked : s.dispatched = d' + 2 → 2 * d' < w)
    (hreleased : d' < s.dispatched → occ = false → s.dispatched = d' + 1 ∧ 2 * d' < w)
    (hslots : Slots d' s') (hreports : Reported d' rs) : Inv w d' s' := by
  subst hs'
  have hreg : s.regWritten = s.dispatched := by
    rw [regWritten, hpc]
  exact { h with
    reported_le := hle
    le_written := hreg ▸ h.le_written
    written_le := hreg ▸ h.written_le
    picked := hpicked
    released := fun hd _ hocc => hreleased hd hocc
    slots := hslots
    base := hreg ▸ h.base
    aicpu := trivial
    core := h.core.mono rfl rfl (le_of_eq hreg)
    reports := hreports }

-- The cases of `decide_slot_transition`, by the value sampled.

theorem regIdOf_ne_invalid (n : Nat) : (regIdOf n : Int) ≠ aicpuTaskInvalid := by
  unfold aicpuTaskInvalid
  omega

theorem regIdOf_cast_ne (n : Nat) : (regIdOf n : Int) ≠ regIdOf (n + 1) :=
  fun h => regIdOf_succ_ne n (Int.ofNat.inj h).symm

theorem Slots.runningId_eq (h : Slots d s) (hlt : d < s.dispatched) :
    s.runningSlotState = some d ∧ s.runningRegTaskId = regIdOf d := by
  rw [h.running, h.runningId, if_pos hlt, if_pos hlt]
  exact ⟨rfl, rfl⟩

theorem Slots.pendingId_eq (h : Slots d s) (hd : s.dispatched = d + 2) :
    s.pendingSlotState = some (d + 1) ∧ s.pendingRegTaskId = regIdOf (d + 1) := by
  rw [h.pending, h.pendingId, if_pos (by omega), if_pos (by omega)]
  exact ⟨rfl, rfl⟩

theorem Slots.pendingId_none (h : Slots d s) (hd : s.dispatched = d + 1) :
    s.pendingSlotState = none ∧ s.pendingRegTaskId = aicpuTaskInvalid := by
  rw [h.pending, h.pendingId, if_neg (by omega), if_neg (by omega)]
  exact ⟨rfl, rfl⟩

theorem Slots.pendingId_cases (h : Slots d s) :
    s.pendingRegTaskId = aicpuTaskInvalid ∨ s.pendingRegTaskId = regIdOf (d + 1) := by
  rw [h.pendingId]
  split
  · exact .inr rfl
  · exact .inl rfl

-- The FIN of the subtask before.
/-- An old value changes nothing. -/
theorem Slots.apply_stale (h : Slots d s) (hlt : d < s.dispatched) :
    applyTransition (condValue (2 * d)) s = s := by
  obtain ⟨hne, hne'⟩ := extractTaskId_condValue_ne d
  have hrun := (h.runningId_eq hlt).2
  have hcast : (extractTaskId (condValue (2 * d)) : Int) ≠ regIdOf d := fun h =>
    hne (Int.ofNat.inj h)
  have hcast' : (extractTaskId (condValue (2 * d)) : Int) ≠ regIdOf (d + 1) :=
    fun h => hne' (Int.ofNat.inj h)
  rcases h.pendingId_cases with hp | hp
  · simp [applyTransition, decideSlotTransition, hrun, hp, hcast]
  · simp [applyTransition, decideSlotTransition, hrun, hp, hcast, hcast']

-- Case 4.
/-- The running task is picked up. -/
theorem Slots.apply_ack (h : Slots d s) (hlt : d < s.dispatched) :
    applyTransition (condValue (2 * d + 1)) s =
      if s.dispatched = d + 1 then { s with pendingOccupied := false } else s := by
  have hid := regIdOf_lt_pow d
  have hrun := (h.runningId_eq hlt).2
  have hinv := regIdOf_ne_invalid d
  rw [condValue_ack]
  by_cases hd : s.dispatched = d + 1
  · have hp := (h.pendingId_none hd).2
    simp [applyTransition, decideSlotTransition, complete, completed, updateSlots, updateTracker,
      extractTaskId_ack hid, extractTaskState_ack hid, hrun, hp, hinv, hd]
  · have hp := (h.pendingId_eq (by have := h.le_two; omega)).2
    have hne := regIdOf_cast_ne d
    have hinv' := regIdOf_ne_invalid (d + 1)
    simp [applyTransition, decideSlotTransition, complete, completed, updateSlots, updateTracker,
      extractTaskId_ack hid, extractTaskState_ack hid, hrun, hp, hinv, hinv', hne, hd]

-- Case 3.2.
/-- The only task is done. -/
theorem Slots.apply_fin (h : Slots d s) (hd : s.dispatched = d + 1) :
    applyTransition (condValue (2 * d + 2)) s =
      { s with reports := s.reports ++ [[d]], runningSlotState := none
               runningRegTaskId := aicpuTaskInvalid, idle := !s.idle,
                 pendingOccupied := false } := by
  have hid := regIdOf_lt_pow d
  obtain ⟨hslot, hrun⟩ := h.runningId_eq (by omega)
  obtain ⟨hpslot, hp⟩ := h.pendingId_none hd
  rw [condValue_fin]
  simp [applyTransition, decideSlotTransition, complete, completed, updateSlots, updateTracker,
    clearRunningSlot, extractTaskId_fin hid, extractTaskState_fin hid, hslot, hrun, hpslot, hp]

-- Case 3.1.
/-- The running task is done. -/
theorem Slots.apply_fin_skip (h : Slots d s) (hd : s.dispatched = d + 2) :
    applyTransition (condValue (2 * d + 2)) s = s := by
  have hid := regIdOf_lt_pow d
  have hrun := (h.runningId_eq (by omega)).2
  have hp := (h.pendingId_eq hd).2
  have hinv := regIdOf_ne_invalid (d + 1)
  have hne := regIdOf_cast_ne d
  rw [condValue_fin]
  simp [applyTransition, decideSlotTransition, extractTaskId_fin hid, extractTaskState_fin hid,
    hrun, hp, hinv, hne]

-- Case 2.
/-- The pending one runs: both advance. -/
theorem Slots.apply_ack_pending (h : Slots d s) (hd : s.dispatched = d + 2) :
    applyTransition (condValue (2 * d + 3)) s =
      { s with reports := s.reports ++ [[d]], runningSlotState := some (d + 1)
               runningRegTaskId := regIdOf (d + 1), pendingSlotState := none
               pendingRegTaskId := aicpuTaskInvalid, pendingOccupied := false } := by
  have hid := regIdOf_lt_pow (d + 1)
  obtain ⟨hslot, hrun⟩ := h.runningId_eq (by omega)
  obtain ⟨hpslot, hp⟩ := h.pendingId_eq hd
  have hinv := regIdOf_ne_invalid (d + 1)
  rw [show 2 * d + 3 = 2 * (d + 1) + 1 by omega, condValue_ack]
  simp [applyTransition, decideSlotTransition, complete, completed, updateSlots, updateTracker,
    promotePendingToRunning, extractTaskId_ack hid, extractTaskState_ack hid, hslot,
      hpslot, hp, hinv]

-- Case 1.
/-- Both are done. -/
theorem Slots.apply_fin_pending (h : Slots d s) (hd : s.dispatched = d + 2) :
    applyTransition (condValue (2 * d + 4)) s =
      { s with reports := s.reports ++ [[d + 1, d]], runningSlotState := none
               runningRegTaskId := aicpuTaskInvalid, pendingSlotState := none
               pendingRegTaskId := aicpuTaskInvalid, idle := !s.idle,
                 pendingOccupied := false } := by
  have hid := regIdOf_lt_pow (d + 1)
  obtain ⟨hslot, hrun⟩ := h.runningId_eq (by omega)
  obtain ⟨hpslot, hp⟩ := h.pendingId_eq hd
  have hinv := regIdOf_ne_invalid (d + 1)
  rw [show 2 * d + 4 = 2 * (d + 1) + 2 by omega, condValue_fin]
  simp [applyTransition, decideSlotTransition, complete, completed, updateSlots, updateTracker,
    clearRunningSlot, extractTaskId_fin hid, extractTaskState_fin hid, hslot, hpslot, hp, hinv]

/-- Slots of a core with nothing left to report. -/
theorem slots_empty (hd : s.dispatched = d) (hidle : s.idle = true)
    (hrun : s.runningSlotState = none) (hrunId : s.runningRegTaskId = aicpuTaskInvalid)
    (hpend : s.pendingSlotState = none) (hpendId : s.pendingRegTaskId = aicpuTaskInvalid) :
    Slots d s := by
  subst hd
  have hlt : ¬ s.dispatched + 1 < s.dispatched := by omega
  exact ⟨le_refl _, Nat.le_add_right _ _, hidle.trans (decide_eq_true rfl).symm,
    hrun.trans (if_neg (lt_irrefl _)).symm, hrunId.trans (if_neg (lt_irrefl _)).symm,
    hpend.trans (if_neg hlt).symm, hpendId.trans (if_neg hlt).symm, by omega⟩

theorem Slots.not_idle (h : Slots d s) (hlt : d < s.dispatched) : s.idle = false := by
  rw [h.idle]
  exact decide_eq_false (ne_of_gt hlt)

-- After case 2 the pending subtask is the running one.
theorem Slots.promote (h : Slots d s) (hd : s.dispatched = d + 2) {rs : List (List Nat)} :
    Slots (d + 1) { s with
      reports := rs, runningSlotState := some (d + 1), runningRegTaskId := regIdOf (d + 1)
      pendingSlotState := none, pendingRegTaskId := aicpuTaskInvalid, pendingOccupied := false
      aicpu := .rest } := by
  have hlt : d + 1 < s.dispatched := by omega
  have hnlt : ¬ d + 1 + 1 < s.dispatched := by omega
  refine ⟨le_of_lt hlt, le_of_eq hd |>.trans (Nat.le_succ _), ?_, (if_pos hlt).symm,
    (if_pos hlt).symm, (if_neg hnlt).symm, (if_neg hnlt).symm, ?_⟩
  · exact (h.not_idle (by omega)).trans (decide_eq_false (ne_of_gt hlt)).symm
  · intro n hle hlt
    exact h.payload n (by omega) hlt

/-- **What follows from a sample.** Of the running and the pending subtask those are reported of
which the sample shows that they are done; all, if it is the last value that the core will write. -/
theorem Inv.apply (h : Inv w d s) (hpc : s.aicpu = .sampled (condValue w')) (hlt : d < s.dispatched)
    (hlo : 2 * d ≤ w') (hhi : w' ≤ w) :
    ∃ d', Inv w d' { applyTransition (condValue w') s with aicpu := .rest } ∧
      (w' = 2 * s.dispatched → d' = s.dispatched) := by
  have hreg : s.regWritten = s.dispatched := by
    rw [regWritten, hpc]
  have hw := h.le_written
  have htwo := h.slots.le_two
  -- nothing follows from the sample
  have hskip : applyTransition (condValue w') s = s → w' ≠ 2 * s.dispatched →
      ∃ d', Inv w d' { applyTransition (condValue w') s with aicpu := .rest } ∧
        (w' = 2 * s.dispatched → d' = s.dispatched) := by
    intro happly hne
    rw [happly]
    refine ⟨d, ?_, fun heq => absurd heq hne⟩
    exact h.polled hpc rfl h.reported_le h.picked (fun hd hocc => h.released hd hreg hocc)
      { h.slots with } h.reports
  obtain hv | hv | hv | hv | hv : w' = 2 * d ∨ w' = 2 * d + 1 ∨ w' = 2 * d + 2 ∨ w' = 2 * d + 3 ∨
      w' = 2 * d + 4 := by omega
  · exact hskip (hv ▸ h.slots.apply_stale hlt) (by omega)
  · by_cases hd : s.dispatched = d + 1
    · refine ⟨d, ?_, by omega⟩
      rw [hv, h.slots.apply_ack hlt, if_pos hd]
      exact h.polled hpc rfl h.reported_le h.picked (fun _ _ => ⟨hd, by omega⟩)
        { h.slots with } h.reports
    · refine hskip ?_ (by omega)
      rw [hv, h.slots.apply_ack hlt, if_neg hd]
  · by_cases hd : s.dispatched = d + 1
    · refine ⟨d + 1, ?_, fun _ => hd.symm⟩
      rw [hv, h.slots.apply_fin hd]
      refine h.polled hpc rfl (by omega) (by omega) (by omega) ?_ h.reports.one
      obtain ⟨hp, hpid⟩ := h.slots.pendingId_none hd
      refine slots_empty hd ?_ rfl rfl hp hpid
      show (!s.idle) = true
      rw [h.slots.not_idle hlt]
      rfl
    · exact hskip (hv ▸ h.slots.apply_fin_skip (by omega)) (by omega)
  · have hd : s.dispatched = d + 2 := by omega
    refine ⟨d + 1, ?_, by omega⟩
    rw [hv, h.slots.apply_ack_pending hd]
    exact h.polled hpc rfl (by omega) (by omega) (fun _ _ => ⟨hd, by omega⟩) (h.slots.promote hd)
      h.reports.one
  · have hd : s.dispatched = d + 2 := by omega
    refine ⟨d + 2, ?_, fun _ => hd.symm⟩
    rw [hv, h.slots.apply_fin_pending hd]
    refine h.polled hpc rfl (by omega) (by omega) (by omega) ?_ h.reports.two
    refine slots_empty hd ?_ rfl rfl rfl rfl
    show (!s.idle) = true
    rw [h.slots.not_idle hlt]
    rfl

theorem Inv.reassign (h : Inv w d s) : Inv w d { s with pendingOccupied := !s.idle } := by
  refine { h with slots := { h.slots with }, released := ?_ }
  intro hd _ hocc
  have hidle : (!s.idle) = false := hocc
  rw [h.slots.not_idle hd] at hidle
  cases hidle

end Steps

/-! ## Runs -/

/-- One step of the core or its thread. -/
theorem Inv.step {s' : CorePipeline} {a : Act} (h : Inv w d s) (hst : s.step a = some s') :
    ∃ w' d', Inv w' d' s' := by
  cases a with
  | dispatch toPending =>
    obtain ⟨⟨hrest, hok⟩, hs'⟩ := ite_none_right_eq_some.mp hst
    exact ⟨w, d, some.inj hs' ▸ h.dispatch hrest hok⟩
  | poll =>
    obtain ⟨⟨hrest, hrun⟩, hs'⟩ := ite_none_right_eq_some.mp hst
    exact ⟨w, d, some.inj hs' ▸ h.poll hrest hrun⟩
  | reassign =>
    obtain ⟨-, hs'⟩ := ite_none_right_eq_some.mp hst
    exact ⟨w, d, some.inj hs' ▸ h.reassign⟩
  | aicpu =>
    cases hpc : s.aicpu with
    | rest => simp only [CorePipeline.step, aicpuStep, hpc, reduceCtorEq] at hst
    | writeReg id =>
      exact ⟨w, d, some.inj ((step_writeReg hpc).symm.trans hst) ▸ h.writeReg hpc⟩
    | sampled v =>
      have haicpu := h.aicpu
      rw [AicpuOk, hpc] at haicpu
      obtain ⟨hlt, w', hlo, hhi, rfl⟩ := haicpu
      obtain ⟨d', h', -⟩ := h.apply hpc hlt hlo hhi
      exact ⟨w, d', some.inj ((step_sampled hpc).symm.trans hst) ▸ h'⟩
  | core =>
    obtain ⟨w', h', -⟩ := h.coreStep
    exact ⟨w', d, some.inj hst ▸ h'⟩

section Progress

variable {s : CorePipeline} {w d : Nat}

end Progress

/-! ## Every subtask is completed once -/

/-- Subtask `n` is in one of the slots, and the payload buffer of its register id is its own. -/
def Held (s : CorePipeline) (n : Nat) : Prop :=
  ∃ id : Nat, (s.runningSlotState = some n ∧ s.runningRegTaskId = id ∨
    s.pendingSlotState = some n ∧ s.pendingRegTaskId = id) ∧ s.payload (id &&& 1) = some n

theorem Inv.held {n : Nat} (h : Inv w d s) (hle : d ≤ n) (hlt : n < s.dispatched) : s.Held n := by
  have htwo := h.slots.le_two
  refine ⟨regIdOf n, ?_, h.slots.payload n hle hlt⟩
  rcases Nat.eq_or_lt_of_le hle with rfl | hgt
  · exact .inl (h.slots.runningId_eq hlt)
  · obtain rfl : n = d + 1 := by omega
    exact .inr (h.slots.pendingId_eq (by omega))

end CorePipeline

end PtoRuntime.Tmrb
