import PtoRuntime.Tmrb.TensorMap

/-!
# Submissions and the tensor map

The orchestrator's side of a submission: an id is taken from the ring, the tensor map is
synchronised, the producers are collected into the fanin builder, and the outputs are
registered. The watermarks of the rings are advanced by the schedulers at any time, past any
number of ids that have been taken.

`submit_task` and `submit_dummy_task` are the same here. `alloc_tensors` takes an id and does
nothing with the tensor map, the synchronisation included.
-/

namespace PtoRuntime.Tmrb

open Function

/-- What `submit_task_common` reads of its arguments. -/
structure Submission where
  args : Arg Tensor
  explicitDeps : List TaskId
  manualScope : Bool

/-- Where the orchestrator is inside `submit_task_common`. -/
inductive SubmitPc
  | idle
  | allocated (t : TaskId) (sub : Submission)   -- `sync_tensormap` is next
  | synced (t : TaskId) (sub : Submission)

/-- An entry freed by `cleanup_retired`: its producer, and the ring and watermark of the call. -/
structure Freed where
  producer : TaskId
  ring : Nat
  lastTaskAlive : Nat

structure Orchestrator where
  map : TensorMap
  currentTaskIndex : Nat → Nat
  lastTaskAlive : Nat → Nat
  pc : SubmitPc
  fatal : Bool
  -- history
  fanin : TaskId → List SlotRef   -- the fanin list of a task
  cleaned : List Freed

namespace Orchestrator

def init : Orchestrator where
  map := .init
  currentTaskIndex _ := 0
  lastTaskAlive _ := 0
  pc := .idle
  fatal := false
  fanin _ := []
  cleaned := []

variable (c : Config)

/-- The fanin builder, with the number of producers there is still space for. -/
structure FaninBuilder where
  slots : List SlotRef
  space : Nat

/-- `append_fanin_or_fail`. -/
def appendFanin (b : FaninBuilder) (p : TaskId) : Option FaninBuilder :=
  if c.slot p ∈ b.slots then some b
  else if b.space = 0 then none
  else some ⟨b.slots ++ [c.slot p], b.space - 1⟩

/-- The explicit dependencies: retired tasks are skipped. -/
def explicitFanin (s : Orchestrator) : List TaskId → FaninBuilder → Option FaninBuilder
  | [], b => some b
  | p :: deps, b =>
    if p.loc < s.lastTaskAlive p.ring then s.explicitFanin deps b
    else (appendFanin c b p).bind (s.explicitFanin deps)

/-- `alloc` succeeds for ring `r`. -/
def CanAlloc (s : Orchestrator) (r : Nat) : Prop :=
  s.currentTaskIndex r - s.lastTaskAlive r + 1 < (c r).windowSize

instance (s : Orchestrator) (r : Nat) : Decidable (s.CanAlloc c r) :=
  inferInstanceAs (Decidable (_ < _))

def takeId (s : Orchestrator) (r : Nat) (pc : SubmitPc) : Orchestrator :=
  { s with
    currentTaskIndex := update s.currentTaskIndex r (s.currentTaskIndex r + 1)
    pc := pc }

/-- STEP 2: the watermark is loaded and the map synchronised. -/
def sync (s : Orchestrator) (t : TaskId) (sub : Submission) : Orchestrator :=
  { s with
    map := s.map.syncTensormap c t (s.lastTaskAlive t.ring)
    pc := .synced t sub
    cleaned := (s.map.syncCleaned c t (s.lastTaskAlive t.ring)).map
      (fun e => ⟨(s.map.entries e).producer, t.ring, s.lastTaskAlive t.ring⟩) ++ s.cleaned }

/-- STEP 3: the producers, with space for `space` of them. -/
def collect (s : Orchestrator) (sub : Submission) (space : Nat) :
    (TensorMap × FaninBuilder) × Bool :=
  match s.explicitFanin c sub.explicitDeps ⟨[], space⟩ with
  | none => ((s.map, ⟨[], 0⟩), false)
  | some b =>
    if sub.manualScope then ((s.map, b), true)
    else TensorMap.computeTaskFanin c (appendFanin c) sub.args.tensors (s.map, b)

/-- STEP 4: the outputs. -/
def register (m : TensorMap) (t : TaskId) (sub : Submission) : Option TensorMap :=
  if sub.manualScope then some m else m.registerTaskOutputs c t sub.args.tensors

/-- STEPS 3 to 6; the submission fails if there is no space for its producers. -/
def finish (s : Orchestrator) (t : TaskId) (sub : Submission) (space : Nat) :
    Option Orchestrator :=
  match s.collect c sub space with
  | ((m, _), false) => some { s with map := m, pc := .idle, fatal := true }
  | ((m, b), true) =>
    (register c m t sub).map fun m' =>
      { s with map := m', pc := .idle, fanin := update s.fanin t b.slots }

inductive Act
  | submit (ring : Nat) (sub : Submission)     -- submit_task or submit_dummy_task
  | sync
  | finish (space : Nat)
  | allocTensors (ring : Nat)
  | advance (ring lastTaskAlive : Nat)

/-- Ids of a ring whose submission is not in progress. -/
def submitted (s : Orchestrator) (r : Nat) : Nat :=
  match s.pc with
  | .idle => s.currentTaskIndex r
  | .allocated t _ | .synced t _ => if t.ring = r then t.loc else s.currentTaskIndex r

def step (s : Orchestrator) : Act → Option Orchestrator
  | .submit r sub =>
    match s.pc with
    | .idle =>
      if s.fatal = false ∧ s.CanAlloc c r then
        some (s.takeId r (.allocated ⟨r, s.currentTaskIndex r⟩ sub)) else none
    | _ => none
  | .sync =>
    match s.pc with
    | .allocated t sub => some (s.sync c t sub)
    | _ => none
  | .finish space =>
    match s.pc with
    | .synced t sub => s.finish c t sub space
    | _ => none
  | .allocTensors r =>
    match s.pc with
    | .idle => if s.fatal = false ∧ s.CanAlloc c r then some (s.takeId r .idle) else none
    | _ => none
  | .advance r n =>
    if s.lastTaskAlive r ≤ n ∧ n ≤ s.currentTaskIndex r then
      some { s with lastTaskAlive := update s.lastTaskAlive r n } else none

/-! ## Inversion -/

/-- What a step does, with the facts it was taken under. -/
inductive Move (s : Orchestrator) : Act → Orchestrator → Prop
  | submit (r : Nat) (sub : Submission) : s.pc = .idle → s.CanAlloc c r →
      Move s (.submit r sub) (s.takeId r (.allocated ⟨r, s.currentTaskIndex r⟩ sub))
  | sync (t : TaskId) (sub : Submission) : s.pc = .allocated t sub → Move s .sync (s.sync c t sub)
  | fail (t : TaskId) (sub : Submission) (space : Nat) (m : TensorMap) (b : FaninBuilder) :
      s.pc = .synced t sub → s.collect c sub space = ((m, b), false) →
      Move s (.finish space) { s with map := m, pc := .idle, fatal := true }
  | finish (t : TaskId) (sub : Submission) (space : Nat) (m m' : TensorMap) (b : FaninBuilder) :
      s.pc = .synced t sub → s.collect c sub space = ((m, b), true) →
      register c m t sub = some m' →
      Move s (.finish space)
        { s with map := m', pc := .idle, fanin := update s.fanin t b.slots }
  | allocTensors (r : Nat) : s.pc = .idle → s.CanAlloc c r →
      Move s (.allocTensors r) (s.takeId r .idle)
  | advance (r n : Nat) : s.lastTaskAlive r ≤ n → n ≤ s.currentTaskIndex r →
      Move s (.advance r n) { s with lastTaskAlive := update s.lastTaskAlive r n }

variable {c} {s s' : Orchestrator}

theorem step_cases {act : Act} (h : step c s act = some s') : Move c s act s' := by
  cases act with
  | submit r sub =>
    simp only [step] at h
    split at h
    · rename_i hpc
      obtain ⟨⟨-, halloc⟩, ⟨⟩⟩ := Option.ite_none_right_eq_some.mp h
      exact .submit r sub hpc halloc
    · cases h
  | sync =>
    simp only [step] at h
    split at h
    · rename_i t sub hpc
      cases h
      exact .sync t sub hpc
    · cases h
  | finish space =>
    simp only [step] at h
    split at h
    · rename_i t sub hpc
      unfold Orchestrator.finish at h
      split at h
      · rename_i m b hcollect
        cases h
        exact .fail t sub space m b hpc hcollect
      · rename_i m b hcollect
        obtain ⟨m', hm', rfl⟩ := Option.map_eq_some_iff.mp h
        exact .finish t sub space m m' b hpc hcollect hm'
    · cases h
  | allocTensors r =>
    simp only [step] at h
    split at h
    · rename_i hpc
      obtain ⟨⟨-, halloc⟩, ⟨⟩⟩ := Option.ite_none_right_eq_some.mp h
      exact .allocTensors r hpc halloc
    · cases h
  | advance r n =>
    obtain ⟨⟨hle, hn⟩, ⟨⟩⟩ := Option.ite_none_right_eq_some.mp h
    exact .advance r n hle hn

end Orchestrator

end PtoRuntime.Tmrb
