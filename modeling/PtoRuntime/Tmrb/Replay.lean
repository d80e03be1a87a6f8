import PtoRuntime.Tmrb.TensorMap

/-!
# Offline replay of recorded submissions

`dep_gen_replay_emit_deps_json` runs every recorded submission twice: through `compute_task_fanin`
on one map, which gives the predecessors, and through `annot_pass` on another, which walks the
arguments and the buckets itself, removes covered entries on the way, and keeps an edge with the
tensors for each predecessor. After each record it compares the two sets of predecessors and gives
up with -6 if they differ; then both maps get the outputs.

The window sizes and the pool size are computed from the records before the loop. They are the same
for both maps, and any values will do here.

Main results: `annotLookup_eq`, `annotArg_eq`, `annotPass_eq`, `replay_in_step`.
-/

namespace PtoRuntime.Tmrb

/-- `CORE_MAX_TENSOR_ARGS` -/
def coreMaxTensorArgs : Nat := 16

/-- `DEP_GEN_MAX_EXPLICIT_DEPS` -/
def depGenMaxExplicitDeps : Nat := 16

/-- A `DepGenRecord`. An argument type that is none of the five is treated like `NO_DEP`. -/
structure DepGenRecord where
  taskId : TaskId
  inManualScope : Bool
  tensors : List (TensorArg Tensor)
  explicitDeps : List TaskId

def DepGenRecord.args (r : DepGenRecord) : List (TensorArg Tensor) :=
  r.tensors.take coreMaxTensorArgs

def DepGenRecord.deps (r : DepGenRecord) : List TaskId := r.explicitDeps.take depGenMaxExplicitDeps

/-- Where an edge comes from, with the tensors that `fill_consumer` and `fill_producer` copy. -/
inductive EdgeSource
  | explicit
  | creator (consumer : Tensor)
  | tensormap (consumer : Tensor) (producer : Entry) (overlap : OverlapStatus)

structure EdgeAnnot where
  pred : TaskId
  succ : TaskId
  consumerArgIdx : Int
  source : EdgeSource

namespace Replay

/-- The variables of one record: a map, a set of predecessors and, for the second pass, the
edges. -/
structure Annot where
  map : TensorMap
  preds : List TaskId
  edges : List EdgeAnnot

variable (c : Config)

/-! ## The two passes -/

/-- The callback of the first pass. It never fails. -/
def oracleEmit (preds : List TaskId) (p : TaskId) : Option (List TaskId) := some (preds.insert p)

def oraclePass (r : DepGenRecord) (m : TensorMap) (preds : List TaskId) :
    (TensorMap × List TaskId) × Bool :=
  if r.inManualScope then ((m, preds), true)
  else TensorMap.computeTaskFanin c oracleEmit r.args (m, preds)

/-- An explicit dependency or a creator: one edge for each new predecessor. -/
def emitNew (succ : TaskId) (i : Int) (source : EdgeSource) (p : TaskId) (a : Annot) : Annot :=
  if p ∈ a.preds then a
  else { a with preds := p :: a.preds, edges := a.edges ++ [⟨p, succ, i, source⟩] }

/-- `lookup` on the entries left of a bucket, with the callback of `annot_pass`. -/
def annotLookup (succ : TaskId) (i : Int) (tensor : Tensor) (inout : Bool) :
    List Nat → Annot → Annot
  | [], a => a
  | e :: rest, a =>
    let entry := a.map.entries e
    let status := entry.checkOverlap tensor
    if a.map.entryValid e ∧ tensor.addr = entry.addr ∧ status ≠ .noOverlap then
      annotLookup succ i tensor inout rest
        { map := if inout ∧ status = .covered then a.map.removeEntry c e else a.map
          preds := a.preds.insert entry.producer
          edges := a.edges ++ [⟨entry.producer, succ, i, .tensormap tensor entry status⟩] }
    else annotLookup succ i tensor inout rest a

/-- STEP A of `annot_pass`. -/
def annotCreator (succ : TaskId) (i : Int) (tensor : Tensor) (a : Annot) : Annot :=
  match tensor.owner with
  | some owner => emitNew succ i (.creator tensor) owner a
  | none => a

/-- STEPS A and B of `annot_pass`. -/
def annotAccess (succ : TaskId) (i : Int) (tensor : Tensor) (inout : Bool) (a : Annot) : Annot :=
  let a' := annotCreator succ i tensor a
  if tensor.manualDep then a'
  else annotLookup c succ i tensor inout (a'.map.buckets (TensorMap.hash tensor.addr)) a'

def annotArg (succ : TaskId) (i : Int) (a : Annot) : TensorArg Tensor → Annot
  | .output _ => a
  | .input t => annotAccess c succ i t false a
  | .inout t => annotAccess c succ i t true a
  | .outputExisting t | .noDep t => annotCreator succ i t a

/-- `annot_pass` outside manual scope, from argument `i` on. -/
def annotPass (succ : TaskId) : Int → List (TensorArg Tensor) → Annot → Annot
  | _, [], a => a
  | i, t :: rest, a => annotPass succ (i + 1) rest (annotArg c succ i a t)

/-! ## The loop over the records -/

/-- `insert` into a pool of the given size; a full pool is a failed assertion. -/
def insert (poolSize : Nat) (m : TensorMap) (t : Tensor) (producer : TaskId) : Option TensorMap :=
  match m.freeEntryList with
  | e :: rest =>
    some ({ m with freeEntryList := rest }.linkEntry c e (.copyFromTensor t producer))
  | [] =>
    if m.nextEntryIdx < poolSize then
      some ({ m with nextEntryIdx := m.nextEntryIdx + 1 }.linkEntry c m.nextEntryIdx
        (.copyFromTensor t producer))
    else none

def registerTaskOutputs (poolSize : Nat) (t : TaskId) :
    List (TensorArg Tensor) → TensorMap → Option TensorMap
  | [], m => some m
  | a :: rest, m =>
    match TensorMap.registered? a with
    | some tensor => (insert c poolSize m tensor t).bind (registerTaskOutputs poolSize t rest)
    | none => registerTaskOutputs poolSize t rest m

def register (poolSize : Nat) (r : DepGenRecord) (m : TensorMap) : Option TensorMap :=
  if r.inManualScope then some m else registerTaskOutputs c poolSize r.taskId r.args m

inductive Error
  /-- -4: `compute_task_fanin` has returned false -/
  | fatal
  /-- -6: the sets of predecessors differ -/
  | divergence
  /-- the pool is full -/
  | assertion
  deriving DecidableEq, Repr

structure State where
  oracle : TensorMap
  annot : TensorMap
  oraclePreds : List TaskId
  annotPreds : List TaskId
  edges : List EdgeAnnot

def init : State := ⟨.init, .init, [], [], []⟩

/-- `oracle_preds != annot_preds` for two unordered sets -/
def differ (l l' : List TaskId) : Bool := !(l ⊆ l' ∧ l' ⊆ l)

/-- The body of the loop. -/
def record (poolSize : Nat) (s : State) (r : DepGenRecord) : Except Error State :=
  let explicit := r.deps.foldl (fun preds p => preds.insert p) []
  let a := r.deps.foldl (fun a p => emitNew r.taskId (-1) .explicit p a) ⟨s.annot, [], s.edges⟩
  match oraclePass c r s.oracle explicit with
  | (_, false) => .error .fatal
  | ((oracle, preds), true) =>
    let a := if r.inManualScope then a else annotPass c r.taskId 0 r.args a
    if differ preds a.preds then .error .divergence
    else
      match register c poolSize r oracle, register c poolSize r a.map with
      | some oracle', some annot' => .ok ⟨oracle', annot', preds, a.preds, a.edges⟩
      | _, _ => .error .assertion

def run (poolSize : Nat) (s : State) (records : List DepGenRecord) : Except Error State :=
  records.foldlM (record c poolSize) s

/-! ## One pass is the other -/

variable {c}

theorem preds_emitNew (succ : TaskId) (i : Int) (source : EdgeSource) (p : TaskId) (a : Annot) :
    (emitNew succ i source p a).preds = a.preds.insert p ∧
      (emitNew succ i source p a).map = a.map := by
  unfold emitNew
  split
  · rename_i hp
    exact ⟨(List.insert_of_mem hp).symm, rfl⟩
  · rename_i hp
    exact ⟨(List.insert_of_not_mem hp).symm, rfl⟩

theorem preds_explicit (succ : TaskId) (deps : List TaskId) (a : Annot) :
    (deps.foldl (fun a p => emitNew succ (-1) .explicit p a) a).preds =
        deps.foldl (fun preds p => preds.insert p) a.preds ∧
      (deps.foldl (fun a p => emitNew succ (-1) .explicit p a) a).map = a.map := by
  induction deps generalizing a with
  | nil => exact ⟨rfl, rfl⟩
  | cons p deps ih =>
    obtain ⟨hpreds, hmap⟩ := preds_emitNew succ (-1) .explicit p a
    simp only [List.foldl_cons]
    rw [← hpreds, ← hmap]
    exact ih _

/-- The walk over a bucket. Both walks see the same entries, since they remove the same ones. -/
theorem annotLookup_eq (succ : TaskId) (i : Int) (tensor : Tensor) (inout : Bool)
    (bucket : List Nat) (a : Annot) :
    TensorMap.lookup c oracleEmit tensor inout bucket (a.map, a.preds) =
      (((annotLookup c succ i tensor inout bucket a).map,
        (annotLookup c succ i tensor inout bucket a).preds), true) := by
  induction bucket generalizing a with
  | nil => rfl
  | cons e rest ih =>
    simp only [TensorMap.lookup, annotLookup, oracleEmit]
    split
    · rw [← ih]
    · exact ih a

theorem annotCreator_eq (succ : TaskId) (i : Int) (tensor : Tensor) (a : Annot) :
    TensorMap.emitOwner oracleEmit tensor a.preds = some (annotCreator succ i tensor a).preds ∧
      (annotCreator succ i tensor a).map = a.map := by
  unfold TensorMap.emitOwner annotCreator
  cases tensor.owner with
  | none => exact ⟨rfl, rfl⟩
  | some owner =>
    obtain ⟨hpreds, hmap⟩ := preds_emitNew succ i (.creator tensor) owner a
    exact ⟨congrArg some hpreds.symm, hmap⟩

theorem annotAccess_eq (succ : TaskId) (i : Int) (tensor : Tensor) (inout : Bool) (a : Annot) :
    TensorMap.accessFanin c oracleEmit tensor inout (a.map, a.preds) =
      (((annotAccess c succ i tensor inout a).map,
        (annotAccess c succ i tensor inout a).preds), true) := by
  obtain ⟨howner, hmap⟩ := annotCreator_eq succ i tensor a
  simp only [TensorMap.accessFanin, annotAccess, howner, ← hmap]
  split
  · rfl
  · exact annotLookup_eq succ i tensor inout _ _

theorem annotArg_eq (succ : TaskId) (i : Int) (a : Annot) (t : TensorArg Tensor) :
    TensorMap.argFanin c oracleEmit (a.map, a.preds) t =
      (((annotArg c succ i a t).map, (annotArg c succ i a t).preds), true) := by
  have hcreator : ∀ tensor, TensorMap.ownerFanin oracleEmit tensor (a.map, a.preds) =
      (((annotCreator succ i tensor a).map, (annotCreator succ i tensor a).preds), true) := by
    intro tensor
    obtain ⟨howner, hmap⟩ := annotCreator_eq succ i tensor a
    simp only [TensorMap.ownerFanin, howner, hmap]
  cases t with
  | output info => rfl
  | input t => exact annotAccess_eq succ i t false a
  | inout t => exact annotAccess_eq succ i t true a
  | outputExisting t => exact hcreator t
  | noDep t => exact hcreator t

theorem annotPass_eq (succ : TaskId) (i : Int) (args : List (TensorArg Tensor)) (a : Annot) :
    TensorMap.computeTaskFanin c oracleEmit args (a.map, a.preds) =
      (((annotPass c succ i args a).map, (annotPass c succ i args a).preds), true) := by
  induction args generalizing i a with
  | nil => rfl
  | cons t rest ih =>
    simp only [TensorMap.computeTaskFanin, annotPass, annotArg_eq succ i a t]
    exact ih (i + 1) _

/-! ## Every record -/

/-- What holds between two records. -/
def InStep (s : State) : Prop := s.oracle = s.annot ∧ s.oraclePreds = s.annotPreds

/-- One record keeps the maps in step, and does not reach the divergence branch. -/
theorem record_inStep {poolSize : Nat} {s : State} (h : InStep s) (r : DepGenRecord) :
    record c poolSize s r ≠ .error .divergence ∧
      ∀ s', record c poolSize s r = .ok s' → InStep s' := by
  obtain ⟨hpreds, hmap⟩ := preds_explicit r.taskId r.deps ⟨s.annot, [], s.edges⟩
  generalize ha : r.deps.foldl (fun a p => emitNew r.taskId (-1) .explicit p a)
    ⟨s.annot, [], s.edges⟩ = a at hpreds hmap
  dsimp only at hpreds hmap
  generalize ha' : (if r.inManualScope then a else annotPass c r.taskId 0 r.args a) = a'
  -- the first pass computes what the second one does
  have horacle : oraclePass c r s.oracle (r.deps.foldl (fun preds p => preds.insert p) []) =
      ((a'.map, a'.preds), true) := by
    subst ha'
    rw [h.1, ← hmap, ← hpreds, oraclePass]
    split
    · rfl
    · exact annotPass_eq r.taskId 0 r.args a
  have hsame : differ a'.preds a'.preds = false := by simp [differ]
  simp only [record, ha, ha', horacle, hsame, Bool.false_eq_true, if_false]
  cases register c poolSize r a'.map with
  | none => exact ⟨nofun, nofun⟩
  | some m =>
    refine ⟨nofun, ?_⟩
    intro s' hs'
    cases hs'
    exact ⟨rfl, rfl⟩

theorem run_inStep {poolSize : Nat} {records : List DepGenRecord} {s : State} (h : InStep s) :
    run c poolSize s records ≠ .error .divergence ∧
      ∀ s', run c poolSize s records = .ok s' → InStep s' := by
  induction records generalizing s with
  | nil =>
    refine ⟨nofun, ?_⟩
    intro s' hs'
    cases hs'
    exact h
  | cons r rest ih =>
    have hrec : record c poolSize s r ≠ .error .divergence ∧
        ∀ s', record c poolSize s r = .ok s' → InStep s' := record_inStep h r
    rw [run, List.foldlM_cons]
    cases hr : record c poolSize s r with
    | error e =>
      refine ⟨?_, nofun⟩
      intro he
      cases he
      exact hrec.1 hr
    | ok s₁ => exact ih (hrec.2 s₁ hr)

end Replay

/-- For any records, window sizes and pool size: the replay never reports a divergence, and after
each record both maps have the same entries on the same chains and the two sets of predecessors are
equal. -/
theorem replay_in_step (c : Config) (poolSize : Nat) (records : List DepGenRecord) :
    Replay.run c poolSize Replay.init records ≠ .error .divergence ∧
      ∀ n s, Replay.run c poolSize Replay.init (records.take n) = .ok s →
        s.oracle = s.annot ∧ ∀ p, p ∈ s.oraclePreds ↔ p ∈ s.annotPreds := by
  have hinit : Replay.InStep Replay.init := ⟨rfl, rfl⟩
  refine ⟨(Replay.run_inStep hinit).1, ?_⟩
  intro n s hs
  obtain ⟨hmaps, hpreds⟩ := (Replay.run_inStep hinit).2 s hs
  refine ⟨hmaps, ?_⟩
  intro p
  rw [hpreds]

/-- A tensor of four elements that two tasks update one after the other. -/
def updatedTensor : Tensor where
  addr := 4096
  size := 16
  owner := none
  startOffset := 0
  version := 0
  dtype := .float32
  manualDep := false
  isContiguous := true
  shapes := [4]
  extentElemCache := 4
  strides := [1]

/-- The second update covers the first: its entry is removed from both maps, and it is the only
predecessor. -/
theorem replay_in_step_two_updates :
    ∃ s, Replay.run smallRings 8 Replay.init
        [⟨⟨0, 0⟩, false, [.inout updatedTensor], []⟩,
          ⟨⟨0, 1⟩, false, [.inout updatedTensor], []⟩] = .ok s ∧
      s.oraclePreds = [⟨0, 0⟩] ∧ s.oracle.nextEntryIdx = 1 ∧ s.oracle = s.annot := by
  refine ⟨_, rfl, ?_, ?_, ?_⟩
  · rfl
  · rfl
  · exact ((replay_in_step smallRings 8 [⟨⟨0, 0⟩, false, [.inout updatedTensor], []⟩,
      ⟨⟨0, 1⟩, false, [.inout updatedTensor], []⟩]).2 2 _ rfl).1

end PtoRuntime.Tmrb
