import PtoRuntime.Lib.Reach

/-!
# Hierarchical runtime — tensor keys, arguments and the TensorMap

`src/common/hierarchical/tensormap.{h,cpp}` and the argument walk of
`Orchestrator::infer_deps`. Task slots are numbers; the map is a total function
to `Option Nat`, with `none` for the source's `INVALID_SLOT`.

`infer_deps` walks the tensors of all group members in order, skips null
tensors, and for each of the others does a lookup, an insert, or both, as the
tag says. `inferWalk` is that walk; `inferStep` is one turn of its loop.
-/

namespace PtoRuntime.Hier

/-- `TensorKey`: worker `-1` is host memory, `0..N-1` a next-level worker. -/
structure TensorKey where
  ptr : Nat
  worker : Int
  deriving DecidableEq, Repr

inductive TensorArgType
  | input | output | inout | outputExisting | noDep
  deriving DecidableEq, Repr

/-- The fields of `ContinuousTensor` that submission reads. -/
structure ContinuousTensor where
  data : Nat
  nbytes : Nat
  childMemory : Bool
  deriving DecidableEq, Repr

abbrev TaskArgs := List (ContinuousTensor × TensorArgType)

/-! ## The map -/

structure TensorMap where
  map : TensorKey → Option Nat

namespace TensorMap

def empty : TensorMap := ⟨fun _ => none⟩

def lookup (m : TensorMap) (key : TensorKey) : Option Nat := m.map key

def insert (m : TensorMap) (key : TensorKey) (producer : Nat) : TensorMap :=
  ⟨fun k => if k = key then some producer else m.map k⟩

def erase (m : TensorMap) (key : TensorKey) : TensorMap :=
  ⟨fun k => if k = key then none else m.map k⟩

/-- Removes the keys, whichever slot they map to by now. -/
def eraseTaskOutputs (m : TensorMap) (keys : List TensorKey) : TensorMap :=
  keys.foldl erase m

@[simp] theorem lookup_empty (k : TensorKey) : empty.lookup k = none := rfl

theorem lookup_insert (m : TensorMap) (key k : TensorKey) (p : Nat) :
    (m.insert key p).lookup k = if k = key then some p else m.lookup k := rfl

theorem lookup_erase (m : TensorMap) (key k : TensorKey) :
    (m.erase key).lookup k = if k = key then none else m.lookup k := rfl

theorem lookup_eraseTaskOutputs (keys : List TensorKey) (m : TensorMap) (k : TensorKey) :
    (m.eraseTaskOutputs keys).lookup k = if k ∈ keys then none else m.lookup k := by
  induction keys generalizing m with
  | nil => simp [eraseTaskOutputs]
  | cons key rest ih =>
    rw [show m.eraseTaskOutputs (key :: rest) = (m.erase key).eraseTaskOutputs rest from rfl,
      ih, lookup_erase]
    by_cases hk : k = key <;> simp [hk]

end TensorMap

/-! ## The argument walk -/

/-- The key `infer_deps` forms: child memory belongs to the member's worker. -/
def tensorKey (t : ContinuousTensor) (workerId : Int) : TensorKey :=
  ⟨t.data, if t.childMemory then workerId else -1⟩

/-- The tensors of one group member; a null tensor has nothing to track. -/
def memberWalk (a : TaskArgs) (workerId : Int) : List (TensorKey × TensorArgType) :=
  (a.filter fun x => x.1.data ≠ 0).map fun x => (tensorKey x.1 workerId, x.2)

/-- All tensors `infer_deps` visits: member `g` runs on `affinities[g]`, or on
`-1` where the list is shorter. -/
def inferWalk : List TaskArgs → List Int → List (TensorKey × TensorArgType)
  | [], _ => []
  | a :: as, [] => memberWalk a (-1) ++ inferWalk as []
  | a :: as, w :: ws => memberWalk a w ++ inferWalk as ws

/-- `add_unique_producer`: skips the slot itself and producers already found. -/
def addUniqueProducer (slot : Nat) (producers : List Nat) (p : Nat) :
    List Nat :=
  if p = slot ∨ p ∈ producers then producers else producers ++ [p]

/-- The tags that look the key up. -/
def TensorArgType.looksUp : TensorArgType → Bool
  | .input | .inout => true
  | _ => false

/-- The tags that register the slot as the key's producer. -/
def TensorArgType.registers : TensorArgType → Bool
  | .inout | .output | .outputExisting => true
  | _ => false

/-- What the loop of `infer_deps` has built so far. -/
structure Inferred where
  tensormap : TensorMap
  producers : List Nat
  outputKeys : List TensorKey

/-- The lookup of one turn of the loop. -/
def inferLookup (slot : Nat) (x : TensorKey × TensorArgType) (m : TensorMap)
    (producers : List Nat) : List Nat :=
  if x.2.looksUp then
    match m.lookup x.1 with
    | some p => addUniqueProducer slot producers p
    | none => producers
  else producers

/-- One turn of the loop: the lookup, then the insert. -/
def inferStep (slot : Nat) (i : Inferred) (x : TensorKey × TensorArgType) : Inferred :=
  { tensormap := if x.2.registers then i.tensormap.insert x.1 slot else i.tensormap
    producers := inferLookup slot x i.tensormap i.producers
    outputKeys := if x.2.registers then i.outputKeys ++ [x.1] else i.outputKeys }

theorem mem_addUniqueProducer {slot p q : Nat} {producers : List Nat} :
    q ∈ addUniqueProducer slot producers p ↔ q ∈ producers ∨ (q = p ∧ p ≠ slot) := by
  unfold addUniqueProducer
  split
  · rename_i h
    constructor
    · exact .inl
    · rintro (hq | ⟨rfl, hne⟩)
      · exact hq
      · exact h.resolve_left hne
  · rename_i h
    rw [not_or] at h
    rw [List.mem_append, List.mem_singleton]
    exact or_congr_right (by simp [h.1])

theorem nodup_addUniqueProducer {slot p : Nat} {producers : List Nat}
    (h : producers.Nodup) : (addUniqueProducer slot producers p).Nodup := by
  unfold addUniqueProducer
  split_ifs with hp
  · exact h
  · rw [not_or] at hp
    rw [List.nodup_append]
    refine ⟨h, by simp, ?_⟩
    rintro a ha b hb rfl
    rw [List.mem_singleton] at hb
    exact hp.2 (hb ▸ ha)

end PtoRuntime.Hier
