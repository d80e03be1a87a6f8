import PtoRuntime.Hier.TensorMap

/-!
# Hierarchical runtime — does the TensorMap track the last writer?

Runs of submissions and consumptions at the granularity of map operations: a
submission claims a slot and then takes one step per tensor (`inferStep`), an
`alloc` claims a slot and registers its buffer, and a consumption marks a slot
CONSUMED and erases its `output_keys` (`Orchestrator::on_consumed`). Consumptions
may fall between any two steps of a submission.

`Tracks` says what the map is for: a key maps to the most recently submitted slot
that registered it, and to nothing once that slot is CONSUMED.

`erase_task_outputs` erases by key and does not look at the slot the key maps
to, so a consumed writer takes the entry of a later writer with it.

Main results:

* `tracks_iff_consume_guard` — a run keeps `Tracks` in every state exactly when no
  consumption hits a key whose last writer is a later, unconsumed slot;
* `earlier_writer_erases_later_entry` — two writers of one buffer, the first
  consumed: the second one's entry is gone.
-/

namespace PtoRuntime.Hier

open Lib Function List

structure MapState where
  nextTaskId : Nat
  /-- What is left of the `infer_deps` loop of slot `nextTaskId - 1`. -/
  walk : List (TensorKey × TensorArgType)
  producers : List Nat
  tensormap : TensorMap
  outputKeys : Nat → List TensorKey
  consumed : Nat → Bool

inductive MapAct
  | submit (argsList : List TaskArgs) (affinities : List Int)
  | infer
  | alloc (ptr : Nat)
  | consume (slot : Nat)

variable {s t : MapState}

namespace MapState

def init : MapState :=
  ⟨0, [], [], .empty, fun _ => [], fun _ => false⟩

/-- The slot exists and its submission is through `infer_deps`. -/
def Submitted (s : MapState) (p : Nat) : Prop :=
  p < s.nextTaskId ∧ (s.walk ≠ [] → p + 1 ≠ s.nextTaskId)

instance (s : MapState) (p : Nat) : Decidable (s.Submitted p) :=
  inferInstanceAs (Decidable (_ ∧ (_ → _)))

def inferOne (s : MapState) (x : TensorKey × TensorArgType)
    (rest : List (TensorKey × TensorArgType)) : MapState :=
  let slot := s.nextTaskId - 1
  let i := inferStep slot ⟨s.tensormap, s.producers, s.outputKeys slot⟩ x
  { s with
    walk := rest
    producers := i.producers
    tensormap := i.tensormap
    outputKeys := update s.outputKeys slot i.outputKeys }

/-- `Orchestrator::alloc`: a null slab is not registered. -/
def allocOne (s : MapState) (ptr : Nat) : MapState :=
  let slot := s.nextTaskId
  let key : TensorKey := ⟨ptr, -1⟩
  if ptr = 0 then { s with nextTaskId := slot + 1 }
  else
    { s with
      nextTaskId := slot + 1
      tensormap := s.tensormap.insert key slot
      outputKeys := update s.outputKeys slot [key] }

def onConsumed (s : MapState) (p : Nat) : MapState :=
  { s with
    consumed := update s.consumed p true
    tensormap := s.tensormap.eraseTaskOutputs (s.outputKeys p) }

@[simp] theorem onConsumed_outputKeys (s : MapState) (p : Nat) :
    (s.onConsumed p).outputKeys = s.outputKeys := rfl

@[simp] theorem onConsumed_consumed (s : MapState) (p w : Nat) :
    (s.onConsumed p).consumed w = if w = p then true else s.consumed w :=
  Function.update_apply ..

def step (s : MapState) : MapAct → Option MapState
  | .submit argsList affinities =>
    if s.walk = [] ∧ argsList ≠ [] then
      some { s with
        nextTaskId := s.nextTaskId + 1
        walk := inferWalk argsList affinities
        producers := [] }
    else none
  | .infer =>
    match s.walk with
    | [] => none
    | x :: rest => some (s.inferOne x rest)
  | .alloc ptr => if s.walk = [] then some (s.allocOne ptr) else none
  | .consume p =>
    if s.Submitted p ∧ s.consumed p = false then some (s.onConsumed p) else none

/-! ## Last writers -/

/-- `w` is the most recently submitted or allocated slot that registered `k`. -/
def IsLastWriter (s : MapState) (k : TensorKey) (w : Nat) : Prop :=
  k ∈ s.outputKeys w ∧ ∀ w', w < w' → k ∉ s.outputKeys w'

/-- The map returns the last writer of a key while that slot is not CONSUMED,
and nothing if it is, or if nobody registered the key. -/
def Tracks (s : MapState) : Prop :=
  ∀ k,
    (∀ w, s.IsLastWriter k w →
      s.tensormap.lookup k = if s.consumed w then none else some w) ∧
    ((∀ w, k ∉ s.outputKeys w) → s.tensormap.lookup k = none)

/-- The condition on a consumption: a later slot that last registered one of the
keys is itself CONSUMED already. -/
def ConsumeGuard (s : MapState) : MapAct → Prop
  | .consume p => ∀ k ∈ s.outputKeys p, ∀ w, p < w → s.IsLastWriter k w → s.consumed w = true
  | _ => True

/-- Slots beyond the counter have done nothing; the slot in `infer_deps` is not
consumed. -/
structure Fresh (s : MapState) : Prop where
  keys : ∀ w, s.nextTaskId ≤ w → s.outputKeys w = []
  consumed : ∀ w, s.consumed w = true → s.Submitted w
  walk : s.walk ≠ [] → 0 < s.nextTaskId

theorem fresh_init : Fresh init :=
  ⟨fun _ _ => rfl, fun _ h => by simp [init] at h, fun h => absurd rfl h⟩

theorem tracks_init : Tracks init :=
  fun _ => ⟨fun _ h => by simp [IsLastWriter, init] at h, fun _ => rfl⟩

/-- Registering keys for the newest slot, on top of what it had. -/
theorem tracks_register (slot : Nat) (k : TensorKey) (hT : Tracks s)
    (hNew : ∀ w, slot < w → s.outputKeys w = []) (hLive : s.consumed slot = false)
    (hMap : t.tensormap = s.tensormap.insert k slot)
    (hKeys : t.outputKeys = update s.outputKeys slot (s.outputKeys slot ++ [k]))
    (hCons : t.consumed = s.consumed) : Tracks t := by
  have hMem : ∀ k' w, k' ∈ t.outputKeys w ↔ k' ∈ s.outputKeys w ∨ (w = slot ∧ k' = k) := by
    intro k' w
    rw [hKeys]
    by_cases hw : w = slot
    · subst hw; simp
    · simp [hw]
  have hLook : ∀ k', t.tensormap.lookup k' =
      if k' = k then some slot else s.tensormap.lookup k' := by
    intro k'
    rw [hMap, TensorMap.lookup_insert]
  intro k'
  by_cases hk : k' = k
  · subst hk
    refine ⟨fun w hw => ?_, fun h => ?_⟩
    · -- the newest slot is now the last writer of the key
      have hws : w = slot := by
        rcases Nat.lt_trichotomy w slot with h | h | h
        · exact absurd ((hMem k' slot).mpr (.inr ⟨rfl, rfl⟩)) (hw.2 slot h)
        · exact h
        · have := (hMem k' w).mp hw.1
          rw [hNew w h] at this
          simp at this
          omega
      rw [hLook, if_pos rfl, hCons, hws, hLive]
      simp
    · exact absurd ((hMem k' slot).mpr (.inr ⟨rfl, rfl⟩)) (h slot)
  · have hSame : ∀ w, k' ∈ t.outputKeys w ↔ k' ∈ s.outputKeys w := by
      intro w
      rw [hMem]
      simp [hk]
    obtain ⟨hLast, hNone⟩ := hT k'
    rw [hLook, if_neg hk, hCons]
    refine ⟨fun w hw => hLast w ⟨(hSame w).mp hw.1, fun w' hlt => ?_⟩, fun h => hNone fun w => ?_⟩
    · rw [← hSame]
      exact hw.2 w' hlt
    · rw [← hSame]
      exact h w

/-- A step that touches neither the map nor the key lists keeps `Tracks`. -/
theorem tracks_congr (hT : Tracks s) (hMap : t.tensormap = s.tensormap)
    (hKeys : t.outputKeys = s.outputKeys) (hCons : t.consumed = s.consumed) : Tracks t := by
  intro k
  obtain ⟨hLast, hNone⟩ := hT k
  refine ⟨fun w hw => ?_, fun h => ?_⟩
  · rw [hMap, hCons]
    exact hLast w (by rw [IsLastWriter, ← hKeys]; exact hw)
  · rw [hMap]
    exact hNone (by rw [← hKeys]; exact h)

theorem fresh_inferOne {x : TensorKey × TensorArgType} {rest : List (TensorKey × TensorArgType)}
    (hF : Fresh s) (hw : s.walk = x :: rest) :
    Fresh (s.inferOne x rest) := by
  have hpos : 0 < s.nextTaskId := hF.walk (by rw [hw]; exact cons_ne_nil _ _)
  refine ⟨fun w hlt => ?_, fun w hc => ?_, fun _ => hpos⟩
  · have hne : w ≠ s.nextTaskId - 1 := by simp only [inferOne] at hlt; omega
    simp only [inferOne, update_of_ne hne]
    exact hF.keys w hlt
  · obtain ⟨hlt, hcur⟩ := hF.consumed w hc
    exact ⟨hlt, fun _ => hcur (by rw [hw]; exact cons_ne_nil _ _)⟩

theorem tracks_inferOne {x : TensorKey × TensorArgType} {rest : List (TensorKey × TensorArgType)}
    (hF : Fresh s) (hT : Tracks s) (hw : s.walk = x :: rest) : Tracks (s.inferOne x rest) := by
  have hpos : 0 < s.nextTaskId := hF.walk (by rw [hw]; exact cons_ne_nil _ _)
  cases hr : x.2.registers with
  | false =>
    refine tracks_congr hT ?_ ?_ rfl <;> simp [inferOne, inferStep, hr]
  | true =>
    refine tracks_register (s.nextTaskId - 1) x.1 hT
      (fun w h => hF.keys w (by omega)) ?_ ?_ ?_ rfl
    · -- the slot in `infer_deps` is not CONSUMED
      by_contra hc
      obtain ⟨-, hcur⟩ := hF.consumed _ (by simpa using hc)
      exact hcur (by rw [hw]; exact cons_ne_nil _ _) (by omega)
    · simp [inferOne, inferStep, hr]
    · simp [inferOne, inferStep, hr]

theorem fresh_allocOne {ptr : Nat} (hF : Fresh s) (hw : s.walk = []) :
    Fresh (s.allocOne ptr) := by
  have hcons : ∀ w, s.consumed w = true → w < s.nextTaskId + 1 := fun w hc =>
    Nat.lt_succ_of_lt (hF.consumed w hc).1
  by_cases hp : ptr = 0
  · simp only [allocOne, hp, if_true]
    exact ⟨fun w h => hF.keys w (by simp only at h; omega),
      fun w hc => ⟨hcons w hc, fun h => absurd hw h⟩, fun h => absurd hw h⟩
  · simp only [allocOne, hp, if_false]
    refine ⟨fun w h => ?_, fun w hc => ⟨hcons w hc, fun h => absurd hw h⟩, fun h => absurd hw h⟩
    simp only at h ⊢
    rw [update_of_ne (by omega)]
    exact hF.keys w (by omega)

theorem tracks_allocOne {ptr : Nat} (hF : Fresh s) (hT : Tracks s) :
    Tracks (s.allocOne ptr) := by
  by_cases hp : ptr = 0
  · refine tracks_congr hT ?_ ?_ ?_ <;> simp [allocOne, hp]
  · refine tracks_register s.nextTaskId ⟨ptr, -1⟩ hT
      (fun w h => hF.keys w (by omega)) ?_ ?_ ?_ ?_
    · by_contra hc
      have := (hF.consumed s.nextTaskId (by simpa using hc)).1
      omega
    · simp [allocOne, hp]
    · simp [allocOne, hp, hF.keys s.nextTaskId (Nat.le_refl _)]
    · simp [allocOne, hp]

/-- **A consumption keeps `Tracks` exactly when its guard holds.** -/
theorem tracks_onConsumed_iff {p : Nat} (hT : Tracks s) :
    Tracks (s.onConsumed p) ↔ ConsumeGuard s (.consume p) := by
  have hLook : ∀ k, (s.onConsumed p).tensormap.lookup k =
      if k ∈ s.outputKeys p then none else s.tensormap.lookup k := fun k =>
    TensorMap.lookup_eraseTaskOutputs _ _ k
  constructor
  · intro h k hk w hpw hw
    have hval := (h k).1 w hw
    rw [hLook, if_pos hk, onConsumed_consumed, if_neg (show ¬ w = p by omega)] at hval
    by_contra hc
    rw [if_neg hc] at hval
    cases hval
  · intro hG k
    refine ⟨fun w hw => ?_, fun h => ?_⟩
    · rw [hLook, onConsumed_consumed]
      by_cases hk : k ∈ s.outputKeys p
      · rw [if_pos hk]
        by_cases hwp : w = p
        · simp [hwp]
        · have hpw : p < w := by
            by_contra hle
            exact hw.2 p (by omega) hk
          rw [if_neg hwp, hG k hk w hpw hw]
          simp
      · have hwp : w ≠ p := fun h => hk (h ▸ hw.1)
        rw [if_neg hk, if_neg hwp]
        exact (hT k).1 w hw
    · rw [onConsumed_outputKeys] at h
      rw [hLook, if_neg (h p)]
      exact (hT k).2 h

theorem fresh_step {a : MapAct} (hF : Fresh s) (h : s.step a = some t) :
    Fresh t := by
  cases a with
  | submit argsList affinities =>
    simp only [step] at h
    split_ifs at h with hw
    cases h
    refine ⟨fun w hlt => hF.keys w (by simp only at hlt; omega), fun w hc => ?_,
      fun _ => Nat.succ_pos _⟩
    have := (hF.consumed w hc).1
    exact ⟨Nat.lt_succ_of_lt this, fun _ => by simp only; omega⟩
  | infer =>
    simp only [step] at h
    split at h
    · cases h
    · rename_i x rest hw
      cases h
      exact fresh_inferOne hF hw
  | alloc ptr =>
    simp only [step] at h
    split_ifs at h with hw
    cases h
    exact fresh_allocOne hF hw
  | consume p =>
    simp only [step] at h
    split_ifs at h with hp
    cases h
    refine ⟨hF.keys, fun w hc => ?_, hF.walk⟩
    by_cases hw : w = p
    · subst hw; exact hp.1
    · rw [onConsumed_consumed, if_neg hw] at hc
      exact hF.consumed w hc

/-- Which steps lose the last writer. -/
theorem tracks_step_iff {a : MapAct} (hF : Fresh s) (hT : Tracks s) (h : s.step a = some t) :
    Tracks t ↔ ConsumeGuard s a := by
  cases a with
  | submit argsList affinities =>
    simp only [step] at h
    split_ifs at h
    cases h
    exact iff_of_true (tracks_congr hT rfl rfl rfl) trivial
  | infer =>
    simp only [step] at h
    split at h
    · cases h
    · rename_i x rest hw
      cases h
      exact iff_of_true (tracks_inferOne hF hT hw) trivial
  | alloc ptr =>
    simp only [step] at h
    split_ifs at h
    cases h
    exact iff_of_true (tracks_allocOne hF hT) trivial
  | consume p =>
    simp only [step] at h
    split_ifs at h
    cases h
    exact tracks_onConsumed_iff hT

/--
**The TensorMap tracks the last writer exactly in the runs whose consumptions are
guarded.** In any run of submissions, allocs and consumptions, all states satisfy
`Tracks` iff every consumed slot is the last writer of each of its keys, or the
later last writer is CONSUMED already.
-/
theorem tracks_iff_consume_guard (acts : List MapAct) :
    EveryState step Tracks init acts ↔ EveryStep step ConsumeGuard init acts :=
  everyState_iff_everyStep Fresh (fun _ _ _ hF h => fresh_step hF h)
    (fun _ _ _ hF hT h => tracks_step_iff hF hT h) acts init fresh_init tracks_init

/-- Slots 0 and 1 both write the buffer at `0x1000`; slot 0 is consumed. -/
def twoWriters : List MapAct :=
  let a : List TaskArgs := [[(⟨0x1000, 64, false⟩, .output)]]
  [.submit a [], .infer, .submit a [], .infer, .consume 0]

/-- The entry of the later, unconsumed writer is gone after the consumption of
the earlier one. -/
theorem earlier_writer_erases_later_entry : ¬ EveryState step Tracks init twoWriters := by
  intro h
  -- follow the run to its last state
  have hT := ((((h.2 _ rfl).2 _ rfl).2 _ rfl).2 _ rfl).2 _ rfl
  have hLook := (hT ⟨0x1000, -1⟩).1 1 ⟨mem_singleton.mpr rfl, fun w hw => by
    simp only [inferOne, onConsumed, init, update_apply]
    simp [show w ≠ 1 by omega, show w ≠ 0 by omega]⟩
  exact absurd hLook (by decide)

end MapState

end PtoRuntime.Hier
