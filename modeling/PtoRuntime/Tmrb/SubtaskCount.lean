import Mathlib

/-!
# Counting the subtasks of a task

A task runs `block_num` blocks, each on the cores of its active mask. `prepare_task` writes the
number of subtasks to `total_required_subtasks`, an `int16_t`; every core that finishes one adds to
`completed_subtasks`, an atomic `int16_t`, and `on_subtask_complete` compares the two as `int`.

The product is taken in `int` and narrowed afterwards. Up to 32767 subtasks nothing is lost. With
exactly 32768 the total is negative and out of reach of `prev + 1`; between 32769 and 65535 both
sides wrap the same way; above 65536 the counter passes the total one whole turn too early.

Main results: `completions_eq`, `detected_at_iff`, `subtask_completion_detected_once`.
-/

namespace PtoRuntime.Tmrb

open List

/-- `static_cast<int16_t>` -/
def toInt16 (x : Int) : Int := (x + 2 ^ 15) % 2 ^ 16 - 2 ^ 15

inductive SubtaskSlot
  | aic | aiv0 | aiv1
  deriving DecidableEq, Repr

/-- `PTO2_SUBTASK_MASK_AIC`, `_AIV0` and `_AIV1` -/
def SubtaskSlot.bit : SubtaskSlot → Nat
  | .aic => 0
  | .aiv0 => 1
  | .aiv1 => 2

def invalidKernelId : Int := -1

structure ActiveMask where
  raw : BitVec 8
  deriving DecidableEq, Repr

inductive ResourceShape
  | aic | aiv | mix | dummy
  deriving DecidableEq, Repr

namespace ActiveMask

def subtaskActive (m : ActiveMask) (s : SubtaskSlot) : Bool := m.raw.getLsbD s.bit

def coreMask (m : ActiveMask) : BitVec 8 := m.raw &&& 0x07

def setSyncStart (m : ActiveMask) : ActiveMask := ⟨m.raw ||| 0x08⟩

/-- the slots that run in every block -/
def slots (m : ActiveMask) : List SubtaskSlot := [.aic, .aiv0, .aiv1].filter m.subtaskActive

end ActiveMask

/-- `__builtin_popcount` -/
def popcount (x : BitVec 8) : Nat := (range 8).countP x.getLsbD

def ActiveMask.toShape (m : ActiveMask) : ResourceShape :=
  if m.coreMask = 0 then .dummy
  else if 2 ≤ popcount m.coreMask then .mix
  else if m.subtaskActive .aic then .aic
  else .aiv

structure MixedKernels where
  aicKernelId : Int
  aiv0KernelId : Int
  aiv1KernelId : Int
  deriving DecidableEq, Repr

def MixedKernels.toActiveMask (k : MixedKernels) : ActiveMask :=
  ⟨(if k.aicKernelId ≠ invalidKernelId then 1 else 0) |||
    (if k.aiv0KernelId ≠ invalidKernelId then 2 else 0) |||
    (if k.aiv1KernelId ≠ invalidKernelId then 4 else 0)⟩

/-- A task with only the second vector core moves to the first. -/
def MixedKernels.normalized (k : MixedKernels) : MixedKernels :=
  let m := k.toActiveMask
  if !m.subtaskActive .aic && m.subtaskActive .aiv1 && !m.subtaskActive .aiv0 then
    { k with aiv0KernelId := k.aiv1KernelId, aiv1KernelId := invalidKernelId }
  else k

/-- `PTO2LaunchSpec`; the block count is an `int16_t`. -/
structure LaunchSpec where
  blockNum : Int
  requireSyncStart : Bool
  fits : blockNum < 2 ^ 15
  deriving DecidableEq, Repr

/-- The fields of `PTO2TaskSlotState` that the count uses. -/
structure SubtaskCounters where
  completedSubtasks : Int
  totalRequiredSubtasks : Int
  logicalBlockNum : Int
  activeMask : ActiveMask
  deriving DecidableEq, Repr

/-- The counters that `prepare_task` leaves in a slot, which `reset_for_reuse` had cleared. -/
def prepareCounters (blockNum : Int) (m : ActiveMask) : SubtaskCounters where
  completedSubtasks := 0
  totalRequiredSubtasks := toInt16 (blockNum * popcount m.coreMask)
  logicalBlockNum := blockNum
  activeMask := m

/-- `submit_task` up to the counters of the slot; `none` is a failed assertion or the fatal error of
the `require_sync_start` check. -/
def submitCounters (totalAivCount totalClusterCount : Int) (k : MixedKernels) (spec : LaunchSpec) :
    Option SubtaskCounters :=
  if k.toActiveMask.raw = 0 ∨ spec.blockNum < 1 then none
  else
    let m := k.normalized.toActiveMask
    if 1 < spec.blockNum ∧ spec.requireSyncStart then
      let limit := if m.toShape = .aiv then totalAivCount else totalClusterCount
      if 0 < limit ∧ limit < spec.blockNum then none
      else some (prepareCounters spec.blockNum m.setSyncStart)
    else some (prepareCounters spec.blockNum m)

/-- `on_subtask_complete`: the fetch-and-add is the only access to the counter, and the total does
not change while subtasks run. -/
def onSubtaskComplete (c : SubtaskCounters) : Bool × SubtaskCounters :=
  (c.completedSubtasks + 1 == c.totalRequiredSubtasks,
    { c with completedSubtasks := toInt16 (c.completedSubtasks + 1) })

/-- A subtask: a block and the slot of one of its cores. -/
abbrev Subtask := Nat × SubtaskSlot

def SubtaskCounters.subtasks (c : SubtaskCounters) : List Subtask :=
  (range c.logicalBlockNum.toNat).flatMap fun b => c.activeMask.slots.map (b, ·)

/-- The completions in the order of their fetch-and-adds, each with what the call returned. -/
def completions (c : SubtaskCounters) : List Subtask → List (Subtask × Bool)
  | [] => []
  | t :: ts => (t, (onSubtaskComplete c).1) :: completions (onSubtaskComplete c).2 ts

/-- One call returned true, and it was the last: all the others had been counted before. -/
def DetectedOnce (answers : List (Subtask × Bool)) : Prop :=
  ∃ (before : List Subtask) (last : Subtask),
    answers = before.map (·, false) ++ [(last, true)]

/-! ## What the calls return -/

/-- The call that finds `n` subtasks counted. -/
theorem completions_eq (total blockNum : Int) (m : ActiveMask) (n : Nat) (order : List Subtask) :
    completions ⟨toInt16 n, total, blockNum, m⟩ order =
      (order.zipIdx n).map fun t => (t.1, toInt16 t.2 + 1 == total) := by
  induction order generalizing n with
  | nil => rfl
  | cons t ts ih =>
    have hnext : toInt16 (toInt16 n + 1) = toInt16 (n + 1 : Nat) := by
      simp only [toInt16]
      omega
    simp only [completions, onSubtaskComplete, hnext, ih, zipIdx_cons, map_cons]

/-- Among `total` subtasks, the call that finds `n` counted returns true when the count reaches the
total up to whole turns of the counter, unless the narrowed total is the one negative number that
`prev + 1` never is. -/
theorem detected_at_iff (n total : Nat) :
    toInt16 n + 1 = toInt16 total ↔ (n + 1) % 2 ^ 16 = total % 2 ^ 16 ∧
      total % 2 ^ 16 ≠ 2 ^ 15 := by
  simp only [toInt16]
  omega

theorem zipIdx_map_detected {total : Nat} (order : List Subtask) {n : Nat}
    (hlen : n + order.length = total) (hne : order ≠ [])
    (hat : ∀ i, n ≤ i → i < total → (toInt16 i + 1 = toInt16 total ↔ i + 1 = total)) :
    DetectedOnce ((order.zipIdx n).map fun t => (t.1, toInt16 t.2 + 1 == toInt16 total)) := by
  induction order generalizing n with
  | nil => exact absurd rfl hne
  | cons t ts ih =>
    simp only [length_cons] at hlen
    have hhead := hat n (Nat.le_refl n) (by omega)
    cases hts : ts with
    | nil =>
      subst hts
      have hlast : toInt16 n + 1 = toInt16 total := hhead.mpr (by simpa using hlen)
      exact ⟨[], t, by simp [hlast]⟩
    | cons u us =>
      have hlen' : 0 < ts.length := by simp [hts]
      obtain ⟨before, last, htail⟩ := ih (n := n + 1) (by omega) (by simp [hts])
        (fun i hi => hat i (by omega))
      have hfalse : ¬ toInt16 n + 1 = toInt16 total := fun h => by
        have := hhead.mp h
        omega
      refine ⟨t :: before, last, ?_⟩
      rw [← hts, zipIdx_cons, map_cons, htail]
      simp [hfalse]

/-- A list of answers with one true at its end has no true before. -/
theorem DetectedOnce.getElem_iff {answers : List (Subtask × Bool)} (h : DetectedOnce answers)
    {i : Nat} (hi : i < answers.length) : answers[i].2 = true ↔ i + 1 = answers.length := by
  obtain ⟨before, last, rfl⟩ := h
  simp only [length_append, length_map, length_singleton] at hi ⊢
  rcases Nat.lt_or_ge i before.length with hlt | hge
  · simp [hlt]
    omega
  · have hlast : i = before.length := by omega
    subst hlast
    simp

/-! ## The accepted totals -/

theorem popcount_coreMask (m : ActiveMask) : popcount m.coreMask = m.slots.length := by
  obtain ⟨raw⟩ := m
  revert raw
  decide +kernel

theorem slots_setSyncStart (m : ActiveMask) : m.setSyncStart.slots = m.slots := by
  obtain ⟨raw⟩ := m
  revert raw
  decide +kernel

theorem length_subtasks (c : SubtaskCounters) :
    c.subtasks.length = c.logicalBlockNum.toNat * popcount c.activeMask.coreMask := by
  simp [SubtaskCounters.subtasks, popcount_coreMask, length_flatMap]

/-- The move to the first vector core leaves a core in the mask. -/
theorem MixedKernels.slots_normalized_ne_nil {k : MixedKernels} (h : k.toActiveMask.raw ≠ 0) :
    k.normalized.toActiveMask.slots ≠ [] := by
  have hmask : ∀ k : MixedKernels, k.toActiveMask.raw ≠ 0 → k.toActiveMask.slots ≠ [] := by
    intro k
    simp only [MixedKernels.toActiveMask]
    split <;> split <;> split <;> decide
  refine hmask _ ?_
  revert h
  simp only [MixedKernels.normalized, MixedKernels.toActiveMask]
  by_cases haic : k.aicKernelId = invalidKernelId <;>
    by_cases hv0 : k.aiv0KernelId = invalidKernelId <;>
    by_cases hv1 : k.aiv1KernelId = invalidKernelId <;>
    simp [haic, hv0, hv1, ActiveMask.subtaskActive, SubtaskSlot.bit]

/-- What an accepted submission leaves in the slot: the counters of some block count and a mask
with at least one core. -/
theorem submitCounters_some {aivs clusters : Int} {k : MixedKernels} {spec : LaunchSpec}
    {c : SubtaskCounters} (h : submitCounters aivs clusters k spec = some c) :
    1 ≤ spec.blockNum ∧ ∃ m : ActiveMask, m.slots ≠ [] ∧ c = prepareCounters spec.blockNum m := by
  simp only [submitCounters] at h
  split at h
  · cases h
  · rename_i hok
    obtain ⟨hraw, hblocks⟩ := not_or.mp hok
    refine ⟨Int.not_lt.mp hblocks, ?_⟩
    have hslots := MixedKernels.slots_normalized_ne_nil hraw
    generalize (if k.normalized.toActiveMask.toShape = .aiv then aivs else clusters) = limit at h
    split at h
    · split_ifs at h
      exact ⟨_, by rwa [slots_setSyncStart], (Option.some.inj h).symm⟩
    · exact ⟨_, hslots, (Option.some.inj h).symm⟩

/-- For every task that submission accepts and every order of its subtasks: the one call that
returns true is the last, exactly when the number of subtasks is not 2¹⁵ and at most 2¹⁶. -/
theorem subtask_completion_detected_once (aivs clusters : Int) (k : MixedKernels)
    (spec : LaunchSpec) (c : SubtaskCounters) (h : submitCounters aivs clusters k spec = some c) :
    (∀ order, order.Perm c.subtasks → DetectedOnce (completions c order)) ↔
      spec.blockNum * popcount c.activeMask.coreMask ≠ 2 ^ 15 ∧
        spec.blockNum * popcount c.activeMask.coreMask ≤ 2 ^ 16 := by
  obtain ⟨hblocks, m, hm, rfl⟩ := submitCounters_some h
  simp only [prepareCounters]
  -- the number of subtasks, as it is before the narrowing
  obtain ⟨b, hb⟩ := Int.eq_ofNat_of_zero_le (Int.le_trans Int.one_nonneg hblocks)
  have hpop : 0 < popcount m.coreMask := by
    rw [popcount_coreMask]
    exact length_pos_of_ne_nil hm
  have hpop3 : popcount m.coreMask ≤ 3 := by
    rw [popcount_coreMask]
    exact length_filter_le _ _
  have hfits := spec.fits
  rw [hb] at hblocks hfits ⊢
  obtain ⟨total, htotal⟩ : ∃ total, total = b * popcount m.coreMask := ⟨_, rfl⟩
  have hcast : ((b : Int) * (popcount m.coreMask : Int)) = (total : Int) := by
    rw [htotal, Int.natCast_mul]
  have hpos : 0 < total := htotal ▸ Nat.mul_pos (by omega) hpop
  have hle : total < 2 ^ 16 + 2 ^ 15 := by
    have := Nat.mul_le_mul (show b ≤ 2 ^ 15 - 1 by omega) hpop3
    rw [← htotal] at this
    omega
  rw [hcast]
  have hlen : ∀ order : List Subtask, order.Perm
      (SubtaskCounters.subtasks ⟨0, toInt16 total, b, m⟩) → order.length = total := by
    intro order hperm
    rw [hperm.length_eq, length_subtasks, htotal, Int.toNat_natCast]
  have hrun := completions_eq (toInt16 total) b m 0
  rw [show toInt16 (0 : Nat) = 0 from rfl] at hrun
  constructor
  · intro hall
    have honce := hall _ (List.Perm.refl _)
    rw [hrun] at honce
    have hat : ∀ i < total, (toInt16 i + 1 = toInt16 total ↔ i + 1 = total) := by
      intro i hi
      have := honce.getElem_iff (i := i) (by simpa [hlen _ (List.Perm.refl _)] using hi)
      simpa [hlen _ (List.Perm.refl _)] using this
    constructor
    · intro hmid
      have := (detected_at_iff _ _).mp ((hat (total - 1) (by omega)).mpr (by omega))
      omega
    · by_contra hbig
      obtain ⟨early, hearly⟩ : ∃ early : Nat, total = early + 1 + 2 ^ 16 :=
        ⟨total - (1 + 2 ^ 16), by omega⟩
      have := (hat early (by omega)).mp ((detected_at_iff _ _).mpr ⟨by omega, by omega⟩)
      omega
  · rintro ⟨hmid, hmax⟩ order hperm
    rw [hrun]
    refine zipIdx_map_detected order (by rw [hlen order hperm, Nat.zero_add]) ?_ ?_
    · intro hnil
      have := hlen order hperm
      simp [hnil] at this
      omega
    · intro i _ hi
      rw [detected_at_iff]
      omega

/-- A cube and vector task of one block. -/
theorem subtask_completion_detected_once_mixed :
    ∃ c, submitCounters 48 24 ⟨0, 1, -1⟩ ⟨1, false, by decide⟩ = some c ∧
      ∀ order, order.Perm c.subtasks → DetectedOnce (completions c order) := by
  refine ⟨_, rfl, ?_⟩
  exact (subtask_completion_detected_once 48 24 ⟨0, 1, -1⟩ ⟨1, false, by decide⟩ _ rfl).mpr
    (by decide)

/-- With 16384 blocks on two cores the total becomes -32768, and no call returns true. -/
theorem subtask_completion_never_detected :
    ∃ c, submitCounters 48 24 ⟨0, 1, -1⟩ ⟨16384, false, by decide⟩ = some c ∧
      c.totalRequiredSubtasks = -32768 ∧
      ∀ order, order.Perm c.subtasks → ∀ t ∈ completions c order, t.2 = false := by
  refine ⟨_, rfl, by decide, ?_⟩
  intro order _ t ht
  have hrun := completions_eq (toInt16 (32768 : Nat)) 16384 ⟨3⟩ 0 order
  rw [show toInt16 (0 : Nat) = 0 from rfl] at hrun
  have ht' : t ∈ completions ⟨0, toInt16 (32768 : Nat), 16384, ⟨3⟩⟩ order := ht
  rw [hrun, mem_map] at ht'
  obtain ⟨u, _, rfl⟩ := ht'
  simp only [beq_eq_false_iff_ne]
  intro hdet
  exact ((detected_at_iff _ _).mp hdet).2 rfl

end PtoRuntime.Tmrb
