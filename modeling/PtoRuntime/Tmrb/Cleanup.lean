import PtoRuntime.Tmrb.Submissions

/-!
# Cleaning up the tensor map

`cleanup_retired` frees whole chains, without a look at the entries on them. That is right as
long as every chain holds the entries of one task, and `sync_tensormap` sees to this: before a
submission reuses the slot at `last_cleanup`, it cleans up. An id that `alloc_tensors` takes
does not pass through `sync_tensormap`, and if it is the id that reuses the slot, the test is
missed and the window of the chains slips.

Main results: `cleanup_frees_retired`, `cleanup_frees_unretired`.
-/

namespace PtoRuntime.Tmrb

open Lib Function

namespace Orchestrator

variable {c : Config} {s s' : Orchestrator}

/-- `alloc_tensors` does not take the slot that the next cleanup of the ring starts at, and the
watermark does not pass an id whose submission is in progress. -/
def CleanupGuard (c : Config) (s : Orchestrator) : Act → Prop
  | .allocTensors r => s.currentTaskIndex r < s.map.lastCleanup r + (c r).windowSize
  | .advance r n => n ≤ s.submitted r
  | .submit _ _ | .sync | .finish _ => True

instance : DecidableRel (CleanupGuard c) := fun _ act =>
  match act with
  | .allocTensors _ => inferInstanceAs (Decidable (_ < _))
  | .advance _ n => inferInstanceAs (Decidable (n ≤ _))
  | .submit _ _ | .sync | .finish _ => inferInstanceAs (Decidable True)

/-- The ids whose entries may be on the chains. -/
def InWindow (s : Orchestrator) (t : TaskId) : Prop :=
  s.map.lastCleanup t.ring ≤ t.loc ∧ t.loc < s.submitted t.ring

structure Windows (c : Config) (s : Orchestrator) : Prop where
  linked : TensorMap.Linked c s.map
  cleanup_le : ∀ r, s.map.lastCleanup r ≤ s.lastTaskAlive r
  alive_le : ∀ r, s.lastTaskAlive r ≤ s.submitted r
  window : ∀ r, s.submitted r ≤ s.map.lastCleanup r + (c r).windowSize
  allocated : ∀ t sub, s.pc = .allocated t sub →
    s.currentTaskIndex t.ring = t.loc + 1 ∧ t.loc < s.lastTaskAlive t.ring + (c t.ring).windowSize
  synced : ∀ t sub, s.pc = .synced t sub →
    s.currentTaskIndex t.ring = t.loc + 1 ∧
      t.loc < s.map.lastCleanup t.ring + (c t.ring).windowSize
  producers : s.map.Producers s.InWindow
  cleaned : ∀ f ∈ s.cleaned, f.producer.ring = f.ring ∧ f.producer.loc < f.lastTaskAlive

namespace Windows

/-- Two tasks of the window that share a slot are one. -/
theorem eq_of_slot_eq (h : Windows c s) {t t' : TaskId} (ht : s.InWindow t) (ht' : s.InWindow t')
    (hslot : c.slot t = c.slot t') : t = t' := by
  obtain ⟨r, n⟩ := t
  obtain ⟨r', n'⟩ := t'
  rw [c.slot_eq, c.slot_eq, SlotRef.mk.injEq] at hslot
  obtain ⟨hr, hmod⟩ := hslot
  dsimp only at hr hmod
  subst hr
  have hw := h.window r
  unfold InWindow at ht ht'
  dsimp only at ht ht'
  rw [TaskId.mk.injEq]
  exact ⟨rfl, eq_of_mod_eq hmod (by omega) (by omega)⟩

/-- The chain of a slot in the window holds the entries of the task there. -/
theorem producer_eq (h : Windows c s) {t : TaskId} {e : Nat} (ht : s.InWindow t)
    (he : e ∈ s.map.taskEntryHeads (c.slot t)) : (s.map.entries e).producer = t :=
  h.eq_of_slot_eq (h.producers _ e he) ht (h.linked.chain_slot _ e he)

theorem init : Windows c init where
  linked := TensorMap.linked_init
  cleanup_le _ := le_rfl
  alive_le _ := le_rfl
  window _ := Nat.zero_le _
  allocated _ _ h := by cases h
  synced _ _ h := by cases h
  producers _ _ h := by cases h
  cleaned _ h := by cases h

end Windows

/-! ## The synchronisation -/

section Sync

variable {t : TaskId} {sub : Submission}

theorem submitted_of_allocated (hpc : s.pc = .allocated t sub) (r : Nat) :
    s.submitted r = if t.ring = r then t.loc else s.currentTaskIndex r := by
  rw [submitted, hpc]

theorem submitted_of_synced (hpc : s.pc = .synced t sub) (r : Nat) :
    s.submitted r = if t.ring = r then t.loc else s.currentTaskIndex r := by
  rw [submitted, hpc]

theorem submitted_sync (hpc : s.pc = .allocated t sub) (r : Nat) :
    (s.sync c t sub).submitted r = s.submitted r := by
  rw [submitted_of_allocated hpc]
  rfl

/-- A cleanup starts at `last_cleanup` and ends at the watermark: it frees the entries of
retired tasks, and it frees all of them. -/
theorem Windows.mem_syncCleaned (h : Windows c s)
    (hdue : s.map.cleanupDue c t (s.lastTaskAlive t.ring)) {k : SlotRef} {e : Nat}
    (he : e ∈ s.map.taskEntryHeads k) :
    e ∈ s.map.syncCleaned c t (s.lastTaskAlive t.ring) ↔
      (s.map.entries e).producer.ring = t.ring ∧
        (s.map.entries e).producer.loc < s.lastTaskAlive t.ring := by
  have hwin := h.producers k e he
  have hslot := h.linked.chain_slot k e he
  have hle := h.cleanup_le t.ring
  have halive := h.alive_le t.ring
  rw [TensorMap.syncCleaned, if_pos hdue, TensorMap.mem_cleaned h.linked]
  constructor
  · rintro ⟨j, hj, hej⟩
    have hin : s.InWindow ⟨t.ring, s.map.lastCleanup t.ring + j⟩ :=
      ⟨Nat.le_add_right _ _, show _ + j < s.submitted t.ring by omega⟩
    rw [h.producer_eq hin hej]
    exact ⟨rfl, show _ + j < _ by omega⟩
  · rintro ⟨hring, hlt⟩
    unfold InWindow at hwin
    rw [hring] at hwin
    refine ⟨(s.map.entries e).producer.loc - s.map.lastCleanup t.ring, by omega, ?_⟩
    rw [Nat.add_sub_cancel' hwin.1, ← hring]
    exact hslot ▸ he

theorem Windows.sync (h : Windows c s) (hpc : s.pc = .allocated t sub) :
    Windows c (s.sync c t sub) := by
  obtain ⟨hlinked, hentries, hheads, -, hcleanup⟩ :=
    TensorMap.syncTensormap_spec h.linked t (s.lastTaskAlive t.ring)
  obtain ⟨hidx, hroom⟩ := h.allocated t sub hpc
  have hsub := submitted_sync (c := c) hpc
  have hsubt : s.submitted t.ring = t.loc := by rw [submitted_of_allocated hpc, if_pos rfl]
  -- `last_cleanup` moves up to the watermark of the ring or stays
  have hL (r : Nat) : (s.sync c t sub).map.lastCleanup r =
      if s.map.cleanupDue c t (s.lastTaskAlive t.ring) ∧ r = t.ring then s.lastTaskAlive r
      else s.map.lastCleanup r := by
    have : (s.sync c t sub).map.lastCleanup r = _ := congrFun hcleanup r
    rw [this]
    by_cases hdue : s.map.cleanupDue c t (s.lastTaskAlive t.ring)
    · by_cases hr : r = t.ring
      · subst hr
        simp [hdue]
      · simp [hdue, hr]
    · simp [hdue]
  have hmono (r : Nat) : s.map.lastCleanup r ≤ (s.sync c t sub).map.lastCleanup r ∧
      (s.sync c t sub).map.lastCleanup r ≤ s.lastTaskAlive r := by
    have := h.cleanup_le r
    rw [hL]
    split <;> omega
  refine ⟨hlinked, fun r => (hmono r).2, fun r => ?_, fun r => ?_, nofun, fun t' sub' hpc' => ?_,
    fun k e he => ?_, fun f hf => ?_⟩
  · rw [hsub]
    exact h.alive_le r
  · rw [hsub]
    have := h.window r
    have := (hmono r).1
    omega
  · -- if the slot at `last_cleanup` is reused, a cleanup was due
    cases hpc'
    refine ⟨hidx, ?_⟩
    rw [hL]
    split_ifs with hnot
    · exact hroom
    · have hw := h.window t.ring
      rw [hsubt] at hw
      refine Nat.lt_of_le_of_ne hw fun heq => hnot ⟨.inr ?_, rfl⟩
      rw [c.slot_eq, c.slot_eq, heq, Nat.add_mod_right]
  · obtain ⟨he, hnot⟩ := (hheads k e).mp he
    have hwin := h.producers k e he
    have hent : (s.sync c t sub).map.entries = s.map.entries := hentries
    rw [hent]
    unfold InWindow at hwin ⊢
    rw [hsub, hL]
    refine ⟨?_, hwin.2⟩
    split_ifs with hdue
    · rw [h.mem_syncCleaned hdue.1 he, not_and, not_lt] at hnot
      rw [hdue.2]
      exact hnot hdue.2
    · exact hwin.1
  · rcases List.mem_append.mp hf with hf | hf
    · obtain ⟨e, he, rfl⟩ := List.mem_map.mp hf
      by_cases hdue : s.map.cleanupDue c t (s.lastTaskAlive t.ring)
      · have hlive : ∃ k, e ∈ s.map.taskEntryHeads k := by
          rw [TensorMap.syncCleaned, if_pos hdue, TensorMap.mem_cleaned h.linked] at he
          obtain ⟨j, -, hej⟩ := he
          exact ⟨_, hej⟩
        obtain ⟨k, hk⟩ := hlive
        exact (h.mem_syncCleaned hdue hk).mp he
      · rw [TensorMap.syncCleaned, if_neg hdue] at he
        cases he
    · exact h.cleaned f hf

end Sync

/-! ## The other steps -/

/-- The map after STEP 3. -/
theorem removes_collect (h : TensorMap.Linked c s.map) (sub : Submission) (space : Nat) :
    ∃ l, TensorMap.Removes c s.map l (s.collect c sub space).1.1 := by
  unfold collect
  split
  · exact ⟨[], .refl _⟩
  · split
    · exact ⟨[], .refl _⟩
    · exact TensorMap.removes_computeTaskFanin h _ _

/-- The end of a submission: whatever is on the chains now was there before or is the
task's own. -/
theorem Windows.finish (h : Windows c s) {t : TaskId} {sub : Submission} {m : TensorMap}
    (hpc : s.pc = .synced t sub) (hlinked : TensorMap.Linked c m)
    (hproducers : m.Producers fun t' => s.InWindow t' ∨ t' = t)
    (hcleanup : m.lastCleanup = s.map.lastCleanup) (fatal : Bool) (fanin : TaskId → List SlotRef) :
    Windows c { s with map := m, pc := .idle, fatal := fatal, fanin := fanin } := by
  obtain ⟨hidx, hroom⟩ := h.synced t sub hpc
  have hsub (r : Nat) : s.submitted r ≤ s.currentTaskIndex r := by
    rw [submitted_of_synced hpc]
    split_ifs with hr
    · subst hr
      omega
    · exact le_rfl
  have hidle (r : Nat) :
      s.currentTaskIndex r ≤ s.map.lastCleanup r + (c r).windowSize := by
    by_cases hr : t.ring = r
    · subst hr
      omega
    · have := h.window r
      rwa [submitted_of_synced hpc, if_neg hr] at this
  refine ⟨hlinked, fun r => ?_, fun r => (h.alive_le r).trans (hsub r), fun r => ?_, nofun, nofun,
    fun k e he => ?_, h.cleaned⟩
  · exact hcleanup ▸ h.cleanup_le r
  · exact hcleanup ▸ hidle r
  · show m.lastCleanup _ ≤ _ ∧ _ < s.currentTaskIndex _
    rw [hcleanup]
    rcases hproducers k e he with hin | heq
    · exact ⟨hin.1, hin.2.trans_le (hsub _)⟩
    · have hle := h.cleanup_le t.ring
      have halive := h.alive_le t.ring
      rw [submitted_of_synced hpc, if_pos rfl] at halive
      rw [heq]
      omega

theorem Windows.move {act : Act} (h : Windows c s) (hm : Move c s act s')
    (hok : CleanupGuard c s act) : Windows c s' := by
  cases hm with
  | submit r sub hpc halloc =>
    -- the id that is taken is in progress: `submitted` is as before
    have hsub (r' : Nat) : (s.takeId r (.allocated ⟨r, s.currentTaskIndex r⟩ sub)).submitted r' =
        s.submitted r' := by
      simp only [submitted, hpc, takeId, update_apply]
      split <;> grind -ring -linarith
    refine ⟨h.linked, h.cleanup_le, fun r' => ?_, fun r' => ?_, fun t' sub' hpc' => ?_, nofun,
      fun k e he => ?_, h.cleaned⟩
    · rw [hsub]
      exact h.alive_le r'
    · rw [hsub]
      exact h.window r'
    · cases hpc'
      unfold CanAlloc at halloc
      refine ⟨update_self .., ?_⟩
      show s.currentTaskIndex r < s.lastTaskAlive r + (c r).windowSize
      omega
    · unfold InWindow
      rw [hsub]
      exact h.producers k e he
  | sync t sub hpc => exact h.sync hpc
  | fail t sub space m b hpc hcollect =>
    obtain ⟨l, hl⟩ := removes_collect h.linked sub space
    rw [hcollect] at hl
    exact h.finish hpc (hl.linked h.linked)
      (fun k e he => .inl (h.producers.removes hl k e he)) hl.2.2.lastCleanup true s.fanin
  | finish t sub space m m' b hpc hcollect hreg =>
    obtain ⟨l, hl⟩ := removes_collect h.linked sub space
    rw [hcollect] at hl
    have hm : m.Producers fun t' => s.InWindow t' ∨ t' = t :=
      fun k e he => .inl (h.producers.removes hl k e he)
    have hcleanup : m.lastCleanup = s.map.lastCleanup := hl.2.2.lastCleanup
    unfold register at hreg
    split at hreg
    · cases hreg
      exact h.finish hpc (hl.linked h.linked) hm hcleanup s.fatal _
    · obtain ⟨hlinked, hproducers, -, hcleanup'⟩ :=
        TensorMap.registerTaskOutputs_spec (hl.linked h.linked) hm (.inr rfl) hreg
      exact h.finish hpc hlinked hproducers (hcleanup'.trans hcleanup) s.fatal _
  | allocTensors r hpc halloc =>
    have hsub (r' : Nat) : s.submitted r' ≤ (s.takeId r .idle).submitted r' := by
      simp only [submitted, hpc, takeId, update_apply]
      split <;> grind -ring -linarith
    refine ⟨h.linked, h.cleanup_le, fun r' => (h.alive_le r').trans (hsub r'), fun r' => ?_, nofun,
      nofun, fun k e he => ?_, h.cleaned⟩
    · have hw := h.window r'
      have hok : s.currentTaskIndex r < s.map.lastCleanup r + _ := hok
      simp only [submitted, hpc, takeId, update_apply] at hw ⊢
      split_ifs with hr
      · subst hr
        exact hok
      · exact hw
    · obtain ⟨hlo, hhi⟩ := h.producers k e he
      exact ⟨hlo, hhi.trans_le (hsub _)⟩
  | advance r n hle hn =>
    have hmono (r' : Nat) : s.lastTaskAlive r' ≤ update s.lastTaskAlive r n r' ∧
        update s.lastTaskAlive r n r' ≤ s.submitted r' := by
      rw [update_apply]
      split_ifs with hr
      · subst hr
        exact ⟨hle, hok⟩
      · exact ⟨le_rfl, h.alive_le r'⟩
    refine ⟨h.linked, fun r' => (h.cleanup_le r').trans (hmono r').1, fun r' => (hmono r').2,
      h.window, fun t sub hpc => ?_, h.synced, h.producers, h.cleaned⟩
    obtain ⟨hidx, hroom⟩ := h.allocated t sub hpc
    exact ⟨hidx, hroom.trans_le (Nat.add_le_add_right (hmono _).1 _)⟩

/-- **Cleanups free the entries of retired tasks.** In every execution in which no
`alloc_tensors` takes the slot at `last_cleanup` again and the watermark passes submitted
tasks only, an entry freed by `cleanup_retired` belongs to a task of the ring below the
watermark, and every chain links the entries of one task. -/
theorem cleanup_frees_retired (c : Config) (h : Reach (step c) (CleanupGuard c) init s) :
    (∀ f ∈ s.cleaned, f.producer.ring = f.ring ∧ f.producer.loc < f.lastTaskAlive) ∧
      ∀ k, ∃ t, ∀ e ∈ s.map.taskEntryHeads k, (s.map.entries e).producer = t := by
  have hw : Windows c s := h.invariant .init fun _ _ _ _ ih hok hst => ih.move (step_cases hst) hok
  refine ⟨hw.cleaned, fun k => ?_⟩
  cases hk : s.map.taskEntryHeads k with
  | nil => exact ⟨⟨0, 0⟩, nofun⟩
  | cons e rest =>
    have hmem : e ∈ s.map.taskEntryHeads k := hk ▸ List.mem_cons_self
    refine ⟨(s.map.entries e).producer, fun e' he' => ?_⟩
    have hmem' : e' ∈ s.map.taskEntryHeads k := hk ▸ he'
    refine hw.eq_of_slot_eq (hw.producers k e' hmem') (hw.producers k e hmem) ?_
    rw [hw.linked.chain_slot k e' hmem', hw.linked.chain_slot k e hmem]

/-- A buffer of 64 elements. -/
def buffer : Tensor := ⟨4096, 256, none, 0, 0, .float32, false, true, [64], 64, [1]⟩

/-- A submission on ring 0 that registers the buffer, up to its return. -/
def writeTask : List Act :=
  [.submit 0 ⟨⟨[.outputExisting buffer], by decide⟩, [], false⟩, .sync, .finish 16]

/-- Five writes; the last one takes the slot of the first. -/
def reuseSlot : List Act :=
  writeTask ++ writeTask ++ writeTask ++ [Act.advance 0 1] ++ writeTask ++
    [Act.advance 0 2] ++ writeTask

theorem cleanup_frees_retired_reuseSlot :
    ∃ s, Reach (step smallRings) (CleanupGuard smallRings) init s ∧
      (∃ f ∈ s.cleaned, f.producer = ⟨0, 0⟩) ∧
      (∀ f ∈ s.cleaned, f.producer.ring = f.ring ∧ f.producer.loc < f.lastTaskAlive) ∧
      ∀ k, ∃ t, ∀ e ∈ s.map.taskEntryHeads k, (s.map.entries e).producer = t := by
  refine Reach.exists_of_run_imp (P := fun s => ∃ f ∈ s.cleaned, f.producer = ⟨0, 0⟩) reuseSlot
    (by decide +kernel) fun s hs hf => ?_
  exact ⟨hf, cleanup_frees_retired smallRings hs⟩

/-- Task 4, which would take the slot of task 0 again, is an `alloc_tensors`. -/
def skipCleanup : List Act :=
  writeTask ++ writeTask ++ writeTask ++ [Act.advance 0 1] ++ writeTask ++
    [Act.advance 0 2, .allocTensors 0, .advance 0 3] ++ writeTask ++ [Act.advance 0 4] ++ writeTask

/-- No cleanup is due before task 8. The chain of slot 2 then holds entries of tasks 2 and 6, and
the cleanup of the tasks up to 5 frees both. -/
theorem cleanup_frees_unretired :
    (∃ s, Reach (step smallRings) free init s ∧
      (s.map.taskEntryHeads ⟨0, 2⟩).map (fun e => (s.map.entries e).producer) = [⟨0, 6⟩, ⟨0, 2⟩]) ∧
    ∃ s, Reach (step smallRings) free init s ∧
      ∃ f ∈ s.cleaned, f.producer = ⟨0, 6⟩ ∧ f.ring = 0 ∧ f.lastTaskAlive = 6 :=
  ⟨Reach.exists_of_run skipCleanup (by decide +kernel),
    Reach.exists_of_run (skipCleanup ++ [.advance 0 5] ++ writeTask ++ [.advance 0 6] ++ writeTask)
      (by decide +kernel)⟩

end Orchestrator

end PtoRuntime.Tmrb
