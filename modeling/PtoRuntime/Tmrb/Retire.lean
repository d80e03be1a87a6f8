import PtoRuntime.Tmrb.Rings

/-!
# Retirement

`advance_ring_pointers` moves the watermark of a ring past every slot it finds CONSUMED,
up to the published index. A slot keeps its CONSUMED value when it is reset for reuse, and
`commit_task` publishes an id before `prepare_task` stores PENDING into its slot. In that
window the scan reads the value that the former occupant left there.

A thread that has moved a slot to CONSUMED tries to take the ring's lock and returns when
another thread holds it. The comment in `check_and_handle_consumed` says that the holder
will find the slot. It does not when its scan is over, or when it has loaded the published
index before the slot was submitted.

Each result is about the runs in which no step falls into such a window.

Main results: `retired_after_consumed`, `watermark_passes_published`,
`watermark_absorbs_consumed`, `advance_lost`.
-/

namespace PtoRuntime.Tmrb

open Lib Function List

/-- The ring that a thread runs `check_and_handle_consumed` on. -/
def ThreadPc.checking? : ThreadPc → Option Nat
  | .loadRefcount slot _ | .loadCount slot _ _ | .cas slot _ => some slot.ring
  | .tryLock t _ => some t.ring
  | .loadIndex ring _ | .scan ring _ _ _ | .reset ring _ _ _ | .sync ring _ | .unlock ring _ =>
    some ring
  | .idle | .next _ | .add _ _ _ => none

variable {r ring m : Nat} {a : Agent} {k : Cont} {t : TaskId}

namespace State

variable {c : Config} {s s' : State}

/-! ## The watermark against consumption -/

/-- The scan does not pass a slot between `commit_task` and the PENDING store. -/
def RetireGuard (c : Config) (s : State) : Act → Prop
  | .thread a =>
    match s.thread a with
    | .scan ring _ index _ =>
      s.lastTaskAlive ring < index →
        s.wiring.taskState (c.slot ⟨ring, s.lastTaskAlive ring⟩) = .consumed →
          s.orch.storing? ≠ some ⟨ring, s.lastTaskAlive ring⟩
    | _ => True
  | _ => True

instance (c : Config) : DecidableRel (RetireGuard c) := fun s act => by
  unfold RetireGuard
  split
  · split <;> infer_instance
  · infer_instance

/-- Every id below the watermark has been consumed. -/
def Retired (s : State) : Prop := ∀ r n, n < s.lastTaskAlive r → s.consumed ⟨r, n⟩ = true

theorem Retired.mono (h : Retired s) (halive : s'.lastTaskAlive = s.lastTaskAlive)
    (hconsumed : ∀ t, s.consumed t = true → s'.consumed t = true) : Retired s' :=
  fun r n hn => hconsumed _ (h r n (halive ▸ hn))

theorem Rings.lt_prepared_of_ne (h : Rings c s) {n : Nat} (hn : n < s.currentTaskIndex r)
    (hne : s.orch.storing? ≠ some ⟨r, n⟩) : n < s.prepared r := by
  unfold prepared
  split
  · rename_i t ht
    have hidx := h.storing t ht
    split_ifs with hr
    · subst hr
      -- the published id itself is the one excluded
      have : n ≠ t.loc := by
        rintro rfl
        exact hne ht
      omega
    · exact hn
  · exact hn

/-- The passed task is consumed. -/
theorem Retired.passSlot (h : Retired s) (hr : Rings c s)
    (hlt : s.lastTaskAlive ring < s.currentTaskIndex ring)
    (hstate : s.wiring.taskState (c.slot ⟨ring, s.lastTaskAlive ring⟩) = .consumed)
    (hne : s.orch.storing? ≠ some ⟨ring, s.lastTaskAlive ring⟩) : Retired (s.passSlot ring) := by
  have hholds : s.Holds c ⟨ring, s.lastTaskAlive ring⟩ :=
    hr.holds le_rfl (hr.lt_prepared_of_ne hlt hne)
  have hconsumed := hr.consumed _ hstate
  rw [hholds.task_cur] at hconsumed
  intro r n hn
  have hn : n < update s.lastTaskAlive ring (s.lastTaskAlive ring + 1) r := hn
  by_cases hring : r = ring
  · subst hring
    rw [update_self] at hn
    obtain hlt | rfl : n < s.lastTaskAlive r ∨ n = s.lastTaskAlive r := by omega
    · exact h r n hlt
    · exact hconsumed
  · rw [update_of_ne hring] at hn
    exact h r n hn

/-- A step of a scheduler thread. -/
theorem retired_threadMove (h : Retired s) (hr : Rings c s) (hok : RetireGuard c s (.thread a))
    (hm : ThreadMove c s a s') : Retired s' := by
  cases hm with
  | passSlot ring old index k hpc hlt hstate =>
    rw [RetireGuard, hpc] at hok
    exact h.passSlot hr (lt_of_lt_of_le hlt (hr.scanning a ring old index k hpc)) hstate
      (hok hlt hstate)
  | consumeSlot slot k hpc =>
    refine h.mono rfl fun t ht => ?_
    simp only [State.consumeSlot, update_apply]
    split
    · rfl
    · exact ht
  | _ => exact h.mono rfl fun _ => id

/-- One guarded step. -/
theorem retired_move {act : Act} (h : Retired s) (hr : Rings c s) (hok : RetireGuard c s act)
    (hm : Move c s act s') : Retired s' := by
  cases hm with
  | thread hm => exact retired_threadMove h hr hok hm
  | orch hm => cases hm <;> exact h.mono rfl fun _ => id
  | _ => exact h.mono rfl fun _ => id

/--
**Retirement.** In every run in which no scan passes a slot in the publish window, the
watermark of a ring, and with it the published one, is above an id only if the submission
with this id has been moved to CONSUMED.
-/
theorem retired_after_consumed (c : Config) (h : Reach (step c) (RetireGuard c) init s) (r : Nat) :
    s.smLastTaskAlive r ≤ s.lastTaskAlive r ∧
      ∀ n, n < s.lastTaskAlive r → s.consumed ⟨r, n⟩ = true := by
  refine ⟨(rings_reach h).sm_le r, ?_⟩
  have hret : Retired s :=
    h.invariant (fun _ _ hn => absurd hn (Nat.not_lt_zero _)) fun _ _ _ hreach ih hok hs =>
      retired_move ih (rings_reach hreach) hok (step_cases hs)
  exact hret r

/-- An `alloc_tensors` call, up to its return. -/
def hiddenTask : List Act := .allocTensors :: replicate 4 .orch

/-- A `submit_task` call without producers, up to its return. -/
def plainTask : List Act := .submitTask :: replicate 7 .orch

/-- One hidden task, consumed and passed by the end of its scope. -/
def retireHidden : List Act :=
  [Act.beginScope] ++ hiddenTask ++ [Act.endScope] ++ replicate 15 (Act.thread .orch)

/-- A hidden task is retired. -/
theorem retired_after_consumed_retireHidden :
    ∃ s, Reach (step smallRings) (RetireGuard smallRings) init s ∧ 0 < s.lastTaskAlive 0 ∧
      s.consumed ⟨0, 0⟩ = true := by
  refine Reach.exists_of_run_imp (P := fun s => 0 < s.lastTaskAlive 0) retireHidden
    (by decide +kernel) fun s hs hlt => ?_
  exact ⟨hlt, (retired_after_consumed smallRings hs 0).2 0 hlt⟩

/-- Tasks 0 to 3 have been consumed. A scheduler thread is inside the scan of ring 0 with
the watermark at 3 when the orchestrator publishes id 4, whose slot is still CONSUMED. -/
def publishDuringScan : List Act :=
  [Act.beginScope] ++ hiddenTask ++ hiddenTask ++ hiddenTask ++ [Act.endScope] ++
    replicate 43 (Act.thread .orch) ++
  [Act.beginScope] ++ plainTask ++ [Act.endScope] ++ replicate 6 (Act.thread .orch) ++
  [Act.wire, .wire, .wire, .complete ⟨0, 3⟩, .notify (⟨0, 3⟩, 1), .startRelease 0 ⟨0, 3⟩] ++
    replicate 5 (Act.thread (.sched 0)) ++
  [Act.beginScope, .submitTask, .orch, .orch] ++ replicate 3 (Act.thread (.sched 0))

theorem watermark_passes_published :
    ∃ s, Reach (step smallRings) free init s ∧ 4 < s.lastTaskAlive 0 ∧
      s.consumed ⟨0, 4⟩ = false :=
  Reach.exists_of_run publishDuringScan (by decide +kernel)

/-! ## The watermark when the checks have returned -/

/-- What the holder of the lock still does for a task that has just been consumed: its scan
will get as far as the task unless it stops before, or it has stopped before already. -/
def Takes (s : State) (t : TaskId) : ThreadPc → Prop
  | .scan _ _ index _ => t.loc < index
  | .reset _ _ _ _ | .sync _ _ | .unlock _ _ => t.loc ≠ s.lastTaskAlive t.ring
  | _ => True

/-- A thread that loses the try-lock leaves its task to a holder that takes it. -/
def AdvanceGuard (s : State) : Act → Prop
  | .thread a =>
    match s.thread a with
    | .tryLock t _ => ∀ b ∈ s.advanceLock t.ring, s.Takes t (s.thread b)
    | _ => True
  | _ => True

instance (s : State) (t : TaskId) (pc : ThreadPc) : Decidable (s.Takes t pc) := by
  unfold Takes
  split <;> infer_instance

instance : DecidableRel AdvanceGuard := fun s act => by
  unfold AdvanceGuard
  split
  · split <;> infer_instance
  · infer_instance

/-- Why a consumed task at or above the watermark is not lost. -/
inductive Pending (s : State) (r m : Nat) : Prop
  -- the thread that consumed it tries to take the lock
  | tryLock (a : Agent) (k : Cont) : s.thread a = .tryLock ⟨r, m⟩ k → Pending s r m
  -- the scan of the lock's holder will get to it, or stop before
  | loadIndex (a : Agent) (k : Cont) : s.thread a = .loadIndex r k → Pending s r m
  | scan (a : Agent) (old index : Nat) (k : Cont) : s.thread a = .scan r old index k →
      m < index → Pending s r m
  -- it lies behind a task that has not been consumed
  | behind : s.lastTaskAlive r < m → (∀ a old index k, s.thread a ≠ .scan r old index k) →
      Pending s r m

/-- Consumed tasks at or above the watermark. -/
def Waits (c : Config) (s : State) (r m : Nat) : Prop :=
  s.lastTaskAlive r ≤ m ∧ s.Holds c ⟨r, m⟩ ∧ s.wiring.taskState (c.slot ⟨r, m⟩) = .consumed

/-- No consumed task is lost. -/
def Covered (c : Config) (s : State) : Prop := ∀ r m, Waits c s r m → Pending s r m

theorem Waits.of_eq (h : Waits c s' r m) (halive : s'.lastTaskAlive = s.lastTaskAlive)
    (hgen : s'.wiring.gen = s.wiring.gen)
    (hstate : ∀ k, s'.wiring.taskState k = .consumed → s.wiring.taskState k = .consumed) :
    Waits c s r m := by
  obtain ⟨hle, hholds, hcons⟩ := h
  refine ⟨halive ▸ hle, ?_, hstate _ hcons⟩
  rw [Holds, hgen] at hholds
  exact hholds

theorem Pending.of_eq (h : Pending s r m) (halive : s'.lastTaskAlive = s.lastTaskAlive)
    (hthread : s'.thread = s.thread) : Pending s' r m := by
  cases h with
  | tryLock b k hb => exact .tryLock b k (hthread ▸ hb)
  | loadIndex b k hb => exact .loadIndex b k (hthread ▸ hb)
  | scan b old index k hb hlt => exact .scan b old index k (hthread ▸ hb) hlt
  | behind hlt hno => exact .behind (halive ▸ hlt) (hthread ▸ hno)

/-- Thread `a` moves to `pc`: what it was doing for the task before is to be accounted for. -/
theorem Pending.move (h : Pending s r m) {pc pc' : ThreadPc} (hpc : s.thread a = pc)
    (halive : s'.lastTaskAlive = s.lastTaskAlive)
    (hthread : s'.thread = update s.thread a pc')
    (hscan : ∀ old index k, pc' ≠ .scan r old index k)
    (htry : ∀ k, pc = .tryLock ⟨r, m⟩ k → Pending s' r m)
    (hload : ∀ k, pc = .loadIndex r k → Pending s' r m)
    (hstop : ∀ old index k, pc = .scan r old index k → m < index → Pending s' r m) :
    Pending s' r m := by
  subst hpc
  have hother {b : Agent} (hb : b ≠ a) : s'.thread b = s.thread b := by
    rw [hthread, update_of_ne hb]
  cases h with
  | tryLock b k hb =>
    by_cases hab : b = a
    · exact htry k (hab ▸ hb)
    · exact .tryLock b k ((hother hab).trans hb)
  | loadIndex b k hb =>
    by_cases hab : b = a
    · exact hload k (hab ▸ hb)
    · exact .loadIndex b k ((hother hab).trans hb)
  | scan b old index k hb hlt =>
    by_cases hab : b = a
    · exact hstop old index k (hab ▸ hb) hlt
    · exact .scan b old index k ((hother hab).trans hb) hlt
  | behind hlt hno =>
    refine .behind (halive ▸ hlt) fun b old index k => ?_
    by_cases hab : b = a
    · rw [hab, hthread, update_self]
      exact hscan old index k
    · rw [hother hab]
      exact hno b old index k

namespace Covered

/-- Moves outside the ring lock. -/
theorem idle (h : Covered c s) (halive : s'.lastTaskAlive = s.lastTaskAlive)
    (hgen : s'.wiring.gen = s.wiring.gen)
    (hstate : ∀ k, s'.wiring.taskState k = .consumed → s.wiring.taskState k = .consumed)
    (hthread : s'.thread = s.thread) : Covered c s' := fun r m hw =>
  (h r m (hw.of_eq halive hgen hstate)).of_eq halive hthread

/-- Moves of a thread that is not about to lock, load the index or scan. -/
theorem thread (h : Covered c s) {pc pc' : ThreadPc} (hpc : s.thread a = pc)
    (halive : s'.lastTaskAlive = s.lastTaskAlive) (hgen : s'.wiring.gen = s.wiring.gen)
    (hstate : ∀ k, s'.wiring.taskState k = .consumed → s.wiring.taskState k = .consumed)
    (hthread : s'.thread = update s.thread a pc')
    (hscan : ∀ r old index k, pc' ≠ .scan r old index k) (htry : ∀ t k, pc ≠ .tryLock t k)
    (hload : ∀ r k, pc ≠ .loadIndex r k) (hstop : ∀ r old index k, pc ≠ .scan r old index k) :
    Covered c s' := by
  intro r m hw
  exact (h r m (hw.of_eq halive hgen hstate)).move hpc halive hthread (hscan r)
    (fun k hk => absurd hk (htry _ k)) (fun k hk => absurd hk (hload r k))
    fun old index k hk => absurd hk (hstop r old index k)

/-- A scan loses its task only to the slot it stops at. -/
theorem stopScan (h : Covered c s) (ht : Threads s) {old index : Nat}
    (hpc : s.thread a = .scan ring old index k) (hend : ¬ (s.lastTaskAlive ring < index ∧
      s.wiring.taskState (c.slot ⟨ring, s.lastTaskAlive ring⟩) = .consumed)) :
    Covered c (s.setThread a (.reset ring old false k)) := by
  intro r m hw
  have hw' : Waits c s r m := hw
  refine (h r m hw').move hpc rfl rfl nofun nofun nofun fun old' index' k' hk hlt => ?_
  · cases hk
    obtain ⟨hle, -, hcons⟩ := hw'
    have hne : s.lastTaskAlive ring ≠ m := by
      rintro rfl
      exact hend ⟨hlt, hcons⟩
    refine .behind (show s.lastTaskAlive ring < m by omega) fun b old₂ index₂ k₂ hb => ?_
    -- a second scan of the ring would hold the lock, too
    have hb : update s.thread a _ b = _ := hb
    by_cases hab : b = a
    · rw [hab, update_self] at hb
      cases hb
    · rw [update_of_ne hab] at hb
      exact hab (ht.holder_unique (r := ring) (by rw [hb]; rfl) (by rw [hpc]; rfl))

/-- The scan goes on. -/
theorem passSlot (h : Covered c s) {old index : Nat} (hpc : s.thread a = .scan ring old index k) :
    Covered c (s.passSlot ring) := by
  rintro r m ⟨hle, hholds, hcons⟩
  have hmono : s.lastTaskAlive r ≤ (s.passSlot ring).lastTaskAlive r := by
    simp only [State.passSlot, update_apply]
    split_ifs with hr
    · subst hr
      omega
    · exact le_rfl
  cases h r m ⟨le_trans hmono hle, hholds, hcons⟩ with
  | tryLock b k hb => exact .tryLock b k hb
  | loadIndex b k hb => exact .loadIndex b k hb
  | scan b old index k hb hlt => exact .scan b old index k hb hlt
  | behind hlt hno =>
    have hr : r ≠ ring := by
      rintro rfl
      exact hno a old index k hpc
    refine .behind ?_ hno
    simpa [State.passSlot, hr] using hlt

/-- A scan begins. -/
theorem loadIndex (h : Covered c s) (hr : Rings c s) (hpc : s.thread a = .loadIndex ring k) :
    Covered c
      (s.setThread a (.scan ring (s.lastTaskAlive ring) (s.currentTaskIndex ring) k)) := by
  intro r m hw
  have hw' : Waits c s r m := hw
  by_cases hring : ring = r
  · -- the index is loaded after the task was published
    subst hring
    refine .scan a _ _ k (update_self ..) ?_
    exact lt_of_lt_of_le (hr.lt_prepared hw'.2.1) (hr.prepared_le ring)
  · refine (h r m hw').move hpc rfl rfl (fun _ _ _ he => ?_) nofun (fun _ hk => ?_) nofun
    · cases he
      exact hring rfl
    · cases hk
      exact absurd rfl hring

/-- Who takes the lock will scan. -/
theorem lockRing (h : Covered c s) (hpc : s.thread a = .tryLock t k) :
    Covered c (s.lockRing a t.ring k) := by
  intro r m hw
  by_cases hring : t.ring = r
  · exact .loadIndex a k (hring ▸ update_self ..)
  · refine (h r m hw).move hpc rfl rfl nofun (fun _ hk => ?_) nofun nofun
    cases hk
    exact absurd rfl hring

/-- The try-lock fails: the guard says what the holder does for the task. -/
theorem giveUp (h : Covered c s) (ht : Threads s) (hpc : s.thread a = .tryLock t k)
    (hheld : s.advanceLock t.ring ≠ none) (hok : AdvanceGuard s (.thread a)) :
    Covered c (s.setThread a k.resume) := by
  intro r m hw
  have hw' : Waits c s r m := hw
  refine (h r m hw').move hpc rfl rfl (fun _ _ _ => Cont.resume_ne_scan)
    (fun _ hk => ?_) nofun nofun
  · cases hk
    obtain ⟨b, hb⟩ := Option.ne_none_iff_exists'.mp hheld
    have hlocked : (s.thread b).locked? = some r := (ht.lock b r).mpr hb
    have hba : b ≠ a := by
      rintro rfl
      rw [hpc] at hlocked
      cases hlocked
    have hthread : (s.setThread a k.resume).thread b = s.thread b := update_of_ne hba ..
    have htakes : s.Takes ⟨r, m⟩ (s.thread b) := by
      rw [AdvanceGuard, hpc] at hok
      exact hok b hb
    -- the holder is in one of the five states of `advance_ring_pointers`
    have hpast (hne : ∀ old index k, s.thread b ≠ .scan r old index k)
        (hm : m ≠ s.lastTaskAlive r) : Pending (s.setThread a k.resume) r m := by
      have hle : s.lastTaskAlive r ≤ m := hw'.1
      refine .behind (show s.lastTaskAlive r < m by omega) fun d old index k' hd => ?_
      have hd : update s.thread a _ d = _ := hd
      by_cases hda : d = a
      · rw [hda, update_self] at hd
        exact Cont.resume_ne_scan hd
      · rw [update_of_ne hda] at hd
        obtain rfl := ht.holder_unique (by rw [hd]; rfl) hlocked
        exact hne old index k' hd
    cases hb' : s.thread b with
    | loadIndex ring k' =>
      rw [hb'] at hlocked
      cases hlocked
      exact .loadIndex b k' (hthread.trans hb')
    | scan ring old index k' =>
      rw [hb'] at hlocked htakes
      cases hlocked
      exact .scan b old index k' (hthread.trans hb') htakes
    | reset | sync | unlock =>
      rw [hb'] at htakes
      exact hpast (by rw [hb']; nofun) htakes
    | _ =>
      rw [hb'] at hlocked
      cases hlocked

/-- Who consumes will look at the ring. -/
theorem consumeSlot (h : Covered c s) {slot : SlotRef} (hpc : s.thread a = .cas slot k) :
    Covered c (s.consumeSlot c a slot k) := by
  rintro r m ⟨hle, hholds, hcons⟩
  have hholds : s.Holds c ⟨r, m⟩ := hholds
  by_cases hslot : c.slot ⟨r, m⟩ = slot
  · refine .tryLock a k ?_
    rw [← hholds.task_cur, hslot]
    exact update_self ..
  · have hcons' : s.wiring.taskState (c.slot ⟨r, m⟩) = .consumed := by
      simpa [State.consumeSlot, Wiring.consume, hslot] using hcons
    exact (h r m ⟨hle, hholds, hcons'⟩).move hpc rfl rfl (by simp) (by simp) (by simp) (by simp)

theorem storePending (h : Covered c s) {hidden : Bool} :
    Covered c (s.storePending c t hidden) := by
  rintro r m ⟨hle, hholds, hcons⟩
  have hne : c.slot ⟨r, m⟩ ≠ c.slot t := by
    intro he
    simp [State.storePending, Wiring.prepare, he] at hcons
  have hw : Waits c s r m :=
    ⟨hle, by simpa [Holds, State.storePending, Wiring.prepare, hne] using hholds,
      by simpa [State.storePending, Wiring.prepare, hne] using hcons⟩
  exact (h r m hw).of_eq rfl rfl

end Covered

/-- A step of a scheduler thread. -/
theorem covered_threadMove (h : Covered c s) (ht : Threads s) (hr : Rings c s)
    (hok : AdvanceGuard s (.thread a)) (hm : ThreadMove c s a s') : Covered c s' := by
  have hresume {k : Cont} (r old index : Nat) (k' : Cont) : k.resume ≠ .scan r old index k' :=
    Cont.resume_ne_scan
  cases hm with
  | consumeSlot slot k hpc => exact h.consumeSlot hpc
  | lockRing t k hpc => exact h.lockRing hpc
  | loadIndex ring k hpc => exact h.loadIndex hr hpc
  | passSlot ring old index k hpc => exact h.passSlot hpc
  | stopScan ring old index k hpc hend => exact h.stopScan ht hpc hend
  | «return» pc k hpc hk =>
    obtain ⟨slot, n, rfl⟩ | ⟨slot, rfl⟩ | ⟨t, rfl, hheld⟩ := hk
    · exact h.thread hpc rfl rfl (fun _ => id) rfl hresume nofun nofun nofun
    · exact h.thread hpc rfl rfl (fun _ => id) rfl hresume nofun nofun nofun
    · exact h.giveUp ht hpc hheld hok
  | unlockRing ring k hpc => exact h.thread hpc rfl rfl (fun _ => id) rfl hresume nofun nofun nofun
  | scopeDone hpc | scopeNext _ _ hpc | taskNext _ _ _ _ hpc | taskDone _ _ _ hpc
  | addRefcount _ _ _ hpc | loadRefcount _ _ hpc | loadCount _ _ _ hpc | resetFanin _ _ _ hpc
  | resetFanout _ _ _ hpc | resetDone _ _ _ hpc | syncToSm _ _ hpc =>
    exact h.thread hpc rfl rfl (fun _ => id) rfl nofun nofun nofun nofun

/-- One guarded step. -/
theorem covered_move {act : Act} (h : Covered c s) (ht : Threads s) (hr : Rings c s)
    (hok : AdvanceGuard s act) (hm : Move c s act s') : Covered c s' := by
  cases hm with
  | thread hm => exact covered_threadMove h ht hr hok hm
  | orch hm =>
    cases hm with
    | storePending => exact h.storePending
    | storeCompleted t =>
      refine h.idle rfl rfl (fun k hk => ?_) rfl
      exact Wiring.consumed_of_update_completed hk
    | endScope top rest hready =>
      have hidle : s.thread .orch = .idle := ht.idle (by rw [hready.1]; nofun)
      exact h.thread hidle rfl rfl (fun _ => id) rfl nofun nofun nofun nofun
    | _ => exact h.idle rfl rfl (fun _ => id) rfl
  | startRelease i x hi => exact h.thread hi rfl rfl (fun _ => id) rfl nofun nofun nofun nofun
  | wire w hw =>
    obtain ⟨hgen, hstate⟩ := Wiring.wireStep_frame hw
    exact h.idle rfl hgen (fun k hk => hstate ▸ hk) rfl
  | complete k => exact h.idle rfl rfl (fun k' hk => Wiring.consumed_of_update_completed hk) rfl
  | notify q w hw =>
    obtain ⟨hgen, hstate⟩ := Wiring.notifyStep_frame hw
    exact h.idle rfl hgen (fun k hk => hstate ▸ hk) rfl

/--
**No lost advance.** In every run in which a thread that loses the try-lock leaves its task
to a holder that takes it, when all the checks on a ring have returned the task at its
watermark has not been submitted or is not CONSUMED.
-/
theorem watermark_absorbs_consumed (c : Config) (h : Reach (step c) AdvanceGuard init s) (r : Nat)
    (hret : ∀ a, (s.thread a).checking? ≠ some r) :
    ¬ s.Holds c ⟨r, s.lastTaskAlive r⟩ ∨
      s.wiring.taskState (c.slot ⟨r, s.lastTaskAlive r⟩) ≠ .consumed := by
  have hcov : Covered c s :=
    h.invariant (fun _ _ ⟨_, _, hcons⟩ => (by cases hcons)) fun _ _ _ hreach ih hok hs =>
      covered_move ih (threads_reach hreach) (rings_reach hreach) hok (step_cases hs)
  by_contra hnot
  obtain ⟨hholds, hcons⟩ := not_or.mp hnot
  cases hcov r _ ⟨le_rfl, not_not.mp hholds, not_not.mp hcons⟩ with
  | tryLock a k ha => exact hret a (by rw [ha]; rfl)
  | loadIndex a k ha => exact hret a (by rw [ha]; rfl)
  | scan a old index k ha => exact hret a (by rw [ha]; rfl)
  | behind hlt => exact absurd hlt (lt_irrefl _)

/-- The watermark follows. -/
theorem watermark_absorbs_consumed_retireHidden :
    ∃ s, Reach (step smallRings) AdvanceGuard init s ∧ s.lastTaskAlive 0 = 1 ∧
      (¬ s.Holds smallRings ⟨0, s.lastTaskAlive 0⟩ ∨
        s.wiring.taskState (smallRings.slot ⟨0, s.lastTaskAlive 0⟩) ≠ .consumed) := by
  obtain ⟨s, hs, halive, hidle⟩ :
      ∃ s, Reach (step smallRings) (Among [.orch] AdvanceGuard) init s ∧ s.lastTaskAlive 0 = 1 ∧
        ∀ a ∈ [Agent.orch], s.thread a = .idle :=
    Reach.exists_of_run retireHidden (by decide +kernel)
  have hs' : Reach (step smallRings) AdvanceGuard init s := hs.weaken fun _ _ h => h.1
  refine ⟨s, hs', halive, watermark_absorbs_consumed smallRings hs' 0 fun a => ?_⟩
  rw [all_idle hs hidle a]
  nofun

/-- Tasks 0 and 1 have completed and their scope has ended. Thread 0 consumes task 0 and
stops its scan at task 1; thread 1 consumes task 1, finds the lock taken and returns; then
thread 0 returns. -/
def loseDuringReset : List Act :=
  [Act.beginScope] ++ plainTask ++ plainTask ++ [Act.endScope] ++ replicate 11 (Act.thread .orch) ++
    replicate 6 Act.wire ++
  [Act.complete ⟨0, 0⟩, .complete ⟨0, 1⟩, .notify (⟨0, 0⟩, 1), .notify (⟨0, 1⟩, 1),
    .startRelease 0 ⟨0, 0⟩, .startRelease 1 ⟨0, 1⟩] ++
  replicate 8 (Act.thread (.sched 0)) ++ replicate 5 (Act.thread (.sched 1)) ++
    replicate 5 (Act.thread (.sched 0))

/-- Nobody advances any more. -/
theorem advance_lost :
    ∃ s, Reach (step smallRings) free init s ∧ (∀ a, s.thread a = .idle) ∧
      s.lastTaskAlive 0 = 1 ∧ s.Holds smallRings ⟨0, 1⟩ ∧
      s.wiring.taskState (smallRings.slot ⟨0, 1⟩) = .consumed := by
  obtain ⟨s, hs, hidle, hrest⟩ :
      ∃ s, Reach (step smallRings) (Among [.orch, .sched 0, .sched 1] free) init s ∧
        (∀ a ∈ [Agent.orch, .sched 0, .sched 1], s.thread a = .idle) ∧ s.lastTaskAlive 0 = 1 ∧
        s.Holds smallRings ⟨0, 1⟩ ∧ s.wiring.taskState (smallRings.slot ⟨0, 1⟩) = .consumed :=
    Reach.exists_of_run loseDuringReset (by decide +kernel)
  exact ⟨s, hs.toFree, all_idle hs hidle, hrest⟩

/-! ## Whatever the interleaving -/

variable {ok : State → Act → Prop}

/-- Two tasks of a ring that are not retired never share a slot. -/
theorem live_slots_distinct (h : Reach (step c) ok init s) {n : Nat}
    (hn : s.smLastTaskAlive r ≤ n) (hlt : n < m) (hm : m < s.currentTaskIndex r) :
    c.slot ⟨r, n⟩ ≠ c.slot ⟨r, m⟩ := by
  intro he
  simp only [Config.slot_eq, SlotRef.mk.injEq] at he
  have hmod : n ≡ m [MOD (c r).windowSize] := he.2
  have hle := Nat.le_of_dvd (by omega) ((Nat.modEq_iff_dvd' hlt.le).mp hmod)
  have hw := (rings_reach h).window r
  omega

theorem live_slots_distinct_hidden : ∃ s, Reach (step smallRings) free init s ∧
    s.currentTaskIndex 0 = 2 ∧ smallRings.slot ⟨0, 0⟩ ≠ smallRings.slot ⟨0, 1⟩ :=
  Reach.exists_of_run_imp (P := fun s => s.currentTaskIndex 0 = 2 ∧ s.smLastTaskAlive 0 = 0)
    ([Act.beginScope] ++ hiddenTask ++ hiddenTask) (by decide +kernel)
    fun _ h hs => ⟨hs.1, live_slots_distinct h (by omega) one_pos (by omega)⟩

/-- One thread at a time advances a ring. -/
theorem advance_exclusive (h : Reach (step c) ok init s) {b : Agent} (hab : a ≠ b)
    (ha : (s.thread a).locked? = some r) : (s.thread b).locked? ≠ some r := by
  have hl := (threads_reach h).lock
  rw [hl] at ha
  rw [Ne, hl, ha]
  exact fun he => hab (Option.some.inj he)

theorem advance_exclusive_hidden : ∃ s, Reach (step smallRings) free init s ∧
    (s.thread .orch).locked? = some 0 ∧ (s.thread (.sched 0)).locked? ≠ some 0 :=
  Reach.exists_of_run_imp (P := fun s => (s.thread .orch).locked? = some 0)
    ([Act.beginScope] ++ hiddenTask ++ [Act.endScope] ++ replicate 8 (Act.thread .orch))
    (by decide +kernel) fun _ h ha => ⟨ha, advance_exclusive h (by decide) ha⟩

end State

end PtoRuntime.Tmrb
