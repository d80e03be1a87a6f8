import PtoRuntime.Tmrb.Runtime

/-!
# Threads and rings

Invariants of every run. `Threads` says which threads run what: only the orchestrator
releases a scope, and the lock of a ring is held exactly by the thread that is inside
`advance_ring_pointers` for it. `Rings` relates the indices of a ring to each other and to
the occupants of its slots.

Ids are handed out in order and stored by their place in the window; between the
published index and the watermark there is less than one window, so an id that has not
been passed still holds its slot (`Rings.holds`).
-/

namespace PtoRuntime.Tmrb

open Lib Function

/-- The submission whose id is published and whose PENDING store is to come. -/
def OrchPc.storing? : OrchPc → Option TaskId
  | .storePending t _ => some t
  | _ => none

/-- What a thread goes on with after its call. -/
def ThreadPc.cont? : ThreadPc → Option Cont
  | .idle => none
  | .next k | .add _ _ k | .loadRefcount _ k | .loadCount _ _ k | .cas _ k | .tryLock _ k
  | .loadIndex _ k | .scan _ _ _ k | .reset _ _ _ k | .sync _ k | .unlock _ k => some k

/-- The thread is inside `on_scope_end`. -/
def ThreadPc.inScopeEnd (pc : ThreadPc) : Prop := ∃ todo, pc.cont? = some (.scope todo)

/-- The ring whose lock a thread holds. -/
def ThreadPc.locked? : ThreadPc → Option Nat
  | .loadIndex ring _ | .scan ring _ _ _ | .reset ring _ _ _ | .sync ring _ | .unlock ring _ =>
    some ring
  | _ => none

theorem Cont.resume_locked? (k : Cont) : k.resume.locked? = none := by cases k <;> rfl

variable {k : Cont} {r ring n : Nat} {t : TaskId} {a : Agent} {pc : ThreadPc} {act : Act}

theorem Cont.resume_inScopeEnd (h : k.resume.inScopeEnd) : ∃ todo, k = .scope todo := by
  obtain ⟨todo, h⟩ := h
  cases k with
  | scope l => exact ⟨l, rfl⟩
  | task | ret => cases h

theorem Cont.resume_ne_scan {old i : Nat} {k' : Cont} :
    k.resume ≠ .scan r old i k' := by
  cases k <;> nofun

namespace State

variable {c : Config} {s s' : State}

theorem Holds.task_cur (h : s.Holds c t) : c.task (s.wiring.cur (c.slot t)) = t := by
  rw [Holds] at h
  rw [Config.task, Wiring.cur, h, Config.slot_eq]
  show (⟨t.ring, _ * (c t.ring).windowSize + _⟩ : TaskId) = t
  rw [Nat.add_sub_cancel, Nat.div_add_mod']

/-! ## Threads -/

structure Threads (s : State) : Prop where
  busy : s.thread .orch ≠ .idle → s.orch = .endScope
  scopeEnd : ∀ a, (s.thread a).inScopeEnd → a = .orch
  lock : ∀ a r, (s.thread a).locked? = some r ↔ s.advanceLock r = some a

namespace Threads

theorem init : Threads init :=
  ⟨nofun, fun _ ⟨_, h⟩ => (by cases h), fun _ _ => ⟨nofun, nofun⟩⟩

theorem idle (h : Threads s) (ho : s.orch ≠ .endScope) : s.thread .orch = .idle := by
  by_contra hne
  exact ho (h.busy hne)

/-- One thread holds the lock of a ring. -/
theorem holder_unique (h : Threads s) {b : Agent} (ha : (s.thread a).locked? = some r)
    (hb : (s.thread b).locked? = some r) : a = b :=
  Option.some.inj (((h.lock a r).mp ha).symm.trans ((h.lock b r).mp hb))

/-- The orchestrator moves between two scope ends. -/
theorem orch (h : Threads s) (ho : s.orch ≠ .endScope) (hthread : s'.thread = s.thread)
    (hlock : s'.advanceLock = s.advanceLock) : Threads s' := by
  refine ⟨fun hne => absurd (h.idle ho) (hthread ▸ hne), hthread ▸ h.scopeEnd, ?_⟩
  rw [hthread, hlock]
  exact h.lock

/-- The orchestrator enters or leaves `on_scope_end`. -/
theorem orchThread (h : Threads s) (hthread : s'.thread = update s.thread .orch pc)
    (hlock : s'.advanceLock = s.advanceLock) (hbusy : pc ≠ .idle → s'.orch = .endScope)
    (hlocked : pc.locked? = (s.thread .orch).locked?) : Threads s' := by
  refine ⟨fun hb => hbusy ?_, fun b hb => ?_, fun b r => ?_⟩
  · rwa [hthread, update_self] at hb
  · by_contra hne
    rw [hthread, update_of_ne hne] at hb
    exact hne (h.scopeEnd b hb)
  · rw [hthread, hlock, ← h.lock]
    by_cases hb : b = .orch
    · rw [hb, update_self, hlocked]
    · rw [update_of_ne hb]

/-- A thread that is inside a call moves. -/
theorem move (h : Threads s) (hne : s.thread a ≠ .idle ∨ a ≠ .orch)
    (hthread : s'.thread = update s.thread a pc) (horch : s'.orch = s.orch)
    (hscope : pc.inScopeEnd → (s.thread a).inScopeEnd)
    (hlock : ∀ b r, (update s.thread a pc b).locked? = some r ↔
      s'.advanceLock r = some b) : Threads s' := by
  refine ⟨fun hb => ?_, fun b hb => ?_, hthread ▸ hlock⟩
  · rw [horch]
    by_cases ha : a = .orch
    · subst ha
      exact h.busy (hne.resolve_right fun h => h rfl)
    · rw [hthread, update_of_ne (Ne.symm ha)] at hb
      exact h.busy hb
  · rw [hthread] at hb
    by_cases ha : b = a
    · subst ha
      rw [update_self] at hb
      exact h.scopeEnd b (hscope hb)
    · rw [update_of_ne ha] at hb
      exact h.scopeEnd b hb

/-- The same, when the thread neither takes nor drops a lock. -/
theorem keep (h : Threads s) (hne : s.thread a ≠ .idle ∨ a ≠ .orch)
    (hthread : s'.thread = update s.thread a pc) (horch : s'.orch = s.orch)
    (hlock : s'.advanceLock = s.advanceLock) (hscope : pc.inScopeEnd → (s.thread a).inScopeEnd)
    (hlocked : pc.locked? = (s.thread a).locked?) : Threads s' := by
  refine h.move hne hthread horch hscope fun b r => ?_
  rw [hlock, ← h.lock]
  by_cases ha : b = a
  · subst ha
    rw [update_self, hlocked]
  · rw [update_of_ne ha]

/-- A thread takes a free lock. -/
theorem lockRing (h : Threads s) (hpc : s.thread a = .tryLock t k)
    (hfree : s.advanceLock t.ring = none) :
    Threads (s.lockRing a t.ring k) := by
  refine h.move (.inl (by rw [hpc]; nofun)) rfl rfl (by rw [hpc]; exact id) fun b r => ?_
  have hl := h.lock b r
  simp only [State.lockRing]
  grind -ring -linarith [update_apply, ThreadPc.locked?]

/-- A thread gives its lock back. -/
theorem unlockRing (h : Threads s) (hpc : s.thread a = .unlock ring k) :
    Threads (s.unlockRing a ring k) := by
  refine h.move (.inl (by rw [hpc]; nofun)) rfl rfl (fun hs => ?_) fun b r => ?_
  · obtain ⟨todo, rfl⟩ := Cont.resume_inScopeEnd hs
    rw [hpc]
    exact ⟨todo, rfl⟩
  · have hl := h.lock b r
    have ha := h.lock a ring
    simp only [State.unlockRing]
    grind -ring -linarith [update_apply, ThreadPc.locked?, Cont.resume_locked?]

end Threads

/-- The thread that a label moves. -/
def Act.agent? : Act → Option Agent
  | .endScope => some .orch
  | .thread a => some a
  | .startRelease i _ => some (.sched i)
  | _ => none

/-- Only the thread that a label names moves. -/
theorem thread_eq_of_move {b : Agent} (hm : Move c s act s') (hb : act.agent? ≠ some b) :
    s'.thread b = s.thread b := by
  cases hm with
  | orch hm =>
    cases hm with
    | endScope => exact update_of_ne (fun he => hb (congrArg some he.symm)) ..
    | _ => rfl
  | thread hm =>
    cases hm with
    | passSlot => rfl
    | _ => exact update_of_ne (fun he => hb (congrArg some he.symm)) ..
  | startRelease => exact update_of_ne (fun he => hb (congrArg some he.symm)) ..
  | wire | complete | notify => rfl

/-- A step of the orchestrator. -/
theorem threads_orchMove (h : Threads s) (hm : OrchMove c s act s') : Threads s' := by
  cases hm with
  | beginScope hr => exact h.orch (by rw [hr.1]; nofun) rfl rfl
  | endScope top rest hr =>
    have hidle : s.thread .orch = .idle := h.idle (by rw [hr.1]; nofun)
    exact h.orchThread rfl rfl (fun _ => rfl) (by rw [hidle]; rfl)
  | beginSubmit _ _ hr | scopeFull _ hr => exact h.orch (by rw [hr.1]; nofun) rfl rfl
  | appendedBefore => exact h
  | allocFails _ _ ho | dropFanin _ _ ho | appendFanin _ _ _ _ ho | allocLoad _ ho
  | commitTask _ _ ho | retry _ _ ho | storePending _ _ ho | storeCompleted _ ho
  | syncMap _ ho | depsDone _ _ ho | countProducer _ _ _ _ ho | countDone _ _ ho
  | pushWiring _ _ ho => exact h.orch (by rw [ho]; nofun) rfl rfl

/-- A step of a scheduler thread. -/
theorem threads_threadMove (h : Threads s) (hm : ThreadMove c s a s') :
    Threads s' := by
  cases hm with
  | scopeDone hpc =>
    obtain rfl := h.scopeEnd a ⟨[], by rw [hpc]; rfl⟩
    exact h.orchThread rfl rfl (fun hb => absurd rfl hb) (by rw [hpc]; rfl)
  | scopeNext p todo hpc =>
    exact h.keep (.inl (by rw [hpc]; nofun)) rfl rfl rfl (fun _ => ⟨p :: todo, by rw [hpc]; rfl⟩)
      (by rw [hpc]; rfl)
  | taskNext _ _ _ _ hpc | taskDone _ _ _ hpc =>
    exact h.keep (.inl (by rw [hpc]; nofun)) rfl rfl rfl (fun ⟨_, he⟩ => by cases he)
      (by rw [hpc]; rfl)
  | «return» pc k hpc hk =>
    refine h.keep (.inl ?_) rfl rfl rfl (fun hs => ?_) ?_
    · rw [hpc]
      obtain ⟨_, _, rfl⟩ | ⟨_, rfl⟩ | ⟨_, rfl, -⟩ := hk <;> nofun
    · obtain ⟨todo, rfl⟩ := Cont.resume_inScopeEnd hs
      rw [hpc]
      obtain ⟨_, _, rfl⟩ | ⟨_, rfl⟩ | ⟨_, rfl, -⟩ := hk <;> exact ⟨todo, rfl⟩
    · rw [hpc, Cont.resume_locked?]
      obtain ⟨_, _, rfl⟩ | ⟨_, rfl⟩ | ⟨_, rfl, -⟩ := hk <;> rfl
  | lockRing t k hpc hfree => exact h.lockRing hpc hfree
  | unlockRing ring k hpc => exact h.unlockRing hpc
  | passSlot ring old index k hpc => exact ⟨h.busy, h.scopeEnd, h.lock⟩
  | addRefcount _ _ _ hpc | loadRefcount _ _ hpc | loadCount _ _ _ hpc | consumeSlot _ _ hpc
  | loadIndex _ _ hpc | stopScan _ _ _ _ hpc | resetFanin _ _ _ hpc | resetFanout _ _ _ hpc
  | resetDone _ _ _ hpc | syncToSm _ _ hpc =>
    exact h.keep (.inl (by rw [hpc]; nofun)) rfl rfl rfl (by rw [hpc]; exact id) (by rw [hpc]; rfl)

/-- One step keeps the locks in order. -/
theorem threads_move (h : Threads s) (hm : Move c s act s') : Threads s' := by
  cases hm with
  | orch hm => exact threads_orchMove h hm
  | thread hm => exact threads_threadMove h hm
  | startRelease i x hi hx =>
    exact h.keep (.inr (by nofun)) rfl rfl rfl (fun ⟨_, he⟩ => by cases he) (by rw [hi]; rfl)
  | wire | complete | notify => exact ⟨h.busy, h.scopeEnd, h.lock⟩

/-! ## Rings -/

/-- Submissions of a ring whose slots have been taken. -/
def prepared (s : State) (r : Nat) : Nat :=
  match s.orch.storing? with
  | some t => if t.ring = r then t.loc else s.currentTaskIndex r
  | none => s.currentTaskIndex r

structure Rings (c : Config) (s : State) : Prop where
  sm_le : ∀ r, s.smLastTaskAlive r ≤ s.lastTaskAlive r
  alive_le : ∀ r, s.lastTaskAlive r ≤ s.currentTaskIndex r
  window : ∀ r, s.currentTaskIndex r < s.smLastTaskAlive r + (c r).windowSize
  allocTry : ∀ hidden n, s.orch = .allocTry hidden n → n ≤ s.smLastTaskAlive s.currentRingId
  storing : ∀ t, s.orch.storing? = some t → s.currentTaskIndex t.ring = t.loc + 1
  scanning : ∀ a r old index k, s.thread a = .scan r old index k → index ≤ s.currentTaskIndex r
  -- the next occupant of place `n % w` is number `n / w + 1` of that place
  gens : ∀ r n, s.prepared r ≤ n → n < s.prepared r + (c r).windowSize →
    s.wiring.gen ⟨r, n % (c r).windowSize⟩ = n / (c r).windowSize
  consumed : ∀ k, s.wiring.taskState k = .consumed → s.consumed (c.task (s.wiring.cur k)) = true

theorem rings_init : Rings c init := by
  refine ⟨fun _ => le_rfl, fun _ => le_rfl, fun r => ?_, nofun, nofun, nofun,
    fun r n _ hn => ?_, nofun⟩
  · have := (c r).four_le
    show 0 < 0 + 2 ^ (c r).windowBits
    omega
  · have hn : n < (c r).windowSize := by simpa [prepared, init, OrchPc.storing?] using hn
    exact (Nat.div_eq_of_lt hn).symm

namespace Rings

/-- Moves that leave the rings and the slots' states alone. -/
theorem frame (h : Rings c s) (hsm : s'.smLastTaskAlive = s.smLastTaskAlive)
    (halive : s'.lastTaskAlive = s.lastTaskAlive)
    (hindex : s'.currentTaskIndex = s.currentTaskIndex)
    (hgen : s'.wiring.gen = s.wiring.gen) (hconsumed : s'.consumed = s.consumed)
    (hstate : ∀ k, s'.wiring.taskState k = .consumed → s.wiring.taskState k = .consumed)
    (hstoring : s'.orch.storing? = s.orch.storing?)
    (htry : ∀ hidden n, s'.orch = .allocTry hidden n → n ≤ s.smLastTaskAlive s'.currentRingId)
    (hscan : ∀ a r old i k, s'.thread a = .scan r old i k → i ≤ s.currentTaskIndex r) :
    Rings c s' := by
  have hprep (r : Nat) : s'.prepared r = s.prepared r := by
    rw [prepared, prepared, hstoring, hindex]
  refine ⟨?_, ?_, ?_, ?_, ?_, ?_, fun r n => ?_, fun k hk => ?_⟩
  · rw [hsm, halive]; exact h.sm_le
  · rw [halive, hindex]; exact h.alive_le
  · rw [hindex, hsm]; exact h.window
  · rw [hsm]; exact htry
  · rw [hstoring, hindex]; exact h.storing
  · rw [hindex]; exact hscan
  · rw [hprep, hgen]; exact h.gens r n
  · rw [hconsumed, Wiring.cur, hgen]
    exact h.consumed k (hstate k hk)

/-- The same, for moves that only give a thread a new program counter. -/
theorem thread (h : Rings c s)
    (hpc : ∀ r old i k, pc = .scan r old i k → i ≤ s.currentTaskIndex r) :
    ∀ a' r old i k, update s.thread a pc a' = .scan r old i k →
      i ≤ s.currentTaskIndex r := by
  intro a' r old i k heq
  by_cases ha : a' = a
  · subst ha
    rw [update_self] at heq
    exact hpc r old i k heq
  · rw [update_of_ne ha] at heq
    exact h.scanning a' r old i k heq

theorem setThread (h : Rings c s)
    (hpc : ∀ r old i k, pc = .scan r old i k → i ≤ s.currentTaskIndex r) :
    Rings c (s.setThread a pc) :=
  h.frame rfl rfl rfl rfl rfl (fun _ => id) rfl h.allocTry (h.thread hpc)

/-- A slot that is taken is held by the youngest id of its place. -/
theorem gen_eq (h : Rings c s) (hn : n < s.prepared r) (hlt : s.prepared r ≤ n + (c r).windowSize) :
    s.Holds c ⟨r, n⟩ := by
  have hg := h.gens r (n + (c r).windowSize) (by omega) (by omega)
  rw [Nat.add_mod_right,
    Nat.add_div_right _ (show 0 < (c r).windowSize from Nat.two_pow_pos _)] at hg
  rw [Holds, Config.slot_eq]
  exact hg

theorem prepared_le (h : Rings c s) (r : Nat) : s.prepared r ≤ s.currentTaskIndex r := by
  unfold prepared
  split
  · rename_i t ht
    have := h.storing t ht
    split_ifs with hr
    · rw [← hr]
      omega
    · exact le_rfl
  · exact le_rfl

/-- Every id between the watermark and the publish window holds its slot. -/
theorem holds (h : Rings c s) (hle : s.lastTaskAlive r ≤ n) (hlt : n < s.prepared r) :
    s.Holds c ⟨r, n⟩ := by
  refine h.gen_eq hlt ?_
  have := h.prepared_le r
  have := h.window r
  have := h.sm_le r
  omega

/-- An id that holds its slot has been handed out. -/
theorem lt_prepared (h : Rings c s) (hn : s.Holds c ⟨r, n⟩) : n < s.prepared r := by
  have hpos : 0 < (c r).windowSize := Nat.two_pow_pos _
  by_contra hle
  -- the last id of that place that is not beyond the next window
  obtain ⟨d, m, rfl, hm⟩ : ∃ d m, n = m + (c r).windowSize * d ∧
      (s.prepared r ≤ m ∧ m < s.prepared r + (c r).windowSize) := by
    refine ⟨(n - s.prepared r) / (c r).windowSize,
      s.prepared r + (n - s.prepared r) % (c r).windowSize, ?_, by omega, ?_⟩
    · have := Nat.mod_add_div (n - s.prepared r) (c r).windowSize
      omega
    · have := Nat.mod_lt (n - s.prepared r) hpos
      omega
  have hg := h.gens r m hm.1 hm.2
  rw [Holds, Config.slot_eq] at hn
  have hd : (m + (c r).windowSize * d) / (c r).windowSize = m / (c r).windowSize + d :=
    Nat.add_mul_div_left m d hpos
  rw [Nat.add_mul_mod_self_left, hg, hd] at hn
  omega

/-- The next id is inside the window. -/
theorem commitTask (h : Rings c s) {hidden : Bool} (hpc : s.orch = .allocTry hidden n)
    (hw : s.currentTaskIndex s.currentRingId - n + 1 < (c s.currentRingId).windowSize) :
    Rings c (s.commitTask hidden) := by
  have hn := h.allocTry hidden n hpc
  have hprep (r : Nat) : (s.commitTask hidden).prepared r = s.prepared r := by
    simp only [prepared, State.commitTask, OrchPc.storing?, hpc]
    by_cases hr : s.currentRingId = r
    · rw [if_pos hr, hr]
    · rw [if_neg hr, update_of_ne (Ne.symm hr)]
  have hmono : ∀ r, s.currentTaskIndex r ≤ (s.commitTask hidden).currentTaskIndex r :=
    (forall_update_iff _ fun r m => s.currentTaskIndex r ≤ m).mpr
      ⟨Nat.le_succ _, fun _ _ => le_rfl⟩
  refine { h with
    alive_le := fun r => le_trans (h.alive_le r) (hmono r)
    window := (forall_update_iff s.currentTaskIndex
      fun r m => m < s.smLastTaskAlive r + (c r).windowSize).mpr ⟨by omega, fun r _ => h.window r⟩
    allocTry := nofun
    storing := fun t ht => ?_
    scanning := fun a r old i k hk => le_trans (h.scanning a r old i k hk) (hmono r)
    gens := fun r m => hprep r ▸ h.gens r m }
  cases ht
  exact update_self ..

/-- The slot gets its next task. -/
theorem storePending (h : Rings c s) {hidden : Bool} (hpc : s.orch = .storePending t hidden) :
    Rings c (s.storePending c t hidden) := by
  have hidx := h.storing t (by rw [hpc]; rfl)
  have hpos : 0 < (c t.ring).windowSize := Nat.two_pow_pos _
  have hst : (s.storePending c t hidden).orch.storing? = none := by cases hidden <;> rfl
  have hold : s.prepared t.ring = t.loc := by simp [prepared, hpc, OrchPc.storing?]
  have hslot := c.slot_eq t
  refine { h with
    allocTry := ?_, storing := ?_, gens := fun r n hle hlt => ?_, consumed := fun k hk => ?_ }
  · intro hidden' n he
    cases hidden <;> cases he
  · rw [hst]
    nofun
  · have hprep (r : Nat) : (s.storePending c t hidden).prepared r = s.currentTaskIndex r := by
      rw [prepared, hst]
      rfl
    rw [hprep] at hle hlt
    show update s.wiring.gen (c.slot t) _ ⟨r, n % (c r).windowSize⟩ = _
    by_cases hr : r = t.ring
    · subst hr
      rw [hidx] at hle hlt
      rw [hslot]
      by_cases hm : n % (c t.ring).windowSize = t.loc % (c t.ring).windowSize
      · -- the slot just taken: its next occupant is one window later
        obtain rfl : n = t.loc + (c t.ring).windowSize :=
          eq_of_mod_eq (w := (c t.ring).windowSize) (by rw [Nat.add_mod_right, hm]) (by omega)
            (by omega)
        have hg := h.gens t.ring t.loc (by omega) (by omega)
        rw [Nat.add_mod_right, update_self, hg, Nat.add_div_right _ hpos]
      · rw [update_of_ne (by simpa using hm)]
        have hne : n ≠ t.loc + (c t.ring).windowSize := by
          rintro rfl
          exact hm (Nat.add_mod_right ..)
        exact h.gens t.ring n (by omega) (by omega)
    · have hprep' : s.prepared r = s.currentTaskIndex r := by
        simp [prepared, hpc, OrchPc.storing?, Ne.symm hr]
      rw [hslot, update_of_ne (by simp [hr])]
      exact h.gens r n (by omega) (by omega)
  · have hk' : update s.wiring.taskState (c.slot t) .pending k = .consumed := hk
    have hne : k ≠ c.slot t := by
      rintro rfl
      rw [update_self] at hk'
      cases hk'
    rw [update_of_ne hne] at hk'
    have hcur : (s.storePending c t hidden).wiring.cur k = s.wiring.cur k := by
      simp [Wiring.cur, State.storePending, Wiring.prepare, hne]
    rw [hcur]
    exact h.consumed k hk'

/-- A slot is consumed. -/
theorem consumeSlot (h : Rings c s) {slot : SlotRef} :
    Rings c (s.consumeSlot c a slot k) := by
  refine { h with scanning := h.thread nofun, consumed := fun k' hk' => ?_ }
  show update s.consumed _ true (c.task (s.wiring.cur k')) = true
  by_cases hk : k' = slot
  · rw [hk, update_self]
  · have hst : s.wiring.taskState k' = .consumed := by
      simpa [State.consumeSlot, Wiring.consume, hk] using hk'
    rw [update_apply]
    split
    · rfl
    · exact h.consumed k' hst

/-- The watermark passes a slot. -/
theorem passSlot (h : Rings c s) {old index : Nat} (hpc : s.thread a = .scan ring old index k)
    (hlt : s.lastTaskAlive ring < index) :
    Rings c (s.passSlot ring) := by
  have hindex := h.scanning a ring old index k hpc
  exact { h with
    sm_le := (forall_update_iff s.lastTaskAlive fun r n => s.smLastTaskAlive r ≤ n).mpr
      ⟨Nat.le_succ_of_le (h.sm_le ring), fun r _ => h.sm_le r⟩
    alive_le := (forall_update_iff s.lastTaskAlive fun r n => n ≤ s.currentTaskIndex r).mpr
      ⟨hlt.trans_le hindex, fun r _ => h.alive_le r⟩ }

/-- The watermark is published. -/
theorem syncToSm (h : Rings c s) :
    Rings c (s.syncToSm a ring k) := by
  have hmono : ∀ r, s.smLastTaskAlive r ≤ (s.syncToSm a ring k).smLastTaskAlive r :=
    (forall_update_iff _ fun r n => s.smLastTaskAlive r ≤ n).mpr
      ⟨h.sm_le ring, fun _ _ => le_rfl⟩
  exact { h with
    sm_le := (forall_update_iff s.smLastTaskAlive fun r n => n ≤ s.lastTaskAlive r).mpr
      ⟨le_rfl, fun r _ => h.sm_le r⟩
    window := fun r => (h.window r).trans_le (Nat.add_le_add_right (hmono r) _)
    allocTry := fun hidden n hn => le_trans (h.allocTry hidden n hn) (hmono _)
    scanning := h.thread nofun }

end Rings

/-- A step of the orchestrator. -/
theorem rings_orchMove (h : Rings c s) (hm : OrchMove c s act s') : Rings c s' := by
  -- moves that change the program counter outside `alloc` and the publish window
  have hpc {pc : OrchPc} (ho : s.orch.storing? = none) (hn : pc.storing? = none)
      (ht : ∀ hidden n, pc = .allocTry hidden n → False) {f : Bool} :
      Rings c { s with orch := pc, fatal := f } :=
    h.frame rfl rfl rfl rfl rfl (fun _ => id) (hn.trans ho.symm)
      (fun hidden n he => (ht hidden n he).elim) h.scanning
  cases hm with
  | beginScope hr =>
    refine h.frame rfl rfl rfl rfl rfl (fun _ => id) rfl (fun hidden n he => ?_) h.scanning
    exact absurd (hr.1.symm.trans he) nofun
  | endScope top rest hr hs =>
    exact h.frame rfl rfl rfl rfl rfl (fun _ => id) (by rw [hr.1]; rfl) nofun (h.thread nofun)
  | beginSubmit act hidden hr => exact hpc (by rw [hr.1]; rfl) rfl (by nofun)
  | scopeFull act hr =>
    refine hpc (by rw [hr.1]; rfl) (by rw [hr.1]; rfl) fun _ _ he => ?_
    exact absurd (hr.1.symm.trans he) nofun
  | allocLoad hidden ho =>
    refine h.frame rfl rfl rfl rfl rfl (fun _ => id) (by rw [ho]; rfl) (fun hidden n he => ?_)
      h.scanning
    cases he
    exact le_rfl
  | commitTask hidden n ho hw => exact h.commitTask ho hw
  | retry _ _ ho | allocFails _ _ ho | depsDone _ _ ho | countDone _ _ ho =>
    exact hpc (by rw [ho]; rfl) rfl (by nofun)
  | storePending t hidden ho => exact h.storePending ho
  | storeCompleted t ho =>
    exact h.frame rfl rfl rfl rfl rfl (fun k hk => Wiring.consumed_of_update_completed hk)
      (by rw [ho]; rfl) nofun h.scanning
  | appendedBefore => exact h
  | syncMap _ ho | dropFanin _ _ ho | appendFanin _ _ _ _ ho | countProducer _ _ _ _ ho
  | pushWiring _ _ ho =>
    exact h.frame rfl rfl rfl rfl rfl (fun _ => id) (by rw [ho]; rfl) nofun h.scanning

/-- A step of a scheduler thread. -/
theorem rings_threadMove (ht : Threads s) (h : Rings c s) (hm : ThreadMove c s a s') :
    Rings c s' := by
  cases hm with
  | scopeDone hpc =>
    have ho : s.orch = .endScope := by
      obtain rfl := ht.scopeEnd a ⟨[], by rw [hpc]; rfl⟩
      exact ht.busy (by rw [hpc]; nofun)
    exact h.frame rfl rfl rfl rfl rfl (fun _ => id) (by rw [ho]; rfl) nofun (h.thread nofun)
  | «return» => exact h.setThread fun r old i k he => absurd he Cont.resume_ne_scan
  | loadIndex ring k hpc =>
    refine h.setThread fun r old i k he => ?_
    cases he
    exact le_rfl
  | addRefcount | lockRing | resetFanin | resetFanout =>
    exact h.frame rfl rfl rfl rfl rfl (fun _ => id) rfl h.allocTry (h.thread nofun)
  | unlockRing =>
    exact h.frame rfl rfl rfl rfl rfl (fun _ => id) rfl h.allocTry
      (h.thread fun r old i k he => absurd he Cont.resume_ne_scan)
  | consumeSlot => exact h.consumeSlot
  | passSlot ring old index k hpc hlt => exact h.passSlot hpc hlt
  | syncToSm => exact h.syncToSm
  | _ =>
    exact h.setThread nofun

theorem rings_move (ht : Threads s) (h : Rings c s) (hm : Move c s act s') :
    Rings c s' := by
  cases hm with
  | orch hm => exact rings_orchMove h hm
  | thread hm => exact rings_threadMove ht h hm
  | startRelease i x =>
    exact h.frame rfl rfl rfl rfl rfl (fun _ => id) rfl h.allocTry (h.thread nofun)
  | wire w hw =>
    obtain ⟨hgen, hstate⟩ := Wiring.wireStep_frame hw
    exact h.frame rfl rfl rfl hgen rfl (fun k hk => hstate ▸ hk) rfl h.allocTry h.scanning
  | complete k =>
    exact h.frame rfl rfl rfl rfl rfl (fun k' hk => Wiring.consumed_of_update_completed hk) rfl
      h.allocTry h.scanning
  | notify q w hw =>
    obtain ⟨hgen, hstate⟩ := Wiring.notifyStep_frame hw
    exact h.frame rfl rfl rfl hgen rfl (fun k hk => hstate ▸ hk) rfl h.allocTry h.scanning

/-! ## Every run -/

variable {ok : State → Act → Prop}

theorem threads_reach (h : Reach (step c) ok init s) : Threads s :=
  h.invariant .init fun _ _ _ _ ih _ hs => threads_move ih (step_cases hs)

/-- Runs in which only the threads of a list take part. -/
def Among (as : List Agent) (ok : State → Act → Prop) (s : State) (act : Act) : Prop :=
  ok s act ∧ ∀ a ∈ act.agent?, a ∈ as

instance (as : List Agent) [DecidableRel ok] : DecidableRel (Among as ok) := fun _ _ =>
  inferInstanceAs (Decidable (_ ∧ _))

theorem all_idle {as : List Agent} (h : Reach (step c) (Among as ok) init s)
    (hidle : ∀ a ∈ as, s.thread a = .idle) (a : Agent) : s.thread a = .idle := by
  by_cases ha : a ∈ as
  · exact hidle a ha
  · clear hidle
    induction h with
    | init => rfl
    | step _ hok hst ih => rw [thread_eq_of_move (step_cases hst) fun he => ha (hok.2 a he), ih]

/-- The rings are in order in every run. -/
theorem rings_reach (h : Reach (step c) ok init s) : Rings c s :=
  h.invariant rings_init fun _ _ _ hr ih _ hs => rings_move (threads_reach hr) ih (step_cases hs)

end State

end PtoRuntime.Tmrb
