import PtoRuntime.Cuda.Effects

/-!
# Persistent CUDA executor — the invariant along a run

Every step of every block keeps `Inv`. A scheduler step is an operation on shared memory followed by
a move of the block; `Inv.ofSched` assembles the two, and the steps that only move use `Inv.turn`.
-/

namespace PtoRuntime.Cuda

open Lib Function List Option

variable {c : Dag} {o : Act} {s s₁ s' : State} {t u b w i old idx : Nat}
variable {pc : SchedPc}

/-! ## Assembly -/

theorem Later.setSched : Later c o s (s.setSched b pc) := { Later.refl (o := o) s with }

theorem Later.setWork {pc : WorkPc} : Later c o s (s.setWork w pc) := { Later.refl (o := o) s with }

theorem Inv.schedAt (h : Inv c s) (hb : b < c.schedulers) (hpc : s.sched b = pc) :
    SchedOk c s b pc :=
  hpc ▸ h.sched b hb

theorem Inv.workAt {pc : WorkPc} (h : Inv c s) (hw : w < c.workerBlocks) (hpc : s.work w = pc) :
    WorkOk c s w pc :=
  hpc ▸ h.work w hw

theorem Clean.later (h : Clean c s) (hl : Later c o s s') (hc : s'.counted = s.counted) :
    Clean c s' := by
  intro v hv
  rw [hc] at hv
  exact (h v hv).later hl

/-- A scheduler block has made an operation and moves on. -/
theorem Inv.ofSched (h : Inv c s) (hl : Later c (.sched b) s s₁) (hLedger : Ledger c s₁)
    (hClean : Clean c s₁) (hInits : Inits c (s₁.setSched b pc)) (hTickets : Tickets c s₁)
    (hsched : s₁.sched = s.sched) (hwork : s₁.work = s.work) (hok : SchedOk c s₁ b pc) :
    Inv c (s₁.setSched b pc) where
  ledger := { hLedger with }
  clean := hClean.later (o := .sched b) .setSched rfl
  inits := hInits
  tickets := { hTickets with }
  sched b' hb' := by
    show SchedOk c (s₁.setSched b pc) b' (update s₁.sched b pc b')
    rw [update_apply]
    split
    · rename_i he
      rw [he]
      exact hok.later (o := .work 0) .setSched nofun
    · rename_i hne
      rw [hsched]
      exact ((h.sched b' hb').later hl (by simpa using hne)).later (o := .work 0) .setSched nofun
  work w hw := by
    show WorkOk c (s₁.setSched b pc) w (s₁.work w)
    rw [hwork]
    exact ((h.work w hw).later hl nofun).later (o := .sched b) .setSched nofun

/-- A worker block has made an operation and moves on. -/
theorem Inv.ofWork {pc : WorkPc} (h : Inv c s) (hl : Later c (.work w) s s₁)
    (hLedger : Ledger c s₁) (hClean : Clean c s₁) (hInits : Inits c s₁)
    (hTickets : Tickets c (s₁.setWork w pc)) (hsched : s₁.sched = s.sched)
    (hwork : s₁.work = s.work) (hok : WorkOk c s₁ w pc) : Inv c (s₁.setWork w pc) where
  ledger := { hLedger with }
  clean := hClean.later (o := .work w) .setWork rfl
  inits := { hInits with }
  tickets := hTickets
  sched b hb := by
    show SchedOk c (s₁.setWork w pc) b (s₁.sched b)
    rw [hsched]
    exact ((h.sched b hb).later hl nofun).later (o := .work w) .setWork nofun
  work w' hw' := by
    show WorkOk c (s₁.setWork w pc) w' (update s₁.work w pc w')
    rw [update_apply]
    split
    · rename_i he
      rw [he]
      exact hok.later (o := .sched 0) .setWork nofun
    · rename_i hne
      rw [hwork]
      exact ((h.work w' hw').later hl (by simpa using hne)).later (o := .sched 0) .setWork nofun

/-! ## Initial scans -/

/-- When all blocks are counted, all are through. -/
theorem Inits.all (h : Inits c s) (hall : AllInited c s) (hb : b < c.schedulers) :
    (s.sched b).initialising = false := by
  refine (h.inited.subset_of_length_le (range c.schedulers) (fun x hx => ?_) ?_ b
    (mem_range.mpr hb)).2
  · exact mem_range.mpr hx.1
  · rw [length_range, ← h.count]
    exact hall

/-- Block `b` moves, and the tasks that leave `unready` are its own or not roots. -/
theorem Inits.turn (h : Inits c s) (hsched : s₁.sched = s.sched) (hinited : s₁.inited = s.inited)
    (hcount : s₁.initCount = s.initCount) (hfanin : s₁.fanin = s.fanin ∨ AllInited c s)
    (hphase : ∀ t, c.fanin t = 0 → s₁.phase t ≠ .unready → s.phase t ≠ .unready ∨
      t % c.schedulers = b ∧ ∀ idx, pc.cursor? = some idx → t < idx)
    (hinit : pc.initialising = (s.sched b).initialising)
    (hcursor : ∀ idx', pc.cursor? = some idx' → ∃ idx, (s.sched b).cursor? = some idx ∧
      idx ≤ idx') : Inits c (s₁.setSched b pc) := by
  have hsame (b' : Nat) : ((s₁.setSched b pc).sched b').initialising =
      (s.sched b').initialising := by
    show (update s₁.sched b pc b').initialising = _
    rw [update_apply, hsched]
    split
    · rename_i he
      rw [he]
      exact hinit
    · rfl
  refine ⟨?_, ?_, fun b' hb' hi => ?_, fun t ht hph idx hidx => ?_⟩
  · show Roster _ s₁.inited
    rw [hinited]
    exact h.inited.congr fun b' => by rw [hsame]
  · show s₁.initCount = s₁.inited.length
    rw [hcount, hinited]
    exact h.count
  · show s₁.fanin = c.fanin
    rw [hsame] at hi
    rcases hfanin with hf | hall
    · rw [hf]
      exact h.untouched b' hb' hi
    · rw [h.all hall hb'] at hi
      cases hi
  · replace hidx : (update s₁.sched b pc (t % c.schedulers)).cursor? = some idx := hidx
    rw [update_apply, hsched] at hidx
    split at hidx
    · rename_i he
      rcases hphase t ht hph with hph | ⟨-, hlt⟩
      · obtain ⟨idx₀, hidx₀, hle⟩ := hcursor idx hidx
        have := h.cursor t ht hph idx₀ (by rw [he]; exact hidx₀)
        omega
      · exact hlt idx hidx
    · rename_i hne
      rcases hphase t ht hph with hph | ⟨he, -⟩
      · exact h.cursor t ht hph idx hidx
      · exact absurd he hne

/-- A step of a worker: roots stay where the scan has left them. -/
theorem Inits.ofWork (h : Inits c s) (hsched : s₁.sched = s.sched) (hinited : s₁.inited = s.inited)
    (hcount : s₁.initCount = s.initCount) (hfanin : s₁.fanin = s.fanin)
    (hphase : ∀ t, s₁.phase t ≠ .unready → s.phase t ≠ .unready) : Inits c s₁ where
  inited := by rw [hinited, hsched]; exact h.inited
  count := by rw [hcount, hinited]; exact h.count
  untouched := by rw [hsched, hfanin]; exact h.untouched
  cursor t ht hph := by rw [hsched]; exact h.cursor t ht (hphase t hph)

/-! ## Ready tickets -/

/-- Steps of the schedulers: queued tasks stay queued, new tickets are those of queued tasks. -/
theorem Tickets.later (h : Tickets c s)
    (hpushed : ∀ i t : Nat, s'.pushed[i]? = some t → s.pushed[i]? = some t ∨ s'.phase t = .queued)
    (hqueued : ∀ t, s.phase t = .queued → s'.phase t = .queued)
    (hhead : s'.ready.head = s.ready.head) (hwork : s'.work = s.work)
    (hreturned : s'.returned = s.returned) : Tickets c s' where
  held w hw i hi := by
    rw [hwork] at hi
    rw [hhead]
    obtain ⟨hlt, hn, hq⟩ := h.held w hw i hi
    exact ⟨hlt, hn, fun t ht => (hpushed i t ht).elim (fun ht => hqueued t (hq t ht)) id⟩
  distinct := by rw [hwork]; exact h.distinct
  undrawn i t hi ht := by
    rw [hhead] at hi
    exact (hpushed i t ht).elim (fun ht => hqueued t (h.undrawn i t hi ht)) id
  returned := by rw [hreturned]; exact h.returned
  gone := by rw [hreturned, hwork]; exact h.gone
  head := by rw [hhead, hreturned]; exact h.head

/-- Worker `w` moves on with the ticket it has, or without one. -/
theorem Tickets.turn {pc : WorkPc} (h : Tickets c s) (hpushed : s₁.pushed = s.pushed)
    (hqueued : ∀ i t : Nat, (∃ v < c.workerBlocks, v ≠ w ∧ (s.work v).drawn? = some i) ∨
      pc.drawn? = some i ∨ s.ready.head ≤ i → s.pushed[i]? = some t → s.phase t = .queued →
      s₁.phase t = .queued)
    (hhead : s₁.ready.head = s.ready.head) (hwork : s₁.work = s.work)
    (hreturned : s₁.returned = s.returned) (hlive : s.work w ≠ .done) (hw : w < c.workerBlocks)
    (hdrawn : ∀ i, pc.drawn? = some i → (s.work w).drawn? = some i) :
    Tickets c (s₁.setWork w pc) := by
  have hold (v i : Nat) (hi : ((s₁.setWork w pc).work v).drawn? = some i) :
      (s.work v).drawn? = some i ∧ (v ≠ w ∨ pc.drawn? = some i) := by
    replace hi : (update s₁.work w pc v).drawn? = some i := hi
    rw [update_apply, hwork] at hi
    split at hi
    · rename_i he
      rw [he]
      exact ⟨hdrawn i hi, .inr hi⟩
    · rename_i hne
      exact ⟨hi, .inl hne⟩
  refine ⟨fun v hv i hi => ?_, fun v hv v' hv' i hi hi' => ?_, fun i t hi ht => ?_, ?_,
    fun v hv => ?_, ?_⟩
  · obtain ⟨hi₀, hwho⟩ := hold v i hi
    obtain ⟨hlt, hn, hq⟩ := h.held v hv i hi₀
    refine ⟨by show i < s₁.ready.head; rw [hhead]; exact hlt, hn, fun t ht => ?_⟩
    replace ht : s₁.pushed[i]? = some t := ht
    rw [hpushed] at ht
    exact hqueued i t (hwho.imp (fun hne => ⟨v, hv, hne, hi₀⟩) .inl) ht (hq t ht)
  · exact h.distinct v hv v' hv' i (hold v i hi).1 (hold v' i hi').1
  · replace hi : s₁.ready.head ≤ i := hi
    replace ht : s₁.pushed[i]? = some t := ht
    rw [hhead] at hi
    rw [hpushed] at ht
    exact hqueued i t (.inr (.inr hi)) ht (h.undrawn i t hi ht)
  · show s₁.returned.Nodup
    rw [hreturned]
    exact h.returned
  · replace hv : v ∈ s₁.returned := hv
    rw [hreturned] at hv
    obtain ⟨hlt, hdone⟩ := h.gone v hv
    refine ⟨hlt, ?_⟩
    show update s₁.work w pc v = .done
    rw [update_of_ne, hwork]
    · exact hdone
    · rintro rfl
      exact hlive hdone
  · show s₁.ready.head ≤ c.taskCount + s₁.returned.length
    rw [hhead, hreturned]
    exact h.head

/-! ## Scheduler steps -/

theorem update_ne_unready {p : Phase} (hph : s.phase t ≠ .unready) (x : Nat)
    (hx : update s.phase t p x ≠ .unready) : s.phase x ≠ .unready := by
  rw [update_apply] at hx
  split at hx
  · rename_i he
    rw [he]
    exact hph
  · exact hx

/-- A task that is not queued moves: the queued ones stay. -/
theorem update_queued {p : Phase} (hph : s.phase t ≠ .queued) (x : Nat) (hx : s.phase x = .queued) :
    update s.phase t p x = .queued := by
  refine (update_of_ne ?_ ..).trans hx
  rintro rfl
  exact hph hx

/-- The block only moves. -/
theorem Inv.turn (h : Inv c s) (hinit : pc.initialising = (s.sched b).initialising)
    (hcursor : ∀ idx', pc.cursor? = some idx' → ∃ idx, (s.sched b).cursor? = some idx ∧
      idx ≤ idx') (hok : SchedOk c s b pc) : Inv c (s.setSched b pc) :=
  h.ofSched (.refl s) h.ledger h.clean
    (h.inits.turn rfl rfl rfl (.inl rfl) (fun _ _ => .inl) hinit hcursor) h.tickets rfl rfl hok

theorem recordError_frame (code task : Nat) :
    (s.recordError code task).sched = s.sched ∧ (s.recordError code task).work = s.work ∧
      (s.recordError code task).inited = s.inited ∧
      (s.recordError code task).initCount = s.initCount ∧
      (s.recordError code task).returned = s.returned ∧
      (s.recordError code task).ready = s.ready := by
  unfold State.recordError
  split <;> exact ⟨rfl, rfl, rfl, rfl, rfl, rfl⟩

/-- The block records an error and moves on. -/
theorem Inv.error (h : Inv c s) (code task : Nat)
    (hinit : pc.initialising = (s.sched b).initialising)
    (hcursor : ∀ idx', pc.cursor? = some idx' → ∃ idx, (s.sched b).cursor? = some idx ∧
      idx ≤ idx') (hok : SchedOk c (s.recordError code task) b pc) :
    Inv c ((s.recordError code task).setSched b pc) := by
  have hsame := recordError_frame (s := s) code task
  have hs := Same.recordError (s := s) code task
  have hl := Later.recordError (c := c) (o := .sched b) (s := s) code task
  refine h.ofSched hl (h.ledger.same hs) (h.clean.later hl hs.counted) ?_ ?_ hsame.1 hsame.2.1 hok
  · refine h.inits.turn hsame.1 hsame.2.2.1 hsame.2.2.2.1 (.inl hs.fanin) (fun t _ hph => ?_)
      hinit hcursor
    rw [hs.phase] at hph
    exact .inl hph
  · refine h.tickets.later (fun i t ht => ?_) (fun t ht => ?_) ?_ hsame.2.1 hsame.2.2.2.2.1
    · rw [hs.pushed] at ht
      exact .inl ht
    · rw [hs.phase]
      exact ht
    · rw [hsame.2.2.2.2.2]

/-- The scan does not wrap around. -/
theorem nextIdx_eq (hfit : c.Fits) (hidx : idx < c.taskCount) :
    c.nextIdx idx = idx + c.schedulers :=
  Nat.mod_eq_of_lt (by have := hfit.scan; omega)

theorem nextIdx_mod (hfit : c.Fits) (hidx : idx < c.taskCount) :
    c.nextIdx idx % c.schedulers = idx % c.schedulers := by
  rw [nextIdx_eq hfit hidx, Nat.add_mod_right]

theorem schedulers_pos (c : Dag) : 0 < c.schedulers := by
  unfold Launch.schedulers
  split <;> omega

theorem lt_nextIdx (hfit : c.Fits) (hidx : idx < c.taskCount) : idx < c.nextIdx idx := by
  rw [nextIdx_eq hfit hidx]
  exact Nat.lt_add_of_pos_right (schedulers_pos c)

/-- Nobody has touched the counters, and the scan comes by once. -/
theorem Inv.root_unready (h : Inv c s) (hb : b < c.schedulers) (hpc : s.sched b = .init idx)
    (hzero : s.fanin idx = 0) : s.phase idx = .unready := by
  have hok := h.schedAt hb hpc
  have hmod : idx % c.schedulers = b := hok
  have hunt := h.inits.untouched b hb (by rw [hpc]; rfl)
  by_contra hne
  have := h.inits.cursor idx (by rw [← hunt]; exact hzero) hne idx (by rw [hmod, hpc]; rfl)
  omega

/-- A step of the initial scan. -/
theorem Inv.init (h : Inv c s) (hfit : c.Fits) (hb : b < c.schedulers)
    (hpc : s.sched b = .init idx) (hs : s.schedStep c b = some s') : Inv c s' := by
  have hok := h.schedAt hb hpc
  have hmod : idx % c.schedulers = b := hok
  simp only [State.schedStep, hpc] at hs
  split at hs
  · rename_i hidx
    split at hs
    · cases hs
      refine h.turn (by rw [hpc]; rfl) (fun idx' he => ?_) ⟨hmod, hidx⟩
      cases he
      exact ⟨idx, by rw [hpc]; rfl, le_rfl⟩
    · rename_i hfanin
      split at hs
      -- a root: this block alone scans it, and only once
      · rename_i hroot
        cases hs
        have hzero : s.fanin idx = 0 := by omega
        have hph := h.root_unready hb hpc hzero
        refine h.ofSched (.pushRoot hph) (h.ledger.pushRoot hidx hph hzero)
          (h.clean.later (.pushRoot (b := b) hph) rfl) ?_ ?_ rfl rfl ⟨?_, ?_⟩
        · refine h.inits.turn rfl rfl rfl (.inl rfl) (fun t _ hne => ?_) (by rw [hpc]; rfl)
            fun idx' he => ?_
          · by_cases he : t = idx
            · refine .inr ⟨he ▸ hmod, fun idx' hidx' => ?_⟩
              cases hidx'
              rw [he]
              exact lt_nextIdx hfit hidx
            · left
              rwa [show (s.setPhase idx (.pushing b)).phase t = s.phase t from
                update_of_ne he ..] at hne
          · cases he
            exact ⟨idx, by rw [hpc]; rfl, le_of_lt (lt_nextIdx hfit hidx)⟩
        · exact h.tickets.later (fun _ _ => .inl) (update_queued (by simp [hph])) rfl rfl rfl
        · exact update_self ..
        · exact (nextIdx_mod hfit hidx).trans hmod
      · cases hs
        refine h.turn (by rw [hpc]; rfl) (fun idx' he => ?_) ((nextIdx_mod hfit hidx).trans hmod)
        cases he
        exact ⟨idx, by rw [hpc]; rfl, le_of_lt (lt_nextIdx hfit hidx)⟩
  -- the scan is over
  · cases hs
    exact h.turn (by rw [hpc]; rfl) nofun trivial

/-- What a block knows about its task survives an operation on another task. -/
theorem Handling.of (h : Handling c s b u idx) (hl : Later c o s s₁)
    (hph : s₁.phase u = .processing b) : Handling c s₁ b u idx :=
  ⟨h.inited.later hl, hph, h.passed.later hl⟩

theorem ReturnOk.sched {k : PushReturn} (h : ReturnOk c s b k) : SchedOk c s b k.pc := by
  cases k <;> exact h

theorem initialising_pc (k : PushReturn) (pc : PushPc) :
    k.pc.initialising = (SchedPc.push pc k).initialising ∧
      k.pc.cursor? = (SchedPc.push pc k).cursor? := by
  cases k <;> exact ⟨rfl, rfl⟩

/-- A step of a push. -/
theorem Inv.push {pc : PushPc} {k : PushReturn} (h : Inv c s) (hb : b < c.schedulers)
    (hpc : s.sched b = .push pc k) (hs : s.pushStep c b k pc = some s') : Inv c s' := by
  have hok := h.schedAt hb hpc
  obtain ⟨hpush, hret⟩ := hok
  cases pc with
  | ticket t =>
    cases hs
    have hph : s.phase t = .pushing b := hpush
    have hl : Later c (.sched b) s (s.drawReady t) := .drawReady hph
    refine h.ofSched hl (h.ledger.drawReady hph) (h.clean.later hl rfl) ?_ ?_ rfl rfl ⟨?_, ?_⟩
    · exact h.inits.turn rfl rfl rfl (.inl rfl)
        (fun x _ hx => .inl (update_ne_unready (by simp [hph]) x hx)) (by rw [hpc]; cases k <;> rfl)
        fun idx' he => ⟨idx', by rw [hpc]; cases k <;> exact he, le_rfl⟩
    · refine h.tickets.later (fun i x hx => ?_) (fun x hx => ?_) rfl rfl rfl
      · rcases getElem?_concat_cases hx with hx | ⟨-, rfl⟩
        · exact .inl hx
        · exact .inr (update_self ..)
      · show update s.phase t .queued x = .queued
        rw [update_apply]
        split
        · rfl
        · exact hx
    · show (s.pushed ++ [t])[s.ready.tail]? = some t
      rw [h.ledger.ready.tail]
      exact getElem?_concat_length
    · cases k with
      | init => exact hret
      | dependent u idx =>
        refine Handling.of hret hl ((update_of_ne ?_ ..).trans hret.phase)
        rintro rfl
        have := hret.phase
        rw [hph] at this
        cases this
  | wait t i =>
    obtain ⟨-, heq⟩ := ite_none_right_eq_some.mp hs
    cases heq
    exact h.turn (by rw [hpc]; cases k <;> rfl)
      (fun idx' he => ⟨idx', by rw [hpc]; cases k <;> exact he, le_rfl⟩) ⟨hpush, hret⟩
  | publish t i =>
    cases hs
    have hi : s.pushed[i]? = some t := hpush
    have hl : Later c (.sched b) s (s.publishReady c t i) := .publishReady h.ledger hi
    refine h.ofSched hl (h.ledger.publishReady hi) (h.clean.later hl rfl) ?_ ?_ rfl rfl
      (ReturnOk.sched ?_)
    · refine h.inits.turn rfl rfl rfl (.inl rfl) (fun _ _ => .inl) ?_ fun idx' he => ⟨idx', ?_,
        le_rfl⟩
      · rw [hpc]
        exact (initialising_pc k _).1
      · rw [hpc, ← (initialising_pc k _).2]
        exact he
    · exact h.tickets.later (fun _ _ => .inl) (fun _ => id) rfl rfl rfl
    · cases k with
      | init => exact hret
      | dependent u idx => exact Handling.of hret hl hret.phase

/-- `pto_dag_try_pop_completion` has failed. -/
theorem popFailed_ok (late : Bool) (hall : AllInited c s) : SchedOk c s b (popFailed b late) := by
  unfold popFailed
  split
  · exact hall
  · split
    · exact hall
    · exact .inl hall

theorem popFailed_frame (late : Bool) :
    (popFailed b late).initialising = false ∧ (popFailed b late).cursor? = none := by
  unfold popFailed
  split
  · exact ⟨rfl, rfl⟩
  · split <;> exact ⟨rfl, rfl⟩

/-- A block that is past its initial scan moves on. -/
theorem Inv.move (h : Inv c s) (hpast : (s.sched b).initialising = false)
    (hinit : pc.initialising = false) (hcursor : pc.cursor? = none) (hok : SchedOk c s b pc) :
    Inv c (s.setSched b pc) := by
  refine h.turn (hinit.trans hpast.symm) (fun idx' he => ?_) hok
  rw [hcursor] at he
  cases he

/-- A step of a pop. -/
theorem Inv.pop {late : Bool} {pc : PopPc} (h : Inv c s) (hb : b < c.schedulers)
    (hpc : s.sched b = .pop late pc) (hs : s.popStep c b late pc = some s') : Inv c s' := by
  have hok := h.schedAt hb hpc
  have hpast : (s.sched b).initialising = false := by rw [hpc]; rfl
  cases pc with
  | head =>
    cases hs
    exact h.move hpast rfl rfl hok
  | tail head =>
    simp only [State.popStep] at hs
    split at hs <;> cases hs
    · exact h.move hpast (popFailed_frame late).1 (popFailed_frame late).2 (popFailed_ok late hok)
    · rename_i hlt
      rw [h.ledger.completion.tail] at hlt
      exact h.move hpast rfl rfl ⟨hok, by omega⟩
  | cas head =>
    simp only [State.popStep] at hs
    obtain ⟨hall, hlt⟩ := hok
    split at hs <;> cases hs
    · rename_i hhead
      -- the ticket at the head is that of a task nobody else has
      obtain ⟨t, ht⟩ : ∃ t, s.reported[head]? = some t := ⟨_, getElem?_eq_getElem hlt⟩
      have hph := h.ledger.unclaimed head t (by omega) ht
      have hl : Later c (.sched b) s (s.claim b head) := .claim h.ledger hhead ht
      refine h.ofSched hl (h.ledger.claim hhead ht) (h.clean.later hl rfl) ?_ ?_ rfl rfl
        ⟨hall.later hl, t, hl.reported head t ht, ?_⟩
      · refine h.inits.turn rfl rfl rfl (.inl rfl) (fun x _ hx => .inl ?_) (by rw [hpc]; rfl) nofun
        rw [claim_eq ht] at hx
        exact update_ne_unready (by simp [hph]) x hx
      · refine h.tickets.later (fun _ _ => .inl) (fun x hx => ?_) rfl rfl rfl
        rw [claim_eq ht]
        exact update_queued (by simp [hph]) x hx
      · rw [claim_eq ht]
        exact update_self ..
    · exact h.move hpast rfl rfl hall
  | wait i =>
    simp only [State.popStep] at hs
    obtain ⟨hall, hcl⟩ := hok
    split at hs <;> cases hs
    -- the flag with the ticket's number
    · rename_i hflag
      obtain ⟨t, ht, -⟩ := id hcl
      have hlt := lt_of_lt_of_le (List.getElem?_eq_some_iff.mp ht).1 h.ledger.completion.room
      exact h.move hpast rfl rfl ⟨hall, hcl, h.ledger.completion.wrote_of_flag hlt hflag⟩
    · exact h.move hpast rfl rfl ⟨hall, hcl⟩
  | error i =>
    simp only [State.popStep] at hs
    split at hs <;> cases hs
    · exact h.move hpast (popFailed_frame late).1 (popFailed_frame late).2 (popFailed_ok late hok.1)
    · exact h.move hpast rfl rfl hok
  | take i =>
    cases hs
    obtain ⟨hall, ⟨t, ht, hph⟩, hwrote⟩ := hok
    have hcell : s.completion.cells (i % c.queueCapacity) = t :=
      some.inj (hwrote.symm.trans ht)
    refine h.ofSched .clearCompletion h.ledger.clearCompletion
      (h.clean.later (.clearCompletion (o := .sched b)) rfl) ?_ ?_ rfl rfl ⟨hall, ?_⟩
    · exact h.inits.turn rfl rfl rfl (.inl rfl) (fun _ _ => .inl) (by rw [hpc]; rfl) nofun
    · exact h.tickets.later (fun _ _ => .inl) (fun _ => id) rfl rfl rfl
    · rw [hcell]
      exact hph

/-- A block is through its scan. -/
theorem Inv.initCount (h : Inv c s) (hb : b < c.schedulers) (hpc : s.sched b = .initCount) :
    Inv c ((s.countInit b).setSched b .barrier) := by
  have hl : Later c (.sched b) s (s.countInit b) :=
    { Later.refl (o := .sched b) s with inits := Nat.le_succ _ }
  refine h.ofSched hl { h.ledger with } (h.clean.later hl rfl) ?_ { h.tickets with } rfl rfl trivial
  refine ⟨h.inits.inited.concat (x := b) ?_ fun b' => ?_, ?_, fun b' hb' hi => ?_,
    fun t ht hph idx hidx => ?_⟩
  · rw [hpc]
    exact fun hinit => by cases hinit.2
  · show b' < c.schedulers ∧ (update s.sched b .barrier b').initialising = false ↔ _
    rw [update_apply]
    split
    · rename_i he
      exact ⟨fun _ => .inr he, fun _ => ⟨he ▸ hb, rfl⟩⟩
    · rename_i hne
      exact ⟨.inl, fun hx => hx.resolve_right hne⟩
  · show s.initCount + 1 = (s.inited ++ [b]).length
    rw [length_append, h.inits.count]
    rfl
  · replace hi : (update s.sched b .barrier b').initialising = true := hi
    rw [update_apply] at hi
    split at hi
    · cases hi
    · exact h.inits.untouched b' hb' hi
  · replace hidx : (update s.sched b .barrier (t % c.schedulers)).cursor? = some idx := hidx
    rw [update_apply] at hidx
    split at hidx
    · cases hidx
    · exact h.inits.cursor t ht hph idx hidx

theorem afterBarrier_ok (hin : AllInited c s ∨ s.errorCount ≠ 0) :
    SchedOk c s b (afterBarrier c b) := by
  unfold afterBarrier
  split <;> exact hin

theorem afterBarrier_frame :
    (afterBarrier c b).initialising = false ∧ (afterBarrier c b).cursor? = none := by
  unfold afterBarrier
  split <;> exact ⟨rfl, rfl⟩

/-- Nobody relies on the statistics. -/
theorem Inv.stat {loops processed : Nat} {byBlock : Nat → Nat} (h : Inv c s) :
    Inv c { s with
      loopCount := loops, processedCount := processed, processedByBlock := byBlock } where
  ledger := { h.ledger with }
  clean := h.clean
  inits := { h.inits with }
  tickets := { h.tickets with }
  sched b hb := (h.sched b hb).later (o := .work 0) { Later.refl (o := .work 0) s with } nofun
  work w hw := (h.work w hw).later (o := .sched 0) { Later.refl (o := .sched 0) s with } nofun

/-- The block takes one off a dependent's fanin. -/
theorem Inv.decrement (h : Inv c s) (hb : b < c.schedulers) (hpc : s.sched b = .casFanin u idx old)
    (hfanin : s.fanin (c.dependentId u idx) = old) :
    Inv c ((s.decrement b u (c.dependentId u idx) old).setSched b
      (if old = 1 then .push (.ticket (c.dependentId u idx)) (.dependent u (idx + 1))
        else .dependent u (idx + 1))) := by
  have hok := h.schedAt hb hpc
  obtain ⟨hhandling, hd, hold⟩ := hok
  have hl : Later c (.sched b) s (s.decrement b u (c.dependentId u idx) old) :=
    .decrement h.ledger hfanin hold
  have hunready := h.ledger.unready_of_fanin (t := c.dependentId u idx) (by rw [hfanin]; exact hold)
  have hu : (s.decrement b u (c.dependentId u idx) old).phase u = .processing b := by
    rw [phase_decrement, if_neg fun ha => ?_]
    · exact hhandling.phase
    · rw [← ha.2, hhandling.phase] at hunready
      cases hunready
  have hnext : Handling c (s.decrement b u (c.dependentId u idx) old) b u (idx + 1) := by
    refine ⟨hhandling.inited.later hl, hu, hhandling.passed.1, fun herr k hk =>
      mem_decs_decrement.mpr ?_⟩
    by_cases he : k = idx
    · exact .inr ⟨by rw [he], rfl⟩
    · exact .inl (hhandling.passed.2 herr k (by omega))
  refine h.ofSched hl (h.ledger.decrement hd hfanin hold (by rw [hhandling.phase]; simp))
    (h.clean.later hl rfl) ?_ ?_ rfl rfl ?_
  · refine h.inits.turn rfl rfl rfl (.inr hhandling.inited) (fun t ht hph => .inl ?_) ?_
      fun idx' he => ?_
    · rw [phase_decrement] at hph
      split_ifs at hph with he
      · -- a root has no fanin to take one off
        have := h.ledger.fanin (c.dependentId u idx)
        rw [← he.2, ht] at this
        rw [← he.2] at hfanin
        omega
      · exact hph
    · rw [hpc]
      split <;> rfl
    · split at he <;> cases he
  · refine h.tickets.later (fun _ _ => .inl) (fun t ht => ?_) rfl rfl rfl
    rw [phase_decrement, if_neg fun ha => ?_]
    · exact ht
    · rw [ha.2, hunready] at ht
      cases ht
  · split_ifs with hone
    · refine ⟨?_, hnext⟩
      show (s.decrement b u _ old).phase _ = _
      rw [phase_decrement, if_pos ⟨hone, rfl⟩]
    · exact hnext

/-- A block counts its task. -/
theorem Inv.countCompleted (h : Inv c s) (hb : b < c.schedulers)
    (hpc : s.sched b = .completedCount u) : Inv c ((s.countCompleted u).setSched b .loop) := by
  have hok := h.schedAt hb hpc
  have hhandling : Handling c s b u _ := hok
  have hl : Later c (.sched b) s (s.countCompleted u) := .countCompleted hhandling.phase
  refine h.ofSched hl (h.ledger.countCompleted hhandling.phase) (fun v hv => ?_) ?_ ?_ rfl rfl
    (.inl (hhandling.inited.later hl))
  · rcases mem_append.mp hv with hv | hv
    · exact (h.clean v hv).later hl
    · rw [mem_singleton.mp hv]
      exact hhandling.passed.later hl
  · exact h.inits.turn rfl rfl rfl (.inl rfl)
      (fun x _ hx => .inl (update_ne_unready (by simp [hhandling.phase]) x hx))
      (by rw [hpc]; rfl) nofun
  · exact h.tickets.later (fun _ _ => .inl) (update_queued (by simp [hhandling.phase])) rfl rfl rfl

/-- A step of a scheduler block. -/
theorem Inv.schedStep (h : Inv c s) (hfit : c.Fits) (hb : b < c.schedulers) (hpc : s.sched b = pc)
    (hs : s.schedStep c b = some s') : Inv c s' := by
  have hs₀ := hs
  have hok := h.schedAt hb hpc
  -- most steps only move the block
  have hmove {pc' : SchedPc} (hpast : pc.initialising = false) (hinit : pc'.initialising = false)
      (hcursor : pc'.cursor? = none) (hok' : SchedOk c s b pc') : Inv c (s.setSched b pc') :=
    h.move (by rw [hpc]; exact hpast) hinit hcursor hok'
  rw [State.schedStep, hpc] at hs
  cases pc <;> dsimp only at hs
  case init idx => exact h.init hfit hb hpc hs₀
  case push pc k => exact h.push hb hpc hs
  case pop late pc => exact h.pop hb hpc hs
  case initError idx =>
    cases hs
    obtain ⟨hmod, hidx⟩ := hok
    refine h.error 5 idx (by rw [hpc]; rfl) (fun idx' he => ?_) ((nextIdx_mod hfit hidx).trans hmod)
    cases he
    exact ⟨idx, by rw [hpc]; rfl, le_of_lt (lt_nextIdx hfit hidx)⟩
  case initCount =>
    cases hs
    exact h.initCount hb hpc
  case barrier =>
    split at hs <;> cases hs
    · exact hmove rfl rfl rfl trivial
    · rename_i hge
      exact hmove rfl afterBarrier_frame.1 afterBarrier_frame.2
        (afterBarrier_ok (.inl (not_lt.mp hge)))
  case barrierError =>
    split at hs <;> cases hs
    · exact hmove rfl rfl rfl trivial
    · rename_i hne
      exact hmove rfl afterBarrier_frame.1 afterBarrier_frame.2 (afterBarrier_ok (.inr hne))
  case checkTail => split at hs <;> cases hs <;> exact hmove rfl rfl rfl hok
  case tailError =>
    cases hs
    exact h.error 6 0 (by rw [hpc]; rfl) nofun (.inr (errorCount_recordError 6 0))
  case loopCount =>
    cases hs
    exact h.stat.move (by show (s.sched b).initialising = false; rw [hpc]; rfl) rfl rfl hok
  case loop =>
    split at hs <;> cases hs
    · exact hmove rfl rfl rfl hok
    · rename_i hall
      exact hmove rfl rfl rfl (.inl (not_lt.mp hall))
  case loopError =>
    split at hs <;> cases hs
    · rename_i hzero
      exact hmove rfl rfl rfl (hok.resolve_right fun hne => hne hzero)
    · rename_i hne
      exact hmove rfl rfl rfl (.inr hne)
  case process u =>
    split at hs <;> cases hs
    · exact hmove rfl rfl rfl hok
    · rename_i hrange
      exact hmove rfl rfl rfl
        ⟨hok.1, hok.2, not_lt.mp hrange, fun _ k hk => absurd hk (Nat.not_lt_zero k)⟩
  case rangeError u =>
    cases hs
    exact h.error 3 u (by rw [hpc]; rfl) nofun (.inr (errorCount_recordError 3 u))
  case dependent u idx =>
    have hhandling : Handling c s b u idx := hok
    split at hs
    · split at hs
      · cases hs
        exact hmove rfl rfl rfl hhandling
      · rename_i hd
        split at hs
        · cases hs
          exact hmove rfl rfl rfl hhandling
        · split at hs <;> cases hs
          · exact hmove rfl rfl rfl hhandling
          · exact hmove rfl rfl rfl ⟨hhandling, not_le.mp hd⟩
    · rename_i hidx
      cases hs
      refine hmove rfl rfl rfl ⟨hhandling.inited, hhandling.phase, hhandling.passed.1,
        fun herr k hk => ?_⟩
      exact hhandling.passed.2 herr k (by omega)
  case dependentError code u idx =>
    have hhandling : Handling c s b u idx := hok
    cases hs
    have hl := Later.recordError (c := c) (o := .sched b) (s := s) code (c.dependentId u idx)
    refine h.error code _ (by rw [hpc]; rfl) nofun
      ⟨hhandling.inited.later hl, ?_, hhandling.passed.1, fun herr => ?_⟩
    · rw [(Same.recordError code _).phase]
      exact hhandling.phase
    · exact absurd herr (errorCount_recordError code _)
  case readFanin u idx =>
    split at hs <;> cases hs
    · exact hmove rfl rfl rfl hok.1
    · rename_i hne
      exact hmove rfl rfl rfl ⟨hok.1, hok.2, hne⟩
  case casFanin u idx old =>
    split at hs <;> cases hs
    · exact h.decrement hb hpc ‹_›
    · exact hmove rfl rfl rfl ⟨hok.1, hok.2.1⟩
  case processedCount u | processedByBlock u =>
    have hhandling : Handling c s b u _ := hok
    cases hs
    exact h.stat.move (by show (s.sched b).initialising = false; rw [hpc]; rfl) rfl rfl
      { hhandling with }
  case completedCount u =>
    cases hs
    exact h.countCompleted hb hpc
  case published | finished | claimed =>
    cases hs
    exact hmove rfl rfl rfl hok
  case completed second published finished claimed =>
    split at hs <;> cases hs
    · cases second <;> exact hmove rfl rfl rfl hok
    · exact hmove rfl rfl rfl (.inl hok)
  case scan idx =>
    split at hs
    · split at hs <;> cases hs <;> exact hmove rfl rfl rfl hok
    · cases hs
      exact hmove rfl rfl rfl (.inl hok)
  case cycleError idx =>
    cases hs
    exact h.error 7 idx (by rw [hpc]; rfl) nofun (.inr (errorCount_recordError 7 idx))
  case done => cases hs

/-! ## Worker steps -/

/-- The ticket of a worker after a move of worker `w`. -/
theorem drawn_setWork {pc : WorkPc} {v : Nat}
    (hi : ((s.setWork w pc).work v).drawn? = some i) :
    v = w ∧ pc.drawn? = some i ∨ v ≠ w ∧ (s.work v).drawn? = some i := by
  replace hi : (update s.work w pc v).drawn? = some i := hi
  rw [update_apply] at hi
  split at hi
  · exact .inl ⟨‹_›, hi⟩
  · exact .inr ⟨‹_›, hi⟩

/-- Worker `w` draws a ticket behind the last task and leaves. -/
theorem Tickets.behind (h : Tickets c s) (hw : w < c.workerBlocks) (hnot : w ∉ s.returned) :
    Tickets c ({ s with
      ready := { s.ready with head := s.ready.head + 1 }
      returned := s.returned ++ [w] }.setWork w .done) where
  held v hv i hi := by
    rcases drawn_setWork hi with ⟨-, hi⟩ | ⟨-, hi⟩
    · cases hi
    · obtain ⟨hlt, hrest⟩ := h.held v hv i hi
      exact ⟨Nat.lt_succ_of_lt hlt, hrest⟩
  distinct v hv v' hv' i hi hi' := by
    rcases drawn_setWork hi with ⟨-, hi⟩ | ⟨-, hi⟩
    · cases hi
    · rcases drawn_setWork hi' with ⟨-, hi'⟩ | ⟨-, hi'⟩
      · cases hi'
      · exact h.distinct v hv v' hv' i hi hi'
  undrawn i t hi ht := h.undrawn i t (Nat.le_of_succ_le hi) ht
  returned := by
    show (s.returned ++ [w]).Nodup
    rw [← concat_eq_append]
    exact h.returned.concat hnot
  gone v hv := by
    show _ ∧ update s.work w .done v = .done
    rcases mem_append.mp hv with hold | hnew
    · refine ⟨(h.gone v hold).1, (update_of_ne ?_ ..).trans (h.gone v hold).2⟩
      rintro rfl
      exact hnot hold
    · cases mem_singleton.mp hnew
      exact ⟨hw, update_self ..⟩
  head := by
    show s.ready.head + 1 ≤ c.taskCount + (s.returned ++ [w]).length
    rw [length_append]
    exact Nat.succ_le_succ h.head

/-- Worker `w` draws the ticket of a task, which is nobody else's. -/
theorem Tickets.draw (h : Tickets c s) (hnot : w ∉ s.returned) (hlt : s.ready.head < c.taskCount) :
    Tickets c ({ s with ready := { s.ready with head := s.ready.head + 1 } }.setWork w
      (.wait s.ready.head)) where
  held v hv i hi := by
    rcases drawn_setWork hi with ⟨-, hi⟩ | ⟨-, hi⟩
    · cases hi
      exact ⟨Nat.lt_succ_self _, hlt, fun t => h.undrawn _ t le_rfl⟩
    · obtain ⟨hlt, hrest⟩ := h.held v hv i hi
      exact ⟨Nat.lt_succ_of_lt hlt, hrest⟩
  distinct v hv v' hv' i hi hi' := by
    rcases drawn_setWork hi with ⟨hvw, hnew⟩ | ⟨-, hold⟩
    · rcases drawn_setWork hi' with ⟨hvw', -⟩ | ⟨-, hold'⟩
      · exact hvw.trans hvw'.symm
      · cases hnew
        exact absurd (h.held v' hv' _ hold').1 (lt_irrefl _)
    · rcases drawn_setWork hi' with ⟨-, hnew'⟩ | ⟨-, hold'⟩
      · cases hnew'
        exact absurd (h.held v hv _ hold).1 (lt_irrefl _)
      · exact h.distinct v hv v' hv' i hold hold'
  undrawn i t hi ht := h.undrawn i t (Nat.le_of_succ_le hi) ht
  returned := h.returned
  gone v hv := by
    refine ⟨(h.gone v hv).1, (update_of_ne ?_ ..).trans (h.gone v hv).2⟩
    rintro rfl
    exact hnot hv
  head := by
    show s.ready.head + 1 ≤ c.taskCount + s.returned.length
    omega

/-- Who drew a ticket behind the last task is gone. -/
theorem Inv.not_returned (h : Inv c s) (hpc : s.work w = .ticket) : w ∉ s.returned := by
  intro hmem
  rw [(h.tickets.gone w hmem).2] at hpc
  cases hpc

/-- The head of the ready queue does not wrap around. -/
theorem Inv.nextHead_eq (h : Inv c s) (hfit : c.Fits) (hw : w < c.workerBlocks)
    (hpc : s.work w = .ticket) : (s.ready.head + 1) % 2 ^ 32 = s.ready.head + 1 := by
  have hlen : s.returned.length < c.workerBlocks := by
    have hsub : (s.returned ++ [w]) ⊆ range c.workerBlocks := by
      intro x hx
      rw [mem_range]
      rcases mem_append.mp hx with hx | hx
      · exact (h.tickets.gone x hx).1
      · exact mem_singleton.mp hx ▸ hw
    have hnodup : (s.returned ++ [w]).Nodup := by
      rw [← concat_eq_append]
      exact h.tickets.returned.concat (h.not_returned hpc)
    have := (hnodup.subperm hsub).length_le
    rw [length_append, length_range] at this
    exact this
  have h₁ := h.tickets.head
  have h₂ := hfit.heads
  exact Nat.mod_eq_of_lt (by omega)

/-- The block draws the next ready ticket. -/
theorem Inv.drawTicket (h : Inv c s) (hfit : c.Fits) (hw : w < c.workerBlocks)
    (hpc : s.work w = .ticket) (hs : s.workStep c w = some s') : Inv c s' := by
  have hl {s₁ : State} (he : s₁ = { s with ready := s₁.ready, returned := s₁.returned })
      (hcells : s₁.ready.cells = s.ready.cells) : Later c (.work w) s s₁ := by
    rw [he]
    refine { Later.refl (o := .work w) s with readyCell := fun j hj => ?_ }
    unfold TicketQueue.Wrote at hj ⊢
    rw [hcells]
    exact hj
  simp only [State.workStep, hpc, h.nextHead_eq hfit hw hpc] at hs
  split at hs <;> cases hs
  · exact h.ofWork (hl rfl rfl) { h.ledger with ready := { h.ledger.ready with } } h.clean
      { h.inits with } (h.tickets.behind hw (h.not_returned hpc)) rfl rfl trivial
  · rename_i hlt
    exact h.ofWork (hl rfl rfl) { h.ledger with ready := { h.ledger.ready with } } h.clean
      { h.inits with } (h.tickets.draw (h.not_returned hpc) (not_le.mp hlt)) rfl rfl trivial

/-- The worker only moves. -/
theorem Inv.workTurn {pc : WorkPc} (h : Inv c s) (hw : w < c.workerBlocks)
    (hlive : s.work w ≠ .done) (hdrawn : ∀ i, pc.drawn? = some i → (s.work w).drawn? = some i)
    (hok : WorkOk c s w pc) : Inv c (s.setWork w pc) :=
  h.ofWork (.refl s) h.ledger h.clean h.inits
    (h.tickets.turn rfl (fun _ _ _ _ => id) rfl rfl rfl hlive hw hdrawn) rfl rfl hok

/-- A worker takes its task. -/
theorem Inv.take (h : Inv c s) (hw : w < c.workerBlocks) (hpc : s.work w = .take i) :
    Inv c ((s.startTask c w (s.ready.cells (i % c.queueCapacity)) i).setWork w
      (.run (s.ready.cells (i % c.queueCapacity)))) := by
  have hok := h.workAt hw hpc
  have hcell : s.pushed[i]? = some (s.ready.cells (i % c.queueCapacity)) := hok
  have hmine : (s.work w).drawn? = some i := by rw [hpc]; rfl
  obtain ⟨hhead, -, hqueued⟩ := h.tickets.held w hw i hmine
  generalize s.ready.cells (i % c.queueCapacity) = t at hcell
  have hph := hqueued t hcell
  have hl : Later c (.work w) s (s.startTask c w t i) := .startTask hph
  refine h.ofWork hl (h.ledger.startTask hph) (h.clean.later hl rfl)
    (h.inits.ofWork rfl rfl rfl rfl (update_ne_unready (by simp [hph])))
    (h.tickets.turn rfl (fun j x hj hx hq => ?_) rfl rfl rfl (by simp [hpc]) hw nofun) rfl rfl
    (update_self ..)
  -- nobody else has a ticket of this task
  refine (update_of_ne ?_ ..).trans hq
  rintro rfl
  have hji : j = i := (getElem?_inj (List.getElem?_eq_some_iff.mp hx).1
    h.ledger.pushed.nodup).mp (hx.trans hcell.symm)
  subst hji
  rcases hj with ⟨v, hv, hne, hdrawn⟩ | hnone | hge
  · exact hne (h.tickets.distinct v hv w hw j hdrawn hmine)
  · cases hnone
  · omega

theorem Inv.finishTask (h : Inv c s) (hw : w < c.workerBlocks) (hpc : s.work w = .run t) :
    Inv c ((s.finishTask w t).setWork w (.report (.ticket t))) := by
  have hok := h.workAt hw hpc
  have hph : s.phase t = .running w := hok
  have hl : Later c (.work w) s (s.finishTask w t) := .finishTask hph
  exact h.ofWork hl (h.ledger.finishTask hph) (h.clean.later hl rfl)
    (h.inits.ofWork rfl rfl rfl rfl (update_ne_unready (by simp [hph])))
    (h.tickets.turn rfl (fun _ x _ _ => update_queued (by simp [hph]) x) rfl rfl rfl (by simp [hpc])
      hw nofun) rfl rfl (update_self ..)

theorem Inv.fail (h : Inv c s) (hw : w < c.workerBlocks) (hpc : s.work w = .fail t) :
    Inv c ((s.recordError 1 t).setWork w .ticket) := by
  have hs := Same.recordError (s := s) 1 t
  have hl := Later.recordError (c := c) (o := .work w) (s := s) 1 t
  have hframe := recordError_frame (s := s) 1 t
  refine h.ofWork hl (h.ledger.same hs) (h.clean.later hl hs.counted) ?_ ?_ hframe.1 hframe.2.1
    trivial
  · refine h.inits.ofWork hframe.1 hframe.2.2.1 hframe.2.2.2.1 hs.fanin fun x hx => ?_
    rwa [hs.phase] at hx
  · refine h.tickets.turn hs.pushed (fun _ x _ _ hx => ?_) ?_ hframe.2.1 hframe.2.2.2.2.1
      (by simp [hpc]) hw nofun
    · rwa [hs.phase]
    · rw [hframe.2.2.2.2.2]

/-- A step of a report. -/
theorem Inv.report {pc : PushPc} (h : Inv c s) (hw : w < c.workerBlocks)
    (hpc : s.work w = .report pc) (hs : s.reportStep c w pc = some s') : Inv c s' := by
  have hok := h.workAt hw hpc
  cases pc with
  | ticket t =>
    cases hs
    have hph : s.phase t = .reporting w := hok
    have hl : Later c (.work w) s (s.drawCompletion t) := .drawCompletion hph
    refine h.ofWork hl (h.ledger.drawCompletion hph) (h.clean.later hl rfl)
      (h.inits.ofWork rfl rfl rfl rfl (update_ne_unready (by simp [hph])))
      (h.tickets.turn rfl (fun _ x _ _ => update_queued (by simp [hph]) x) rfl rfl rfl
        (by simp [hpc]) hw nofun) rfl rfl ?_
    show (s.reported ++ [t])[s.completion.tail]? = some t
    rw [h.ledger.completion.tail]
    exact getElem?_concat_length
  | wait t i =>
    obtain ⟨-, heq⟩ := ite_none_right_eq_some.mp hs
    cases heq
    exact h.workTurn hw (by simp [hpc]) nofun hok
  | publish t i =>
    cases hs
    have hi : s.reported[i]? = some t := hok
    have hl : Later c (.work w) s (s.publishCompletion c t i) := .publishCompletion h.ledger hi
    exact h.ofWork hl (h.ledger.publishCompletion hi) (h.clean.later hl rfl)
      (h.inits.ofWork rfl rfl rfl rfl fun _ => id)
      (h.tickets.turn rfl (fun _ _ _ _ => id) rfl rfl rfl (by simp [hpc]) hw nofun) rfl rfl trivial

/-- A step of a worker block. -/
theorem Inv.workStep {pc : WorkPc} (h : Inv c s) (hfit : c.Fits) (hw : w < c.workerBlocks)
    (hpc : s.work w = pc) (hs : s.workStep c w = some s') : Inv c s' := by
  have hs₀ := hs
  have hok := h.workAt hw hpc
  have hmove {pc' : WorkPc} (hlive : pc ≠ .done)
      (hdrawn : ∀ i, pc'.drawn? = some i → pc.drawn? = some i)
      (hok' : WorkOk c s w pc') : Inv c (s.setWork w pc') :=
    h.workTurn hw (hpc ▸ hlive) (hpc ▸ hdrawn) hok'
  rw [State.workStep, hpc] at hs
  cases pc <;> dsimp only at hs
  case ticket => exact h.drawTicket hfit hw hpc hs₀
  case wait i =>
    obtain ⟨-, hi, -⟩ := h.tickets.held w hw i (by rw [hpc]; rfl)
    split at hs <;> cases hs
    · rename_i hflag
      exact hmove nofun (fun _ => id)
        (h.ledger.ready.wrote_of_flag (lt_of_lt_of_le hi c.roomy) hflag)
    · exact hmove nofun (fun _ => id) trivial
  case error i =>
    split at hs <;> cases hs
    · exact hmove nofun nofun trivial
    · exact hmove nofun (fun _ => id) trivial
  case take i =>
    cases hs
    exact h.take hw hpc
  case run t =>
    split at hs <;> cases hs
    · exact h.finishTask hw hpc
    · exact hmove nofun nofun hok
  case fail t =>
    cases hs
    exact h.fail hw hpc
  case report pc => exact h.report hw hpc hs
  case done => cases hs

/-! ## Runs -/

/-- The state at the launch. -/
theorem Inv.launch (c : Dag) : Inv c (State.init c) where
  ledger :=
    { zero := fun _ h => absurd rfl h
      pushed := ⟨nodup_nil, fun _ => ⟨nofun, nofun⟩⟩
      reported := ⟨nodup_nil, fun _ => ⟨nofun, nofun⟩⟩
      counted := ⟨nodup_nil, fun _ => ⟨nofun, nofun⟩⟩
      log := ⟨nodup_nil, fun e => ⟨nofun, by cases e <;> exact nofun⟩⟩
      ready := .fresh _
      completion := .fresh _
      unclaimed := nofun
      fanin := fun _ => rfl
      finished := nofun
      order := fun _ _ _ _ => nofun
      completedCount := rfl }
  clean := nofun
  inits :=
    { inited := ⟨nodup_nil, fun _ => ⟨nofun, nofun⟩⟩
      count := rfl
      untouched := fun _ _ _ => rfl
      cursor := fun _ _ h => absurd rfl h }
  tickets :=
    { held := nofun
      distinct := nofun
      undrawn := nofun
      returned := nodup_nil
      gone := nofun
      head := Nat.zero_le _ }
  sched b hb := Nat.mod_eq_of_lt hb
  work _ _ := trivial

theorem Inv.step {a : Act} (h : Inv c s) (hfit : c.Fits) (hs : s.step c a = some s') :
    Inv c s' := by
  cases a with
  | sched b =>
    obtain ⟨hb, hs⟩ := ite_none_right_eq_some.mp hs
    exact h.schedStep hfit hb rfl hs
  | work w =>
    obtain ⟨hw, hs⟩ := ite_none_right_eq_some.mp hs
    exact h.workStep hfit hw rfl hs

/-- In every run of every table whose sums fit. -/
theorem Inv.reach {ok : State → Act → Prop} (hfit : c.Fits)
    (hr : Reach (State.step c) ok (State.init c) s) : Inv c s :=
  hr.invariant (Inv.launch c) fun _ _ _ _ h _ hs => h.step hfit hs

end PtoRuntime.Cuda
