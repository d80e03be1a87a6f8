import PtoRuntime.Tmrb.Dispatch

/-!
# The steps of the dispatcher

The invariant of `Dispatch` is kept by the steps that claim and dispatch blocks, by those of the
drain, and so by all. Where tasks and blocks go is said by the labels of `Lib.Placed`: tasks move
between places, and blocks from unclaimed to claimed to dispatched.
-/

namespace PtoRuntime.Tmrb

open Lib Function List
open Option (ite_none_right_eq_some map_eq_some_iff)

variable {k : Nat} {d : Drain TaskId}

namespace Dispatcher

variable {c : DispatchConfig} {s s' : Dispatcher} {t : Nat} {x : TaskId} {items : List TaskId}
  {a b p : Place}

/-! ## Blocks and the drain -/

theorem mem_nextBlocks {m : Nat} {y : TaskId} : (y, m) ∈ s.nextBlocks x k ↔
    y = x ∧ s.drain.nextBlockIdx x ≤ m ∧ m < s.drain.nextBlockIdx x + k := by
  simp only [nextBlocks, mem_map, mem_range'_1, Prod.mk.injEq]
  constructor
  · rintro ⟨m', hm, rfl, rfl⟩
    exact ⟨rfl, hm⟩
  · rintro ⟨rfl, hm⟩
    exact ⟨m, hm, rfl, rfl⟩

/-- Unclaimed blocks of one task are claimed or dispatched. -/
theorem BlocksOk.advance (h : s.BlocksOk) {p : BlockPlace} (hp : p ≠ .unclaimed)
    (hnext : s'.drain.nextBlockIdx =
      update s.drain.nextBlockIdx x (s.drain.nextBlockIdx x + k))
    (hto : (s'.blocks p).Perm (s.blocks p ++ s.nextBlocks x k))
    (hrest : ∀ p', p'.Held → p' ≠ p → s'.blocks p' = s.blocks p') : s'.BlocksOk := by
  obtain ⟨label, hplaced, hlabel⟩ := h
  have hnodup : (s.nextBlocks x k).Nodup :=
    List.Nodup.map (fun _ _ he => (Prod.ext_iff.mp he).2) nodup_range'
  refine ⟨relabel label (s.nextBlocks x k) p, ?_, ?_⟩
  · refine hplaced.move (a := .unclaimed) ?_ hnodup hp.symm (by intro ha; exact ha.elim)
      (fun _ => hto)
      fun p' hp' _ hne => hrest p' hp' hne
    rintro ⟨y, m⟩ hm
    obtain ⟨rfl, hle, -⟩ := mem_nextBlocks.mp hm
    exact (hlabel y m).mpr hle
  · intro y m
    rw [hnext, update_apply]
    by_cases hm : (y, m) ∈ s.nextBlocks x k
    · obtain ⟨rfl, -, hlt⟩ := mem_nextBlocks.mp hm
      rw [relabel_of_mem hm, if_pos rfl]
      exact iff_of_false hp (by omega)
    · rw [relabel_of_not_mem hm, hlabel]
      split_ifs with he
      · subst he
        have hout : ¬ (s.drain.nextBlockIdx y ≤ m ∧ m < s.drain.nextBlockIdx y + k) :=
          fun hin => hm (mem_nextBlocks.mpr ⟨rfl, hin⟩)
        omega
      · rfl

theorem Inv.drain_step (h : Inv c s) {act : Drain.Act TaskId}
    (hst : s.drain.step c.drain act = some d) (hok : Drain.DrainGuard s.drain act) :
    Drain.Control c.drain d ∧ Drain.Blocks c.drain d :=
  ⟨h.control.step hok h.drain.pendingTask_of hst, h.drain.step h.control hok hst⟩

/-- The drain makes a step that has nothing to do with tasks. -/
theorem Inv.drain_quiet (h : Inv c s) (hcontrol : Drain.Control c.drain d)
    (hdrain : Drain.Blocks c.drain d)
    (hthread : ∀ t x, d.thread t = .enterTask x ↔ s.drain.thread t = .enterTask x)
    (htask : d.pendingTask = s.drain.pendingTask) (hnext : d.nextBlockIdx = s.drain.nextBlockIdx)
    (hlog : d.dispatched = s.drain.dispatched) : Inv c { s with drain := d } := by
  refine { h with control := hcontrol, drain := hdrain, calls := { h.calls with }, slot := ?_,
                  tasks := ?_, blocks := ?_, le := ?_ }
  · intro x
    rw [h.slot]
    simp only [InDrain, htask, hthread]
  · intro x
    exact (h.tasks x).congr (congrFun hnext x)
  · have hblocks : Dispatcher.blocks { s with drain := d } = s.blocks := funext fun p => by
      cases p <;> simp only [Dispatcher.blocks, log, hlog]
    simp only [BlocksOk, hblocks, hnext]
    exact h.blocks
  · intro x
    exact (congrFun hnext x).trans_le (h.le x)

/-- Blocks are claimed, and the task may be put away. -/
theorem Inv.claimed (h : Inv c s) (hm : Move s s' items a b) (ha : a ≠ .drain) (hb : b ≠ .drain)
    (hst : s.drain.step c.drain (.claim x k) = some d) (hdrain : s'.drain = d)
    (hclaimed : s'.claimed = update s.claimed t (s.claimed t ++ s.nextBlocks x k))
    (hdispatched : s'.dispatched = s.dispatched) (hqueues : s'.queues = s.queues)
    (hcalls : Calls s') (htasks : ∀ y, TaskOk c s' y (s'.place y)) : Inv c s' := by
  obtain ⟨hcontrol, hblocks⟩ := h.drain_step hst trivial
  obtain ⟨⟨-, hle⟩, hst⟩ := ite_none_right_eq_some.mp hst
  cases hst
  refine ⟨hdrain ▸ hcontrol, hdrain ▸ hblocks, hqueues ▸ h.queues, hqueues ▸ h.pushed, hcalls,
    hm.placed h.placed, hm.slot h.slot ha hb ?_, htasks, ?_, ?_⟩
  · intro y
    unfold InDrain
    rw [hdrain]
  · refine h.blocks.advance (p := .claimed t) nofun (by rw [hdrain]) ?_ ?_
    · show (s'.claimed t).Perm _
      rw [hclaimed, update_self]
      rfl
    · intro p hp hne
      cases p with
      | unclaimed => exact hp.elim
      | dispatched => simp only [Dispatcher.blocks, log, hdispatched, hdrain]
      | claimed t' =>
        show s'.claimed t' = _
        rw [hclaimed, update_of_ne fun he => hne (congrArg BlockPlace.claimed he)]
        rfl
  · intro y
    rw [hdrain]
    exact (forall_update_iff s.drain.nextBlockIdx fun y n => n ≤ c.drain.blockNum y).mpr
      ⟨hle, fun y _ => h.le y⟩ y

theorem Inv.claim (h : Inv c s) (hst : s.claim c t x k = some s') : Inv c s' := by
  obtain ⟨⟨⟨-, hidle, -⟩, hx, hshape, -, -⟩, hst⟩ := ite_none_right_eq_some.mp hst
  obtain ⟨d, hstep, rfl⟩ := map_eq_some_iff.mp hst
  have hplace := (mem_hand_iff h).mp hx
  obtain ⟨⟨-, hle⟩, hd⟩ := ite_none_right_eq_some.mp hstep
  have hself : d.nextBlockIdx x = s.drain.nextBlockIdx x + k := by
    cases hd
    exact update_self ..
  have hother (y : TaskId) (hy : y ∉ [x]) : d.nextBlockIdx y = s.drain.nextBlockIdx y := by
    cases hd
    exact update_of_ne (fun he => hy (mem_singleton.mpr he)) ..
  dsimp only
  split
  · -- blocks remain, and the task stays in hand
    rename_i hlt
    refine h.claimed (.stay rfl fun _ _ => rfl) nofun nofun hstep rfl rfl rfl rfl
      { h.calls with } ?_
    intro y
    by_cases hy : y ∈ [x]
    · rw [mem_singleton.mp hy]
      show TaskOk c _ x (s.place x)
      rw [hplace]
      exact fun _ => hlt
    · exact (h.tasks y).congr (hother y hy)
  · rename_i hge
    have hm : Move s (({ s with
        drain := d
        claimed := update s.claimed t (s.claimed t ++ s.nextBlocks x k) } :
          Dispatcher).surrender t [x] .done) [x] (.hand t) .done :=
      move_surrender h.placed (forall_mem_singleton.mpr hx) (pairwise_singleton _ _) nofun
        rfl rfl nofun (fun _ _ _ => rfl) fun _ _ => rfl
    refine h.claimed hm nofun nofun hstep rfl rfl rfl rfl (h.calls.hand hidle rfl rfl rfl) ?_
    refine hm.tasks h.tasks ?_ hother
    intro y hy _
    rw [mem_singleton.mp hy]
    show d.nextBlockIdx x = _
    omega

theorem Inv.dispatch (h : Inv c s) {e : TaskId × Nat} {rest : List (TaskId × Nat)}
    (hclaimed : s.claimed t = e :: rest) :
    Inv c { s with
      claimed := update s.claimed t rest
      dispatched := e :: s.dispatched } := by
  refine { h with calls := { h.calls with }, blocks := ?_ }
  obtain ⟨label, hplaced, hlabel⟩ := h.blocks
  have hnodup : (e :: rest).Nodup := hclaimed ▸ hplaced.nodup (.claimed t) trivial
  have he : label e = .claimed t :=
    (hplaced.mem_iff (.claimed t) trivial e).mp (by
      show e ∈ s.claimed t
      rw [hclaimed]
      exact mem_cons_self)
  refine ⟨relabel label [e] .dispatched, hplaced.move (a := .claimed t) ?_ (pairwise_singleton _ _)
    nofun ?_ ?_ ?_, ?_⟩
  · exact forall_mem_singleton.mpr he
  · intro _
    show (update s.claimed t rest t).Nodup ∧ ∀ i, i ∈ update s.claimed t rest t ↔
      i ∈ s.claimed t ∧ i ∉ [e]
    rw [update_self, hclaimed]
    exact ⟨(nodup_cons.mp hnodup).2, mem_drop_iff hnodup 1⟩
  · intro _
    show (e :: s.dispatched ++ _).Perm (s.log ++ [e])
    exact (perm_append_singleton _ _).symm
  · intro p hp hne _
    cases p with
    | unclaimed => exact hp.elim
    | dispatched => contradiction
    | claimed t' => exact update_of_ne (fun he => hne (congrArg BlockPlace.claimed he)) ..
  · intro x m
    rw [← hlabel]
    by_cases hm : (x, m) ∈ [e]
    · rw [relabel_of_mem hm, mem_singleton.mp hm, he]
      exact iff_of_false nofun nofun
    · rw [relabel_of_not_mem hm]

/-- A task is entered into the drain. -/
theorem Inv.enter (h : Inv c s) (hidle : s.call t = none) (hx : x ∈ s.hand t)
    (hzero : s.drain.syncStartPending = 0) (hst : s.drain.step c.drain (.enter t x) = some d) :
    Inv c ({ s with drain := d }.surrender t [x] .drain) := by
  obtain ⟨hcontrol, hblocks⟩ := h.drain_step hst trivial
  obtain ⟨⟨-, hloop, -⟩, hst⟩ := ite_none_right_eq_some.mp hst
  rw [if_pos hzero] at hst
  cases hst
  have hm : Move s
      (({ s with drain := { s.drain.setPc t (.enterTask x) with syncStartPending := -1 } } :
      Dispatcher).surrender t [x] .drain) [x] (.hand t) .drain :=
    move_surrender h.placed (forall_mem_singleton.mpr hx) (pairwise_singleton _ _) nofun
      rfl rfl nofun (fun _ _ _ => rfl) fun _ _ => rfl
  refine ⟨hcontrol, hblocks, h.queues, h.pushed, h.calls.hand hidle rfl rfl rfl,
    hm.placed h.placed, ?_,
    hm.tasks h.tasks (fun _ _ => trivial) fun _ _ => rfl, h.blocks, h.le⟩
  intro y
  -- thread `t` comes from its loop and now holds `x`
  have hthread (t' : Nat) : update s.drain.thread t (.enterTask x) t' = .enterTask y ↔
      t' = t ∧ y = x ∨ s.drain.thread t' = .enterTask y := by
    rw [update_apply]
    split
    · rename_i he
      subst he
      rw [hloop]
      constructor
      · intro heq
        cases heq
        exact .inl ⟨rfl, rfl⟩
      · rintro (⟨-, rfl⟩ | hno)
        · rfl
        · cases hno
    · rename_i hne
      exact ⟨.inr, fun hor => hor.resolve_left fun heq => hne heq.1⟩
  have hslot : (∃ t', update s.drain.thread t (.enterTask x) t' = .enterTask y) ↔
      y = x ∨ ∃ t', s.drain.thread t' = .enterTask y := by
    simp only [hthread, exists_or, exists_eq_left]
  show _ ↔ s.drain.pendingTask = some y ∨
    ∃ t', update s.drain.thread t (.enterTask x) t' = .enterTask y
  rw [hslot]
  rcases hm.place_eq y with ⟨hy, -, hnew⟩ | ⟨hy, hsame⟩
  · rw [hnew]
    exact iff_of_true rfl (.inr (.inl (mem_singleton.mp hy)))
  · rw [hsame, h.slot]
    have hne : y ≠ x := fun he => hy (mem_singleton.mpr he)
    exact ⟨fun hor => hor.imp_right .inr, fun hor => hor.imp_right fun hr => hr.resolve_left hne⟩

theorem drained_of_eq (h : d.pendingTask = s.drain.pendingTask) :
    s.drained d = s.place := by
  unfold drained
  rw [h]
  cases s.drain.pendingTask <;> rfl

theorem drained_of_none (h : s.drain.pendingTask = none) :
    s.drained d = s.place := by
  unfold drained
  rw [h]

theorem drained_of_clear (hx : s.drain.pendingTask = some x) (hd : d.pendingTask = none) :
    s.drained d = relabel s.place [x] .done := by
  unfold drained
  rw [hx, hd]

theorem Inv.drainGo (h : Inv c s) (hok : Drain.DrainGuard s.drain (.go t))
    (hst : s.drainGo c t = some s') : Inv c s' := by
  obtain ⟨d, hgo, rfl⟩ := map_eq_some_iff.mp hst
  obtain ⟨hcontrol, hblocks⟩ :=
    h.drain_step (show s.drain.step c.drain (.go t) = some d from hgo) hok
  have hself := h.drain.threads t
  cases Drain.go_effect hgo with
  | quiet hthread htask hnext hlog =>
    rw [drained_of_eq htask]
    exact h.drain_quiet hcontrol hblocks hthread htask hnext hlog
  | enter x hpc =>
    -- the slot was empty, and the thread held the task before
    rw [hpc] at hself
    rw [drained_of_none hself.1]
    refine { h with control := hcontrol, drain := hblocks, calls := { h.calls with }, slot := ?_ }
    intro y
    rw [h.slot]
    show s.drain.pendingTask = some y ∨ _ ↔ some x = some y ∨
      ∃ t', update s.drain.thread t (.enterAck x) t' = .enterTask y
    rw [hself.1]
    constructor
    · rintro (hno | ⟨t', ht'⟩)
      · cases hno
      · by_cases he : t' = t
        · subst he
          cases hpc.symm.trans ht'
          exact .inl rfl
        · exact .inr ⟨t', by rw [update_of_ne he, ht']⟩
    · rintro (heq | ⟨t', ht'⟩)
      · cases heq
        exact .inr ⟨t, hpc⟩
      · rw [update_apply] at ht'
        split at ht'
        · cases ht'
        · exact .inr ⟨t', ht'⟩
  | block n x i valid hpc hlt =>
    rw [hpc] at hself
    obtain ⟨⟨hx, hn, -, -⟩, -⟩ := hself
    have hplace : s.place x = .drain := (h.slot x).mpr (.inl hx)
    have hnext (y : TaskId) (hy : y ≠ x) : update s.drain.nextBlockIdx x
        (s.drain.nextBlockIdx x + 1) y = s.drain.nextBlockIdx y := update_of_ne hy ..
    have hsame : s.drained ((s.drain.dispatchBlock x i).setPc t (.block n x i (valid - 1))) =
        s.place := drained_of_eq rfl
    rw [hsame]
    refine { h with control := hcontrol, drain := hblocks, calls := { h.calls with }, slot := ?_,
                    tasks := ?_, blocks := ?_, le := ?_ }
    · intro y
      rw [h.slot]
      have hthread (t' : Nat) : update s.drain.thread t (.block n x i (valid - 1)) t' =
          .enterTask y ↔ s.drain.thread t' = .enterTask y :=
        Drain.enterTask_update_iff (by rw [hpc]; simp) (by simp)
      show _ ↔ s.drain.pendingTask = some y ∨
        ∃ t', update s.drain.thread t (.block n x i (valid - 1)) t' = .enterTask y
      simp only [hthread]
      rfl
    · intro y
      by_cases hy : y = x
      · show TaskOk c _ y (s.place y)
        rw [hy, hplace]
        trivial
      · exact (h.tasks y).congr (hnext y hy)
    · refine h.blocks.advance (p := .dispatched) (k := 1) (by simp) rfl ?_ ?_
      · show (s.dispatched ++ (x, s.drain.nextBlockIdx x) :: _).Perm
          (s.dispatched ++ _ ++ [(x, s.drain.nextBlockIdx x)])
        rw [append_assoc]
        exact (perm_append_singleton _ _).symm.append_left _
      · intro p hp hne
        cases p with
        | unclaimed => exact hp.elim
        | dispatched => contradiction
        | claimed t' => rfl
    · refine (forall_update_iff s.drain.nextBlockIdx fun y n => n ≤ c.drain.blockNum y).mpr
        ⟨?_, fun y _ => h.le y⟩
      omega
  | clear hpc =>
    rw [hpc] at hself
    obtain ⟨x, hx, hfull⟩ := hself
    rw [drained_of_clear hx rfl]
    have hplace : s.place x = .drain := (h.slot x).mpr (.inl hx)
    have hm : Move s { s with
        drain := { s.drain.setPc t .clearAck with pendingTask := none }
        place := relabel s.place [x] .done } [x] .drain .done :=
      ⟨forall_mem_singleton.mpr hplace, pairwise_singleton _ _, by simp, rfl, by
        rintro ⟨⟩, by rintro ⟨⟩,
        fun _ _ _ _ => rfl⟩
    refine { h with
      control := hcontrol, drain := hblocks, calls := { h.calls with }, placed :=
        hm.placed h.placed,
      slot := ?_, tasks := hm.tasks h.tasks ?_ fun _ _ => rfl }
    · intro y
      have hthread (t' : Nat) : update s.drain.thread t .clearAck t' = .enterTask y ↔
          s.drain.thread t' = .enterTask y :=
            Drain.enterTask_update_iff (by rw [hpc]; simp) (by simp)
      show relabel s.place [x] .done y = .drain ↔ none = some y ∨
        ∃ t', update s.drain.thread t .clearAck t' = .enterTask y
      simp only [hthread]
      by_cases hy : y ∈ [x]
      · -- nobody enters a task while the slot is taken
        rw [relabel_of_mem hy]
        refine iff_of_false (by simp) ?_
        rintro (hno | ⟨t', ht'⟩)
        · cases hno
        · have hnone := h.drain.threads t'
          rw [ht'] at hnone
          cases hx.symm.trans hnone.1
      · rw [relabel_of_not_mem hy, h.slot]
        constructor
        · rintro (heq | hor)
          · exact absurd (Option.some.inj (hx.symm.trans heq)).symm
              fun he => hy (mem_singleton.mpr he)
          · exact .inr hor
        · rintro (hno | hor)
          · cases hno
          · exact .inr hor
    · intro y hy _
      rw [mem_singleton.mp hy]
      exact hfull

/-! ## Steps -/

/-- Tasks of a local buffer come into the hands of its thread. -/
theorem Inv.unbuffer (h : Inv c s) (hidle : s.call t = none) {q : Shape} {rest : List TaskId}
    (hmem : ∀ i ∈ items, i ∈ s.buffer t q) (hnodup : items.Nodup) (hrest : rest.Nodup)
    (hrest' : ∀ i, i ∈ rest ↔ i ∈ s.buffer t q ∧ i ∉ items) :
    Inv c ((s.setBuffer t q rest).acquire t items) := by
  have hlabel (i : TaskId) (hi : i ∈ items) : s.place i = .buffer t q :=
    (h.placed.mem_iff (.buffer t q) trivial i).mp (hmem i hi)
  refine h.shift (move_acquire hlabel hnodup nofun rfl rfl ?_ ?_ fun _ _ => rfl) nofun nofun rfl
    h.queues h.pushed (h.calls.hand hidle rfl rfl rfl) rfl rfl ?_
  · intro _
    have hbuf : (s.setBuffer t q rest).buffer t q = rest := if_pos ⟨rfl, rfl⟩
    show ((s.setBuffer t q rest).buffer t q).Nodup ∧
      ∀ i, i ∈ (s.setBuffer t q rest).buffer t q ↔ _
    rw [hbuf]
    exact ⟨hrest, hrest'⟩
  · intro t' q' hne
    exact if_neg fun he => hne (by rw [he.1, he.2])
  · intro i hi
    have := h.tasks i
    rwa [hlabel i hi] at this

/-- Fewer than `2 ^ 62` items go through a queue, drains meet their condition, and `stop` does not
hold of a step of a queue operation. -/
def DispatchGuard (stop : ReadyQueue TaskId → Nat → Bool) (s : Dispatcher) : Act → Prop
  | .go t _ => ∀ call, s.call t = some call →
    (s.queues call.queue).pushed.length + 2 ^ 31 ≤ 2 ^ 62 ∧ stop (s.queues call.queue) t = false
  | .drainGo t => Drain.DrainGuard s.drain (.go t)
  | _ => True

/-- One step of the dispatcher. -/
theorem Inv.step (h : Inv c s) {stop : ReadyQueue TaskId → Nat → Bool} {act : Act}
    (hok : DispatchGuard stop s act) (hst : step c s act = some s') : Inv c s' := by
  have hhand {t : Nat} {x : TaskId} (hx : x ∈ s.hand t) : TaskOk c s x (.hand t) := by
    have := h.tasks x
    rwa [(mem_hand_iff h).mp hx] at this
  cases act with
  | submit | advance =>
    obtain ⟨-, ⟨⟩⟩ := ite_none_right_eq_some.mp hst
    exact h.shift (.stay rfl fun _ _ => rfl) nofun nofun rfl h.queues h.pushed
      { h.calls with } rfl rfl nofun
  | wake t x =>
    obtain ⟨⟨⟨-, hidle, -⟩, -, -, hx⟩, ⟨⟩⟩ := ite_none_right_eq_some.mp hst
    have hlabel : ∀ i ∈ [x], s.place i = .unready := forall_mem_singleton.mpr hx
    refine h.shift (move_acquire hlabel (pairwise_singleton _ _) nofun rfl rfl nofun
      (fun _ _ _ => rfl) fun _ _ => rfl) nofun nofun rfl h.queues h.pushed
      (h.calls.hand hidle rfl rfl rfl) rfl rfl ?_
    intro i hi _
    have hzero := h.tasks i
    rw [hlabel i hi] at hzero
    exact hzero ▸ c.drain.blockNum_pos i
  | keep t x =>
    obtain ⟨⟨⟨-, hidle, -⟩, hx, -, -⟩, ⟨⟩⟩ := ite_none_right_eq_some.mp hst
    refine h.shift
      (move_surrender (b := .buffer t (c.shape x)) h.placed (forall_mem_singleton.mpr hx)
      (pairwise_singleton _ _) nofun rfl rfl ?_ ?_ fun _ _ => rfl) nofun nofun rfl h.queues
      h.pushed (h.calls.hand hidle rfl rfl rfl) rfl rfl ?_
    · intro _
      show (if t = t ∧ c.shape x = c.shape x then _ else _ : List TaskId).Perm _
      rw [if_pos ⟨rfl, rfl⟩]
      exact (perm_append_singleton _ _).symm
    · intro t' q hne
      exact if_neg fun he => hne (by rw [he.1, he.2])
    · exact forall_mem_singleton.mpr (hhand hx)
  | takeLocal t q =>
    obtain ⟨⟨-, hidle, -⟩, hst⟩ := ite_none_right_eq_some.mp hst
    cases hbuf : s.buffer t q with
    | nil =>
      rw [hbuf] at hst
      cases hst
    | cons x rest =>
      rw [hbuf] at hst
      cases hst
      have hnodup : (x :: rest).Nodup := hbuf ▸ h.placed.nodup (.buffer t q) trivial
      refine h.unbuffer hidle ?_ (pairwise_singleton _ _) (nodup_cons.mp hnodup).2 ?_
      · intro i hi
        rw [hbuf, mem_singleton.mp hi]
        exact mem_cons_self
      · rw [hbuf]
        exact mem_drop_iff hnodup 1
  | requeue t q =>
    obtain ⟨⟨⟨-, hidle, -⟩, -⟩, hst⟩ := ite_none_right_eq_some.mp hst
    have hnodup : (s.buffer t q).reverse.Nodup :=
      (reverse_perm _).nodup_iff.mpr (h.placed.nodup (.buffer t q) trivial)
    have hmid : Inv c ((s.setBuffer t q []).acquire t (s.buffer t q).reverse) := by
      refine h.unbuffer hidle (fun i hi => mem_reverse.mp hi) hnodup .nil ?_
      intro i
      rw [mem_reverse]
      exact iff_of_false not_mem_nil fun hi => hi.2 hi.1
    refine hmid.start hidle hst ?_
    rintro p ⟨⟩
    refine ⟨hnodup, ?_⟩
    intro i hi
    show i ∈ update s.hand t _ t
    rw [update_self]
    exact mem_append_right _ hi
  | push t x =>
    obtain ⟨⟨⟨-, hidle, -⟩, hx⟩, hst⟩ := ite_none_right_eq_some.mp hst
    refine h.start hidle hst ?_
    rintro p ⟨⟩
    exact ⟨pairwise_singleton _ _, forall_mem_singleton.mpr hx⟩
  | pushBatch t q items =>
    obtain ⟨⟨⟨-, hidle, -⟩, hnodup, hmem⟩, hst⟩ := ite_none_right_eq_some.mp hst
    refine h.start hidle hst ?_
    rintro p ⟨⟩
    exact ⟨hnodup, fun i hi => (hmem i hi).1⟩
  | popBatch t q maxCount =>
    obtain ⟨⟨-, hidle, -⟩, hst⟩ := ite_none_right_eq_some.mp hst
    exact h.start hidle hst nofun
  | go t spurious => exact h.go hst fun call hcall => (hok call hcall).1
  | ret t => exact h.ret hst
  | claim t x k => exact h.claim hst
  | dispatch t =>
    obtain ⟨-, hst⟩ := ite_none_right_eq_some.mp hst
    cases hclaimed : s.claimed t with
    | nil =>
      rw [hclaimed] at hst
      cases hst
    | cons e rest =>
      rw [hclaimed] at hst
      cases hst
      exact h.dispatch hclaimed
  | complete t x =>
    obtain ⟨⟨⟨-, hidle, -⟩, hx, hshape⟩, ⟨⟩⟩ := ite_none_right_eq_some.mp hst
    refine h.shift (move_surrender (b := .done) h.placed (forall_mem_singleton.mpr hx)
      (pairwise_singleton _ _) nofun rfl rfl nofun (fun _ _ _ => rfl) fun _ _ => rfl) nofun nofun
        rfl h.queues h.pushed
      (h.calls.hand hidle rfl rfl rfl) rfl rfl ?_
    intro i hi hne
    rw [mem_singleton.mp hi] at hne
    exact absurd hshape hne
  | enter t x =>
    obtain ⟨⟨⟨-, hidle, -⟩, hx, -, -⟩, hst⟩ := ite_none_right_eq_some.mp hst
    obtain ⟨d, hd, rfl⟩ := map_eq_some_iff.mp hst
    dsimp only
    split
    · rename_i hzero
      exact h.enter hidle hx hzero hd
    · rename_i hne
      obtain ⟨-, hd⟩ := ite_none_right_eq_some.mp hd
      rw [if_neg hne] at hd
      cases hd
      exact h
  | handle t =>
    obtain ⟨-, hst⟩ := ite_none_right_eq_some.mp hst
    obtain ⟨d, hd, rfl⟩ := map_eq_some_iff.mp hst
    obtain ⟨hcontrol, hblocks⟩ := h.drain_step hd trivial
    obtain ⟨⟨-, hloop, -⟩, ⟨⟩⟩ := ite_none_right_eq_some.mp hd
    exact h.drain_quiet hcontrol hblocks
      (fun _ _ => Drain.enterTask_update_iff (by rw [hloop]; nofun) nofun) rfl rfl rfl
  | drainGo t => exact h.drainGo hok hst
  | poll t idle =>
    obtain ⟨-, hst⟩ := ite_none_right_eq_some.mp hst
    obtain ⟨d, hd, rfl⟩ := map_eq_some_iff.mp hst
    obtain ⟨hcontrol, hblocks⟩ := h.drain_step hd trivial
    obtain ⟨-, ⟨⟩⟩ := ite_none_right_eq_some.mp hd
    exact h.drain_quiet hcontrol hblocks (fun _ _ => .rfl) rfl rfl rfl

end Dispatcher

end PtoRuntime.Tmrb
