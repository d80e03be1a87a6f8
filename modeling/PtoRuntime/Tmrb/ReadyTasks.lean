import PtoRuntime.Tmrb.DispatchStep

/-!
# Ready tasks

What the invariant of the dispatcher says about ready tasks and their blocks. The tasks in a
ready queue are in the windows of the rings, so there are no more of them than the windows have
room for; and a queue that is not full refuses a push only while a pop is slow.

Main results: `ready_never_dropped`, `ready_push_refused`, `blocks_dispatched_once`,
`blocks_left_behind`.
-/

namespace PtoRuntime.Tmrb

open Lib Function List
open Option (ite_none_right_eq_some map_eq_some_iff)

namespace Dispatcher

variable {c : DispatchConfig} {s s' : Dispatcher} {t : Nat} {x : TaskId} {items : List TaskId}
  {a b p : Place}

/-! ## Windows and refused pushes -/

/-- What a step may do to the place of a task. -/
def PlaceStep (s s' : Dispatcher) (x : TaskId) : Prop :=
  s'.place x = s.place x ∨
    s.place x ≠ .done ∧ s'.place x ≠ .unready ∧
      (s.place x = .unready → x.ring < maxRingDepth ∧ x.loc < s.currentTaskIndex x.ring) ∧
      (s'.place x = .dropped → ∃ t q, (s.queues q).thread t = .idle (.pushed false))

/-- A task that is not done may leave its place, and is woken only as a task of its ring. -/
def Leaves (s : Dispatcher) (x : TaskId) : Prop :=
  s.place x ≠ .done ∧
    (s.place x = .unready → x.ring < maxRingDepth ∧ x.loc < s.currentTaskIndex x.ring)

theorem placeStep_relabel (p : Place) (hplace : s'.place = relabel s.place items p)
    (hold : ∀ i ∈ items, s.Leaves i) (hp : p ≠ .unready)
    (hdropped : p = .dropped → ∃ t q, (s.queues q).thread t = .idle (.pushed false))
    (x : TaskId) : PlaceStep s s' x := by
  unfold PlaceStep
  rw [hplace]
  by_cases hx : x ∈ items
  · rw [relabel_of_mem hx]
    exact .inr ⟨(hold x hx).1, hp, (hold x hx).2, hdropped⟩
  · exact .inl (relabel_of_not_mem hx)

/-- One step moves a task along `PlaceStep`. -/
theorem step_place (h : Inv c s) {act : Act} (hst : step c s act = some s') (x : TaskId) :
    PlaceStep s s' x := by
  have hlisted {p : Place} (hp : p.Held) {i : TaskId} (hi : i ∈ s.tasksAt p) : s.Leaves i := by
    rw [Leaves, (h.placed.mem_iff p hp i).mp hi]
    cases p with
    | hand | buffer | queue => exact ⟨nofun, nofun⟩
    | _ => exact hp.elim
  have hsingle {t : Nat} {y : TaskId} (hy : y ∈ s.hand t) : ∀ i ∈ [y], s.Leaves i :=
    forall_mem_singleton.mpr (hlisted (p := .hand t) trivial hy)
  cases act with
  | submit | advance =>
    obtain ⟨-, ⟨⟩⟩ := ite_none_right_eq_some.mp hst
    exact .inl rfl
  | wake t y =>
    obtain ⟨⟨-, hring, hloc, hy⟩, ⟨⟩⟩ := ite_none_right_eq_some.mp hst
    have hleaves : s.Leaves y := ⟨by rw [hy]; nofun, fun _ => ⟨hring, hloc⟩⟩
    exact placeStep_relabel (.hand t) rfl (forall_mem_singleton.mpr hleaves) nofun nofun x
  | keep t y =>
    obtain ⟨⟨-, hy, -⟩, ⟨⟩⟩ := ite_none_right_eq_some.mp hst
    exact placeStep_relabel (.buffer t (c.shape y)) rfl (hsingle hy) nofun nofun x
  | takeLocal t q =>
    obtain ⟨-, hst⟩ := ite_none_right_eq_some.mp hst
    split at hst <;> cases hst
    rename_i y rest hbuf
    refine placeStep_relabel (.hand t) rfl (forall_mem_singleton.mpr ?_) nofun nofun x
    refine hlisted (p := .buffer t q) trivial ?_
    show y ∈ s.buffer t q
    rw [hbuf]
    exact mem_cons_self
  | requeue t q =>
    obtain ⟨-, hst⟩ := ite_none_right_eq_some.mp hst
    obtain ⟨pc, rfl, -⟩ := start_spec hst
    exact placeStep_relabel (.hand t) rfl
      (fun _ hi => hlisted (p := .buffer t q) trivial (mem_reverse.mp hi)) nofun nofun x
  | push | pushBatch | popBatch =>
    obtain ⟨-, hst⟩ := ite_none_right_eq_some.mp hst
    obtain ⟨pc, rfl, -⟩ := start_spec hst
    exact .inl rfl
  | go t spurious =>
    unfold step go at hst
    dsimp only at hst
    split at hst
    · cases hst
    rename_i call hcall
    obtain ⟨queue, hqueue, rfl⟩ := map_eq_some_iff.mp hst
    cases ReadyQueue.go_effect hqueue with
    | quiet pc hthread hpushed hdequeue hleft =>
      simp only [hpushed, hleft, drop_length, Nat.sub_self, take_zero, surrender_nil,
        acquire_nil]
      exact .inl rfl
    | claim batch items pos hpc =>
      obtain ⟨call', -, -, -, -, hmem⟩ :=
        h.calls.pending t call.queue (batch, items) (by rw [hpc]; rfl)
      have hentered : ((s.queues call.queue).claim t items pos).pushed.drop
          (s.queues call.queue).pushed.length = items := drop_left
      have htaken : ((s.queues call.queue).claim t items pos).left.length -
          (s.queues call.queue).left.length = 0 := Nat.sub_self _
      simp only [hentered, htaken, take_zero, acquire_nil]
      exact placeStep_relabel (.queue call.queue) rfl
        (fun i hi => hlisted (p := .hand t) trivial (hmem i hi)) nofun nofun x
    | take maxCount pos count hpc =>
      have hentered : ((s.queues call.queue).take t pos count).pushed.drop
          (s.queues call.queue).pushed.length = [] := drop_length
      simp only [hentered, surrender_nil]
      exact placeStep_relabel (.hand t) rfl
        (fun _ hi => hlisted (p := .queue call.queue) trivial (mem_of_mem_take hi)) nofun nofun x
  | ret t =>
    unfold step ret at hst
    dsimp only at hst
    split at hst
    · cases hst
    rename_i call hcall
    split at hst <;> cases hst
    · rename_i q y hidle
      exact placeStep_relabel .dropped rfl (hsingle (h.calls.refused t q y hcall hidle)) nofun
        (fun _ => ⟨t, q, hidle⟩) x
    · exact .inl rfl
  | claim t y k =>
    obtain ⟨⟨-, hy, -⟩, hst⟩ := ite_none_right_eq_some.mp hst
    obtain ⟨d, hd, rfl⟩ := map_eq_some_iff.mp hst
    dsimp only
    split
    · exact .inl rfl
    · exact placeStep_relabel .done rfl (hsingle hy) nofun nofun x
  | dispatch t =>
    obtain ⟨-, hst⟩ := ite_none_right_eq_some.mp hst
    split at hst <;> cases hst
    exact .inl rfl
  | complete t y =>
    obtain ⟨⟨-, hy, -⟩, ⟨⟩⟩ := ite_none_right_eq_some.mp hst
    exact placeStep_relabel .done rfl (hsingle hy) nofun nofun x
  | enter t y =>
    obtain ⟨⟨-, hy, -⟩, hst⟩ := ite_none_right_eq_some.mp hst
    obtain ⟨d, hd, rfl⟩ := map_eq_some_iff.mp hst
    dsimp only
    split
    · exact placeStep_relabel .drain rfl (hsingle hy) nofun nofun x
    · exact .inl rfl
  | handle | poll =>
    obtain ⟨-, hst⟩ := ite_none_right_eq_some.mp hst
    obtain ⟨d, hd, rfl⟩ := map_eq_some_iff.mp hst
    exact .inl rfl
  | drainGo t =>
    obtain ⟨d, hgo, rfl⟩ := map_eq_some_iff.mp hst
    cases hp : s.drain.pendingTask with
    | none => exact .inl (congrFun (drained_of_none hp) x)
    | some y =>
      have hy := (h.slot y).mpr (.inl hp)
      cases hp' : d.pendingTask with
      | none =>
        refine placeStep_relabel .done (drained_of_clear hp hp') (forall_mem_singleton.mpr ?_) nofun
          nofun x
        rw [Leaves, hy]
        exact ⟨nofun, nofun⟩
      | some z =>
        refine .inl (congrFun ?_ x)
        show s.drained d = s.place
        unfold drained
        rw [hp, hp']

/-- Nothing but `submit` and `advance` touches the rings, and a push that has been refused was so
before, or its sequence check is this step. -/
theorem step_frame {act : Act} (hst : step c s act = some s') :
    ((∃ r, act = .submit r) ∨ (∃ r n, act = .advance r n) ∨
      s'.currentTaskIndex = s.currentTaskIndex ∧ s'.lastTaskAlive = s.lastTaskAlive) ∧
    ∀ t q, (s'.queues q).thread t = .idle (.pushed false) →
      (s.queues q).thread t = .idle (.pushed false) ∨
        ∃ spurious call, act = .go t spurious ∧ s.call t = some call ∧
          (s.queues call.queue).refuses readyQueueSize t = true := by
  -- one queue changes, and in it one thread
  have hupdate {t t' : Nat} {q q' : Shape} {queue : ReadyQueue TaskId} (pc : QueuePc TaskId)
      (hthread : queue.thread = update (s.queues q').thread t' pc)
      (hr : (update s.queues q' queue q).thread t = .idle (.pushed false)) :
      (s.queues q).thread t = .idle (.pushed false) ∨ t = t' ∧ pc = .idle (.pushed false) := by
    rw [update_apply] at hr
    split_ifs at hr with hq
    · rw [hthread, update_apply] at hr
      split_ifs at hr with ht
      · exact .inr ⟨ht, hr⟩
      · exact .inl (hq ▸ hr)
    · exact .inl hr
  cases act with
  | submit r =>
    obtain ⟨-, ⟨⟩⟩ := ite_none_right_eq_some.mp hst
    exact ⟨.inl ⟨r, rfl⟩, fun _ _ => .inl⟩
  | advance r n =>
    obtain ⟨-, ⟨⟩⟩ := ite_none_right_eq_some.mp hst
    exact ⟨.inr (.inl ⟨r, n, rfl⟩), fun _ _ => .inl⟩
  | wake | keep | complete =>
    obtain ⟨-, ⟨⟩⟩ := ite_none_right_eq_some.mp hst
    exact ⟨.inr (.inr ⟨rfl, rfl⟩), fun _ _ => .inl⟩
  | takeLocal | dispatch =>
    obtain ⟨-, hst⟩ := ite_none_right_eq_some.mp hst
    split at hst <;> cases hst
    exact ⟨.inr (.inr ⟨rfl, rfl⟩), fun _ _ => .inl⟩
  | requeue | push | pushBatch | popBatch =>
    obtain ⟨-, hst⟩ := ite_none_right_eq_some.mp hst
    obtain ⟨pc, rfl, -, -, hne⟩ := start_spec hst
    refine ⟨.inr (.inr ⟨rfl, rfl⟩), fun t q hr => .inl ?_⟩
    exact (hupdate pc rfl hr).resolve_right fun he => hne he.2
  | go t' spurious =>
    unfold step go at hst
    dsimp only at hst
    split at hst
    · cases hst
    rename_i call hcall
    obtain ⟨queue, hqueue, rfl⟩ := map_eq_some_iff.mp hst
    refine ⟨.inr (.inr ⟨rfl, rfl⟩), fun t q hr => ?_⟩
    cases ReadyQueue.go_effect hqueue with
    | quiet pc hthread _ _ _ _ hrefused =>
      rcases hupdate pc hthread hr with hold | ⟨rfl, hpc⟩
      · exact .inl hold
      · exact .inr ⟨spurious, call, rfl, hcall, hrefused hpc⟩
    | claim batch items pos hpc =>
      exact .inl ((hupdate (.pushWrite items pos 0) rfl hr).resolve_right fun he => nomatch he.2)
    | take maxCount pos count hpc =>
      exact .inl ((hupdate (.popRead pos count 0 []) rfl hr).resolve_right fun he => nomatch he.2)
  | ret t' =>
    unfold step ret at hst
    dsimp only at hst
    split at hst
    · cases hst
    split at hst <;> cases hst <;> exact ⟨.inr (.inr ⟨rfl, rfl⟩), fun _ _ => .inl⟩
  | claim | enter =>
    obtain ⟨-, hst⟩ := ite_none_right_eq_some.mp hst
    obtain ⟨d, -, rfl⟩ := map_eq_some_iff.mp hst
    dsimp only
    split <;> exact ⟨.inr (.inr ⟨rfl, rfl⟩), fun _ _ => .inl⟩
  | handle | poll =>
    obtain ⟨-, hst⟩ := ite_none_right_eq_some.mp hst
    obtain ⟨d, -, rfl⟩ := map_eq_some_iff.mp hst
    exact ⟨.inr (.inr ⟨rfl, rfl⟩), fun _ _ => .inl⟩
  | drainGo t' =>
    obtain ⟨d, -, rfl⟩ := map_eq_some_iff.mp hst
    exact ⟨.inr (.inr ⟨rfl, rfl⟩), fun _ _ => .inl⟩

/-- No push has been refused, and no task is lost. -/
structure Accepted (s : Dispatcher) : Prop where
  threads : ∀ t q, (s.queues q).thread t ≠ .idle (.pushed false)
  tasks : ∀ x, s.place x ≠ .dropped

/-- No push is refused under the guard. -/
theorem Accepted.step (h : Accepted s) (hinv : Inv c s) {act : Act}
    (hok : DispatchGuard (ReadyQueue.refuses readyQueueSize) s act)
    (hst : step c s act = some s') : Accepted s' := by
  refine ⟨?_, ?_⟩
  · intro t q hr
    rcases (step_frame hst).2 t q hr with hold | ⟨spurious, call, rfl, hcall, hrefuses⟩
    · exact h.threads t q hold
    · rw [(hok call hcall).2] at hrefuses
      cases hrefuses
  · intro x hx
    rcases step_place hinv hst x with hsame | ⟨-, -, -, hdropped⟩
    · exact h.tasks x (hsame.symm.trans hx)
    · obtain ⟨t, q, hr⟩ := hdropped hx
      exact h.threads t q hr

/-- The watermarks pass finished tasks only. -/
def FinishedOnly (s : Dispatcher) : Act → Prop
  | .advance r n => ∀ m < n, s.lastTaskAlive r ≤ m → s.place ⟨r, m⟩ = .done
  | _ => True

/-- Ready tasks are in the windows of their rings. -/
structure Live (c : DispatchConfig) (s : Dispatcher) : Prop where
  window : ∀ r, s.currentTaskIndex r - s.lastTaskAlive r < (c.rings r).windowSize
  woken : ∀ x, s.place x ≠ .unready → x.ring < maxRingDepth ∧ x.loc < s.currentTaskIndex x.ring
  retired : ∀ r, ∀ m < s.lastTaskAlive r, s.place ⟨r, m⟩ = .done

/-- One step keeps the tasks in the ring live. -/
theorem Live.step (h : Live c s) (hinv : Inv c s) {act : Act} (hok : FinishedOnly s act)
    (hst : step c s act = some s') : Live c s' := by
  rcases (step_frame hst).1 with ⟨r, rfl⟩ | ⟨r, n, rfl⟩ | ⟨hcti, hlta⟩
  · obtain ⟨⟨-, hroom⟩, ⟨⟩⟩ := ite_none_right_eq_some.mp hst
    refine { h with window := ?_, woken := ?_ }
    · refine (forall_update_iff s.currentTaskIndex fun r' v =>
        v - s.lastTaskAlive r' < (c.rings r').windowSize).mpr ⟨?_, fun r' _ => h.window r'⟩
      omega
    · intro x hx
      obtain ⟨hring, hloc⟩ := h.woken x hx
      exact ⟨hring, hloc.trans_le (le_update_self_iff.mpr (Nat.le_succ _) x.ring)⟩
  · obtain ⟨⟨hlo, -⟩, ⟨⟩⟩ := ite_none_right_eq_some.mp hst
    refine { h with window := ?_, retired := ?_ }
    · intro r'
      exact (Nat.sub_le_sub_left (le_update_self_iff.mpr hlo r') _).trans_lt (h.window r')
    · refine (forall_update_iff s.lastTaskAlive fun r' v =>
        ∀ m < v, s.place ⟨r', m⟩ = .done).mpr ⟨?_, fun r' _ => h.retired r'⟩
      -- the tasks that the watermark has just passed are finished
      intro m hm
      exact (lt_or_ge m (s.lastTaskAlive r)).elim (h.retired r m) (hok m hm)
  · refine ⟨?_, ?_, ?_⟩
    · rw [hcti, hlta]
      exact h.window
    · intro x hx
      rw [hcti]
      rcases step_place hinv hst x with hsame | ⟨-, -, hwake, -⟩
      · exact h.woken x (hsame ▸ hx)
      · by_cases hold : s.place x = .unready
        · exact hwake hold
        · exact h.woken x hold
    · intro r m hm
      rw [hlta] at hm
      have hdone := h.retired r m hm
      rcases step_place hinv hst ⟨r, m⟩ with hsame | ⟨hno, -⟩
      · exact hsame.trans hdone
      · exact absurd hdone hno

/-- At most as many tasks are ready as the windows have room for. -/
theorem Live.length_lt (h : Live c s) (hinv : Inv c s) (q : Shape) :
    (s.queues q).contents.length + maxRingDepth ≤
      ∑ r ∈ Finset.range maxRingDepth, (c.rings r).windowSize := by
  -- the tasks of the windows, ring by ring
  let window (r : Nat) : Finset TaskId :=
    (Finset.Ico (s.lastTaskAlive r) (s.currentTaskIndex r)).map
      ⟨fun n => ⟨r, n⟩, fun _ _ he => (TaskId.mk.inj he).2⟩
  have hsub : (s.queues q).contents.toFinset ⊆ (Finset.range maxRingDepth).biUnion window := by
    intro x hx
    have hplace := (hinv.placed.mem_iff (.queue q) trivial x).mp (mem_toFinset.mp hx)
    obtain ⟨hring, hloc⟩ := h.woken x (by rw [hplace]; nofun)
    refine Finset.mem_biUnion.mpr ⟨x.ring, Finset.mem_range.mpr hring, ?_⟩
    refine Finset.mem_map.mpr ⟨x.loc, Finset.mem_Ico.mpr ⟨?_, hloc⟩, rfl⟩
    by_contra hlt
    have hdone := h.retired x.ring x.loc (by omega)
    cases hplace.symm.trans hdone
  have hnodup : (s.queues q).contents.Nodup := hinv.placed.nodup (.queue q) trivial
  have hcard := (Finset.card_le_card hsub).trans Finset.card_biUnion_le
  rw [toFinset_card_of_nodup hnodup] at hcard
  have hroom : ∑ r ∈ Finset.range maxRingDepth, ((window r).card + 1) ≤
      ∑ r ∈ Finset.range maxRingDepth, (c.rings r).windowSize := by
    refine Finset.sum_le_sum fun r _ => ?_
    rw [Finset.card_map, Nat.card_Ico]
    exact h.window r
  have hrings : ∑ _r ∈ Finset.range maxRingDepth, 1 = maxRingDepth := by decide
  rw [Finset.sum_add_distrib, hrings] at hroom
  omega

theorem accepted_init (idle : Nat → Nat) : Accepted (init idle) := ⟨nofun, nofun⟩

theorem live_init (idle : Nat → Nat) : Live c (init idle) where
  window r := by
    have := (c.rings r).four_le
    show 0 - 0 < 2 ^ (c.rings r).windowBits
    omega
  woken _ hx := absurd rfl hx
  retired _ _ hm := absurd hm (Nat.not_lt_zero _)

/-- In a window that fits, only a slow pop can make a queue refuse. -/
theorem not_refuses (hinv : Inv c s) (hlive : Live c s)
    (hfits : ∑ r ∈ Finset.range maxRingDepth, (c.rings r).windowSize ≤ readyQueueSize.capacity)
    {act : Act} (hok : DispatchGuard (ReadyQueue.lagging readyQueueSize) s act) :
    DispatchGuard (ReadyQueue.refuses readyQueueSize) s act := by
  cases act with
  | go t spurious =>
    intro call hcall
    obtain ⟨hlen, hlag⟩ := hok call hcall
    refine ⟨hlen, Bool.eq_false_iff.mpr fun hr => ?_⟩
    have hroom := hlive.length_lt hinv call.queue
    have hlag' := ReadyQueue.lagging_of_refuses (hinv.queues call.queue) (hinv.pushed call.queue)
      (t := t) ?_ (by unfold maxRingDepth at *; omega) hr
    · rw [hlag] at hlag'
      cases hlag'
    · -- only `push` can be refused, and it has one item
      intro items hp
      obtain ⟨call', -, -, hpend, -⟩ := hinv.calls.pending t call.queue _ hp
      cases call' with
      | push q x =>
        cases hpend
        rfl
      | pushBatch q items => cases hpend
      | popBatch q maxCount => cases hpend
  | drainGo t => exact hok
  | _ => trivial

/-! ## Executions -/

/-- The task is in a ready queue, a local buffer or the drain slot, or a thread has it. -/
def Located (s : Dispatcher) (x : TaskId) : Prop :=
  (∃ q, x ∈ (s.queues q).contents) ∨ (∃ t q, x ∈ s.buffer t q) ∨ s.InDrain x ∨ ∃ t, x ∈ s.hand t

/-- A ready task is done or somewhere, unless it has been dropped. -/
theorem Inv.located (h : Inv c s) (hready : s.place x ≠ .unready) (hdropped : s.place x ≠ .dropped)
    (hdone : s.place x ≠ .done) : s.Located x := by
  have hmem {p : Place} (hp : p.Held) (hx : s.place x = p) : x ∈ s.tasksAt p :=
    (h.placed.mem_iff p hp x).mpr hx
  cases hp : s.place x with
  | unready => exact absurd hp hready
  | dropped => exact absurd hp hdropped
  | done => exact absurd hp hdone
  | queue q => exact .inl ⟨q, hmem (p := .queue q) trivial hp⟩
  | buffer t q => exact .inr (.inl ⟨t, q, hmem (p := .buffer t q) trivial hp⟩)
  | drain => exact .inr (.inr (.inl ((h.slot x).mp hp)))
  | hand t => exact .inr (.inr (.inr ⟨t, hmem (p := .hand t) trivial hp⟩))

/-- No pop lags a lap behind the pushes, and the watermarks pass finished tasks only. -/
def ReadyGuard (s : Dispatcher) (act : Act) : Prop :=
  DispatchGuard (ReadyQueue.lagging readyQueueSize) s act ∧ FinishedOnly s act

/-- What holds in every run with small windows. -/
theorem ready_reach {idle : Nat → Nat}
    (hfits : ∑ r ∈ Finset.range maxRingDepth, (c.rings r).windowSize ≤ readyQueueSize.capacity)
    (h : Reach (step c) ReadyGuard (init idle) s) : Inv c s ∧ Live c s ∧ Accepted s := by
  induction h with
  | init => exact ⟨inv_init idle, live_init idle, accepted_init idle⟩
  | step _ hok hst ih =>
    obtain ⟨hinv, hlive, hacc⟩ := ih
    have hnot := not_refuses hinv hlive hfits hok.1
    exact ⟨hinv.step hok.1 hst, hlive.step hinv hok.2 hst, hacc.step hinv hnot hst⟩

/-- **No ready task is dropped.** If the windows of the four rings together are no larger than a
ready queue, then in every execution in which no push meets a cell that a slow pop still holds, the
watermarks pass finished tasks only and drains meet their condition: no push is refused, and every
ready task is in a ready queue, a local buffer, the drain slot or the batch of a thread until all
its blocks are claimed. -/
theorem ready_never_dropped {idle : Nat → Nat}
    (hfits : ∑ r ∈ Finset.range maxRingDepth, (c.rings r).windowSize ≤ readyQueueSize.capacity)
    (h : Reach (step c) ReadyGuard (init idle) s) :
    (∀ t q, (s.queues q).thread t ≠ .idle (.pushed false)) ∧
      ∀ x, s.place x ≠ .unready → s.Located x ∨ s.place x = .done ∧
        (c.shape x ≠ .dummy → s.drain.nextBlockIdx x = c.drain.blockNum x) := by
  obtain ⟨hinv, -, hacc⟩ := ready_reach hfits h
  refine ⟨hacc.threads, ?_⟩
  intro x hx
  by_cases hdone : s.place x = .done
  · have hfull := hinv.tasks x
    rw [hdone] at hfull
    exact .inr ⟨hdone, hfull⟩
  · exact .inl (hinv.located hx (hacc.tasks x) hdone)

instance (stop : ReadyQueue TaskId → Nat → Bool) (s : Dispatcher) :
    DecidablePred (DispatchGuard stop s) := fun act =>
  match act with
  | .go t _ =>
    match hcall : s.call t with
    | none => .isTrue fun _ h => nomatch hcall.symm.trans h
    | some call =>
      decidable_of_iff ((s.queues call.queue).pushed.length + 2 ^ 31 ≤ 2 ^ 62 ∧
          stop (s.queues call.queue) t = false)
        ⟨fun h call' hc => by cases hcall.symm.trans hc; exact h, fun h => h call hcall⟩
  | .drainGo t => inferInstanceAs (Decidable (Drain.DrainGuard s.drain (.go t)))
  | .submit _ | .advance _ _ | .wake _ _ | .keep _ _ | .takeLocal _ _ | .requeue _ _ | .push _ _
  | .pushBatch _ _ _ | .popBatch _ _ _ | .ret _ | .claim _ _ _ | .dispatch _ | .complete _ _
  | .enter _ _ | .handle _ | .poll _ _ => .isTrue trivial

instance (s : Dispatcher) : DecidablePred (FinishedOnly s) := fun act =>
  match act with
  | .advance r n => inferInstanceAs (Decidable (∀ m < n, s.lastTaskAlive r ≤ m → _ = Place.done))
  | .go _ _ | .drainGo _ | .submit _ | .wake _ _ | .keep _ _ | .takeLocal _ _ | .requeue _ _
  | .push _ _ | .pushBatch _ _ _ | .popBatch _ _ _ | .ret _ | .claim _ _ _ | .dispatch _
  | .complete _ _ | .enter _ _ | .handle _ | .poll _ _ => .isTrue trivial

instance (s : Dispatcher) : DecidablePred (ReadyGuard s) := fun _ =>
  inferInstanceAs (Decidable (_ ∧ _))

/-- Two scheduler threads, windows of four slots and tasks of three blocks. -/
def smallDispatch (syncStart : Bool) : DispatchConfig where
  rings := smallRings
  shape _ := .aic
  syncStart _ := syncStart
  drain := ⟨2, fun _ => 3, fun _ => by decide⟩
  threads_pos := by decide

/-- Thread 0 wakes a task and pushes it; thread 1 pops it, claims two of its three blocks, pushes
the task back and dispatches the first. -/
def passOn : List Act :=
  [Act.submit 0, .wake 0 ⟨0, 0⟩, .push 0 ⟨0, 0⟩] ++ replicate 5 (Act.go 0 false) ++ [Act.ret 0,
    .popBatch 1 .aic 1] ++ replicate 5 (Act.go 1 false) ++ [Act.ret 1, .claim 1 ⟨0, 0⟩ 2,
    .push 1 ⟨0, 0⟩] ++ replicate 5 (Act.go 1 false) ++ [Act.ret 1, .dispatch 1]

/-- A task passed on to another thread. -/
theorem ready_never_dropped_passOn :
    ∃ s : Dispatcher, Reach (step (smallDispatch false)) ReadyGuard (init fun _ => 4) s ∧
      s.place ⟨0, 0⟩ = .queue .aic ∧ s.dispatched = [(⟨0, 0⟩, 0)] ∧ s.Located ⟨0, 0⟩ := by
  refine Reach.exists_of_run_imp (P := fun s => s.place ⟨0, 0⟩ = .queue .aic ∧
      s.dispatched = [(⟨0, 0⟩, 0)]) passOn (by decide +kernel) fun s hs ⟨hplace, hlog⟩ => ?_
  refine ⟨hplace, hlog, ?_⟩
  refine ((ready_never_dropped (by decide) hs).2 ⟨0, 0⟩ (by rw [hplace]; nofun)).resolve_right ?_
  rintro ⟨hdone, -⟩
  cases hplace.symm.trans hdone

/-- `PTO2_RING_TASK_WINDOW=131072`, and one scheduler thread. -/
def wideDispatch : DispatchConfig where
  rings _ := ⟨17, by decide, 1, by decide, 0⟩
  shape _ := .aic
  syncStart _ := false
  drain := ⟨1, fun _ => 1, fun _ => by decide⟩
  threads_pos := by decide

/-- The first `n` tasks of ring 0 have been pushed, and nothing has been popped. -/
structure Filled (n : Nat) (s : Dispatcher) : Prop where
  reach : Reach (step wideDispatch) free (init fun _ => 0) s
  index : s.currentTaskIndex 0 = n
  alive : s.lastTaskAlive 0 = 0
  call : s.call 0 = none
  loop : s.drain.thread 0 = .loop
  fresh : ∀ m, n ≤ m → s.place ⟨0, m⟩ = .unready
  enqueuePos : (s.queues .aic).enqueuePos = n
  sequence : ∀ i, ((s.queues .aic).cells i).sequence = if i < n then i + 1 else i
  idle : ∃ r, (s.queues .aic).thread 0 = .idle r

section Full

variable {n : Nat} {queue queue' : ReadyQueue TaskId}

abbrev WideReach (s : Dispatcher) : Prop := Reach (step wideDispatch) free (init fun _ => 0) s

/-- A step of a push to the AIC queue that claims no position. -/
theorem reach_quiet (hs : WideReach (s.setQueue .aic queue))
    (hcall : s.call 0 = some (.push .aic x)) (hgo : queue.go readyQueueSize 0 false = some queue')
    (hpushed : queue'.pushed = queue.pushed) (hleft : queue'.left = queue.left) :
    WideReach (s.setQueue .aic queue') := by
  refine .step hs trivial (a := .go 0 false) ?_
  have hcall' : (s.setQueue .aic queue).call 0 = some (.push .aic x) := hcall
  simp only [step, go, hcall', Call.queue, setQueue_self, hgo, Option.map_some, hpushed, hleft,
    drop_length, Nat.sub_self, take_zero, surrender_nil, acquire_nil, setQueue_setQueue]

/-- The next task is woken, and its push has loaded `enqueue_pos`. -/
theorem Filled.load (h : Filled n s) (hn : n + 1 < 2 ^ 17) :
    ∃ s' : Dispatcher, WideReach
        (s'.setQueue .aic ((s.queues .aic).setPc 0 (.pushSeq false [⟨0, n⟩] n 0))) ∧
      s'.currentTaskIndex 0 = n + 1 ∧ s'.lastTaskAlive 0 = 0 ∧
      s'.call 0 = some (.push .aic ⟨0, n⟩) ∧ s'.drain.thread 0 = .loop ∧
      s'.place = relabel s.place [⟨0, n⟩] (.hand 0) := by
  obtain ⟨r, hidle⟩ := h.idle
  obtain ⟨s₁, hs₁⟩ : ∃ s₁, s₁ = { s with
    currentTaskIndex := update s.currentTaskIndex 0 (s.currentTaskIndex 0 + 1) } := ⟨_, rfl⟩
  have h₁ : step wideDispatch s (.submit 0) = some s₁ := by
    rw [hs₁]
    refine if_pos ⟨by decide, ?_⟩
    rw [h.index, h.alive]
    exact hn
  have hindex : s₁.currentTaskIndex 0 = n + 1 := by
    simp only [hs₁, update_self, h.index]
  have hfree : s₁.Free wideDispatch 0 := by
    rw [hs₁]
    exact ⟨by decide, h.call, h.loop⟩
  have hq : s₁.queues = s.queues := by rw [hs₁]
  have h₂ : step wideDispatch s₁ (.wake 0 ⟨0, n⟩) = some (s₁.acquire 0 [⟨0, n⟩]) := by
    refine if_pos ⟨hfree, (by decide : 0 < maxRingDepth), ?_, ?_⟩
    · show n < s₁.currentTaskIndex 0
      omega
    · rw [hs₁]
      exact h.fresh n (le_refl n)
  have h₃ : step wideDispatch (s₁.acquire 0 [⟨0, n⟩]) (.push 0 ⟨0, n⟩) =
      some (((s₁.acquire 0 [⟨0, n⟩]).setCall 0 (some (.push .aic ⟨0, n⟩))).setQueue .aic
        ((s.queues .aic).setPc 0 (.pushLoad false [⟨0, n⟩]))) := by
    have hmem : (⟨0, n⟩ : TaskId) ∈ (s₁.acquire 0 [⟨0, n⟩]).hand 0 := by
      simp only [acquire, update_self, mem_append, mem_cons, true_or, or_true]
    have hcall : (s₁.queues .aic).call 0 (.pushLoad false [⟨0, n⟩]) =
        some ((s.queues .aic).setPc 0 (.pushLoad false [⟨0, n⟩])) := by
      unfold ReadyQueue.call
      rw [hq, hidle]
    refine (if_pos ⟨hfree, hmem⟩).trans ?_
    show Option.map _ ((s₁.queues .aic).call 0 (.pushLoad false [⟨0, n⟩])) = _
    rw [hcall]
    rfl
  have hnext : ReadyQueue.pushNext false [(⟨0, n⟩ : TaskId)] n 0 = .pushSeq false [⟨0, n⟩] n 0 :=
    if_pos Nat.one_pos
  have hpos : ((s.queues .aic).setPc 0 (.pushLoad false [⟨0, n⟩])).enqueuePos = n := h.enqueuePos
  refine ⟨(s₁.acquire 0 [⟨0, n⟩]).setCall 0 (some (.push .aic ⟨0, n⟩)),
    reach_quiet (.step (.step (.step h.reach trivial h₁) trivial h₂) trivial h₃)
      setCall_self ?_ rfl rfl, hindex, ?_, setCall_self, ?_, ?_⟩
  · simp only [ReadyQueue.go, ReadyQueue.setPc_self, hpos, hnext, ReadyQueue.setPc_setPc]
  · rw [hs₁]
    exact h.alive
  · rw [hs₁]
    exact h.loop
  · rw [hs₁]
    rfl

/-- What the sequence check of that push finds. -/
theorem Filled.sequence_eq (h : Filled n s) (pc : QueuePc TaskId) :
    ((s.queues .aic).setPc 0 pc).sequence readyQueueSize n =
      if readyQueueSize.capacity ≤ n then n % readyQueueSize.capacity + 1 else n := by
  show ((s.queues .aic).cells _).sequence = _
  rw [h.sequence, QueueConfig.cell_eq]
  have hlt := Nat.mod_lt n readyQueueSize.capacity_pos
  by_cases hn : readyQueueSize.capacity ≤ n
  · rw [if_pos (by omega), if_pos hn]
  · rw [Nat.mod_eq_of_lt (by omega), if_neg (lt_irrefl n), if_neg hn]

/-- While there is room, the push succeeds. -/
theorem Filled.push (h : Filled n s) (hn : n < readyQueueSize.capacity) : ∃ s',
    Filled (n + 1) s' := by
  have hcap : readyQueueSize.capacity = 2 ^ 16 := rfl
  obtain ⟨s', hreach, hindex, halive, hcall, hloop, hplace⟩ := h.load (by omega)
  generalize hq : s.queues .aic = q at hreach
  have hcell : readyQueueSize.cell n = n := by
    rw [QueueConfig.cell_eq, Nat.mod_eq_of_lt hn]
  -- the cell of position `n` is free
  have hcas : WideReach
      (s'.setQueue .aic (q.setPc 0 (.pushCas false [⟨0, n⟩] n))) := by
    refine reach_quiet hreach hcall ?_ rfl rfl
    have hseq := h.sequence_eq (.pushSeq false [⟨0, n⟩] n 0)
    rw [if_neg (by omega), hq] at hseq
    have hd : ReadyQueue.diff n n = 0 := by
      unfold ReadyQueue.diff
      rw [Int.sub_self]
      rfl
    have hnext : ReadyQueue.pushNext false [(⟨0, n⟩ : TaskId)] n 1 = .pushCas false [⟨0, n⟩] n :=
      if_neg (lt_irrefl 1)
    simp only [ReadyQueue.go, ReadyQueue.setPc_self, ReadyQueue.pushSeq, add_zero, hseq, hd,
      if_true, hnext,
      zero_add, ReadyQueue.setPc_setPc]
  -- it is claimed
  have hclaim : WideReach
      ((s'.surrender 0 [⟨0, n⟩] (.queue .aic)).setQueue .aic
        ((q.setPc 0 (.pushCas false [⟨0, n⟩] n)).claim 0 [⟨0, n⟩] n)) := by
    refine .step hcas trivial (a := .go 0 false) ?_
    have hgo : (q.setPc 0 (.pushCas false [⟨0, n⟩] n)).go readyQueueSize 0 false =
        some ((q.setPc 0 (.pushCas false [⟨0, n⟩] n)).claim 0 [⟨0, n⟩] n) := by
      have hpos : (q.setPc 0 (.pushCas false [⟨0, n⟩] n)).enqueuePos = n := by
        rw [← hq]
        exact h.enqueuePos
      simp only [ReadyQueue.go, ReadyQueue.setPc_self]
      exact congrArg some (if_pos ⟨trivial, hpos⟩)
    have hcall' : (s'.setQueue .aic (q.setPc 0 (.pushCas false [⟨0, n⟩] n))).call 0 =
      some (.push .aic ⟨0, n⟩) := hcall
    have hentered : ((q.setPc 0 (.pushCas false [⟨0, n⟩] n)).claim 0 [⟨0, n⟩] n).pushed.drop
        (q.setPc 0 (.pushCas false [⟨0, n⟩] n)).pushed.length = [⟨0, n⟩] := drop_left
    have htaken : ((q.setPc 0 (.pushCas false [⟨0, n⟩] n)).claim 0 [⟨0, n⟩] n).left.length -
        (q.setPc 0 (.pushCas false [⟨0, n⟩] n)).left.length = 0 := Nat.sub_self _
    simp only [step, go, hcall', Call.queue, setQueue_self, hgo, Option.map_some, hentered, htaken,
      take_zero, acquire_nil, setQueue_setQueue]
    rfl
  generalize hq₆ : (q.setPc 0 (.pushCas false [⟨0, n⟩] n)).claim 0 [⟨0, n⟩] n = q₆ at hclaim
  have hpc₆ : q₆.thread 0 = .pushWrite [⟨0, n⟩] n 0 := by
    simp only [← hq₆, ReadyQueue.claim, ReadyQueue.setPc_self]
  -- the item and the sequence number are stored
  have hwrite : WideReach
      ((s'.surrender 0 [⟨0, n⟩] (.queue .aic)).setQueue .aic
        (q₆.write readyQueueSize 0 [⟨0, n⟩] n 0)) := by
    refine reach_quiet hclaim hcall ?_ rfl rfl
    simp only [ReadyQueue.go, hpc₆]
  have hpublish : WideReach
      ((s'.surrender 0 [⟨0, n⟩] (.queue .aic)).setQueue .aic
        ((q₆.write readyQueueSize 0 [⟨0, n⟩] n 0).publish readyQueueSize 0 [⟨0, n⟩] n 0)) := by
    refine reach_quiet hwrite hcall ?_ rfl rfl
    have hpc : (q₆.write readyQueueSize 0 [⟨0, n⟩] n 0).thread 0 = .pushPublish [⟨0, n⟩] n 0 := by
      simp only [ReadyQueue.write, ReadyQueue.setPc_self]
    simp only [ReadyQueue.go, hpc]
  have hidle :
      ((q₆.write readyQueueSize 0 [⟨0, n⟩] n 0).publish readyQueueSize 0 [⟨0, n⟩] n 0).thread 0 =
      .idle (.pushed true) := by
    simp only [ReadyQueue.publish, ReadyQueue.setPc_self]
    exact if_neg (lt_irrefl 1)
  have hcells (i : Nat) : (((q₆.write readyQueueSize 0 [⟨0, n⟩] n 0).publish readyQueueSize 0
      [⟨0, n⟩] n 0).cells i).sequence = if i < n + 1 then i + 1 else i := by
    have hold : (q₆.cells i).sequence = if i < n then i + 1 else i := by
      rw [← hq₆, ← h.sequence, hq]
      rfl
    simp only [ReadyQueue.publish, ReadyQueue.write, add_zero, hcell, update_apply]
    split
    · rename_i he
      rw [he, if_pos (Nat.lt_succ_self n)]
      exact Nat.mod_eq_of_lt (by omega)
    · rename_i hne
      rw [hold]
      split <;> split <;> omega
  generalize hq₈ : (q₆.write readyQueueSize 0 [⟨0, n⟩] n 0).publish readyQueueSize 0
    [⟨0, n⟩] n 0 = q₈
    at hpublish hidle hcells
  have hpos : q₈.enqueuePos = n + 1 := by
    rw [← hq₈, ← hq₆]
    exact Nat.mod_eq_of_lt (show n + 1 < 2 ^ 64 by omega)
  have hret : step wideDispatch ((s'.surrender 0 [⟨0, n⟩] (.queue .aic)).setQueue .aic q₈)
      (.ret 0) =
      some (((s'.surrender 0 [⟨0, n⟩] (.queue .aic)).setQueue .aic q₈).setCall 0 none) := by
    have hcall' : ((s'.surrender 0 [⟨0, n⟩] (.queue .aic)).setQueue .aic q₈).call 0 =
      some (.push .aic ⟨0, n⟩) := hcall
    simp only [step, ret, hcall', Call.queue, setQueue_self, hidle]
  have hqueue :
      (((s'.surrender 0 [⟨0, n⟩] (.queue .aic)).setQueue .aic q₈).setCall 0 none).queues .aic =
      q₈ := by
    simp only [setCall, setQueue_self]
  refine ⟨_, .step hpublish trivial hret, hindex, halive, setCall_self, hloop, ?_, ?_, ?_, ?_⟩
  · intro m hm
    have hne : (⟨0, m⟩ : TaskId) ∉ [(⟨0, n⟩ : TaskId)] := by
      intro hmem
      have := (TaskId.mk.inj (mem_singleton.mp hmem)).2
      omega
    show relabel s'.place [⟨0, n⟩] (.queue .aic) ⟨0, m⟩ = _
    rw [relabel_of_not_mem hne, hplace, relabel_of_not_mem hne]
    exact h.fresh m (by omega)
  · rw [hqueue]
    exact hpos
  · rw [hqueue]
    exact hcells
  · rw [hqueue]
    exact ⟨_, hidle⟩

/-- A queue can be filled to its capacity. -/
theorem filled_exists (n : Nat) (hn : n ≤ readyQueueSize.capacity) : ∃ s, Filled n s := by
  induction n with
  | zero =>
    refine ⟨init fun _ => 0, .init, rfl, rfl, rfl, rfl, fun _ _ => rfl, rfl, ?_, _, rfl⟩
    intro i
    exact (if_neg (Nat.not_lt_zero i)).symm
  | succ n ih =>
    obtain ⟨s, hs⟩ := ih (by omega)
    exact hs.push hn

/-- With `PTO2_RING_TASK_WINDOW=131072`, 65536 ready tasks fill the AIC queue. The push of the next
one is refused, and when it returns the task is nowhere. -/
theorem ready_push_refused :
    ∃ s s' : Dispatcher, Reach (step wideDispatch) free (init fun _ => 0) s ∧
      (s.queues .aic).thread 0 = .idle (.pushed false) ∧
      s.place ⟨0, readyQueueSize.capacity⟩ = .hand 0 ∧
      step wideDispatch s (.ret 0) = some s' ∧
      s'.place ⟨0, readyQueueSize.capacity⟩ = .dropped ∧
      ⟨0, readyQueueSize.capacity⟩ ∉ s'.hand 0 := by
  have hcap : readyQueueSize.capacity = 2 ^ 16 := rfl
  generalize hn : readyQueueSize.capacity = n
  obtain ⟨s, hs⟩ := filled_exists n hn.ge
  obtain ⟨s', hreach, -, -, hcall, -, hplace⟩ := hs.load (by omega)
  have hseq := hs.sequence_eq (.pushSeq false [⟨0, n⟩] n 0)
  rw [if_pos hn.le, hn, Nat.mod_self] at hseq
  generalize s.queues .aic = q at hreach hseq
  have hd : ReadyQueue.diff (0 + 1) n < 0 := by
    rw [← hn, hcap]
    decide
  have hrefused : WideReach
      (s'.setQueue .aic (q.setPc 0 (.idle (.pushed false)))) := by
    refine reach_quiet hreach hcall ?_ rfl rfl
    simp only [ReadyQueue.go, ReadyQueue.setPc_self, ReadyQueue.pushSeq, add_zero, hseq,
      ReadyQueue.setPc_setPc]
    rw [if_neg hd.ne, if_pos ⟨trivial, hd⟩]
  have hcall' : (s'.setQueue .aic (q.setPc 0 (.idle (.pushed false)))).call 0 =
    some (.push .aic ⟨0, n⟩) := hcall
  refine ⟨_, ((s'.setQueue .aic (q.setPc 0 (.idle (.pushed false)))).setCall 0 none).surrender 0
    [⟨0, n⟩] .dropped, hrefused, by simp only [setQueue_self, ReadyQueue.setPc_self],
      ?_, ?_, ?_, ?_⟩
  · show s'.place _ = _
    rw [hplace]
    exact relabel_of_mem mem_cons_self
  · simp only [step, ret, hcall', Call.queue, setQueue_self, ReadyQueue.setPc_self]
  · exact relabel_of_mem mem_cons_self
  · simp only [surrender, update_self, mem_filter, mem_cons, true_or, not_true,
      decide_false, Bool.false_eq_true, and_false, not_false_eq_true]

end Full

end Dispatcher

end PtoRuntime.Tmrb
