import PtoRuntime.HostGraph.Ledger

/-!
# Every task of the host-built runtime runs once, in order

The steps of the executor keep the balance of `Ledger`: a sample of `COND` moves tasks from the
slots of a core to the list of operations, and every operation of that list is carried out by one of
the rules there. From the balance follow the properties of whole runs.

A graph with a cycle is no exception: tasks on the cycle, and those behind it, are never written.

Main results: `Books.reach`, `tasks_run_once_in_order`.
-/

namespace PtoRuntime.HostGraph

open Lib Function List

variable {c : Config} {s s' : State} {t k x y : Nat}

/-! ## Steps -/

namespace Books

/-- The end of a poll: slots, history and list of operations. -/
theorem polled (h : Books c [] s) (ht : t < c.threadNum) (hk : k < c.coresTotalNum)
    (hnil : (s.thread t).ops = []) {co : Core} {moved : List Nat} {ops : List Op}
    (hslots : ∀ x, (s.core k).slots.count x = co.slots.count x + moved.count x)
    (hbusy : co.busy = (s.core k).busy) (hmoved : moved ⊆ s.finished)
    (hco : co.Ok s.written s.finished) (hops : Settles c ops moved) :
    Books c [] { (s.setCore k co).setThread t
        { s.thread t with ops := ops, madeProgress := true } with
      settled := s.settled ++ moved } := by
  have hsettled := h.settle hk hslots hbusy hmoved hco hops
  refine hsettled.setThread ht rfl (fun op => ?_) ⟨(h.within t).pc, hops.within⟩ nofun
  show ops.count op + 0 = (s.thread t).ops.count op + ops.count op
  rw [hnil, count_nil]
  omega

/-- A poll that finds nothing new. -/
theorem unchanged (h : Books c [] s) (ht : t < c.threadNum) (hk : k < c.coresTotalNum)
    (hnil : (s.thread t).ops = []) :
    Books c [] (s.setThread t { s.thread t with ops := [.issue k] }) := by
  have hissue := Settles.issue (c := c) hk
  refine (h.swap .nil hissue).setThread ht rfl (fun op => ?_)
    ⟨(h.within t).pc, hissue.within⟩ nofun
  rw [hnil, count_nil, zero_add]
  rfl

/-- A sample of `COND`. -/
theorem poll (h : Books c [] s) (ht : t < c.threadNum) (hk : k < c.coresTotalNum)
    (hnil : (s.thread t).ops = []) : Books c [] (s.poll c t k) := by
  have hok := h.cores k
  have hissue := Settles.issue (c := c) hk
  have hearly := Settles.early (c := c) hk
  unfold State.poll
  dsimp only
  split
  · rename_i y hcond
    split
    · rename_i hpending
      have hslots : (s.core k).slots = (s.core k).running.toList ++ [y] := by
        rw [Core.slots, hpending]
        rfl
      refine h.polled ht hk hnil (fun x => ?_) rfl (hslots ▸ (hok.pending_fin hcond hpending).2.2)
        (hok.afterPendingFin hcond hpending) ?_
      · rw [hslots]
        exact (zero_add _).symm
      · have hops := ((hearly.append (.old c (s.core k).running)).append (.task c y)).append hissue
        rw [append_nil] at hops
        exact hops.perm (perm_middle.append_right _)
    · split_ifs with hrunning
      · refine h.polled ht hk hnil (fun x => ?_) rfl ?_ (hok.afterRunningFin hcond hrunning) ?_
        · rw [Core.slots, hrunning, count_append, add_comm]
          rfl
        · intro x hx
          exact mem_singleton.mp hx ▸ (hok.running_fin hcond hrunning).2.2
        · have hops := (hearly.append (.task c y)).append hissue
          rw [append_nil] at hops
          exact hops.perm (perm_middle.append_right _)
      · exact h.unchanged ht hk hnil
  · rename_i y hcond
    split
    · rename_i hpending
      refine h.polled ht hk hnil (fun x => ?_) rfl (hok.pending_ack hcond hpending).2.2
        (hok.afterPendingAck hcond hpending) ?_
      · rw [Core.slots, hpending, count_append, add_comm]
        rfl
      · have hops := (Settles.old c (s.core k).running).append hissue
        rw [append_nil] at hops
        exact hops
    · exact h.unchanged ht hk hnil
  · exact h.unchanged ht hk hnil

/-- One operation is carried out. -/
theorem exec {op : Op} (h : Books c [op] s) (ht : t < c.threadNum) :
    Books c [] (s.exec c t op) := by
  have hop : op.Within c := h.inHand op mem_cons_self
  cases op with
  | count y => exact h.count
  | share y => exact h.share _
  | dep y => exact h.resolveDep ht
  | early k =>
    have hnone := h.swap (.early hop) .nil
    simp only [State.exec]
    split
    · exact hnone.dispatch ht hop ‹_›
    · exact hnone
  | issue k =>
    have hnone := h.swap (.issue hop) .nil
    simp only [State.exec]
    split
    · rename_i hfree
      split
      · exact hnone
      · have hsent := hnone.dispatch ht hop hfree.1
        exact hsent.setPc ht rfl rfl (hsent.within t).pc
    · exact hnone

end Books

theorem Config.coreAssignments_lt (h : k ∈ c.coreAssignments t) : k < c.coresTotalNum := by
  have hassigned {type : CoreType} (hmem : k ∈ c.assigned t type) : k < c.coresTotalNum := by
    obtain ⟨i, hi, rfl⟩ := mem_map.mp hmem
    have hlt := mem_range.mp (mem_filter.mp hi).1
    have hcore : (c.coresOf type).getD i 0 ∈ c.coresOf type := by
      rw [getD_eq_getElem _ _ hlt]
      exact getElem_mem hlt
    exact mem_range.mp (mem_filter.mp hcore).1
  exact (mem_append.mp h).elim hassigned hassigned

namespace Books

/-- The end of a round. -/
theorem check (h : Books c [] s) (ht : t < c.threadNum) :
    Books c [] (s.setThread t (s.check c t)) := by
  have hpoll : (Pc.poll (c.coreAssignments t)).Within c s.completed :=
    fun _ hmem => Config.coreAssignments_lt hmem
  unfold State.check
  dsimp only
  split
  · rename_i hdone
    exact h.setPc ht rfl rfl hdone.1
  split
  · exact h.setPc ht rfl rfl trivial
  -- the warnings are of no consequence for the books
  obtain ⟨th, hth, hqueue, hops⟩ : ∃ th, (if c.taskCount ≤ s.completed then
      { s.thread t with warnings := (s.thread t).warnings + 1 } else s.thread t) = th ∧
      th.queue = (s.thread t).queue ∧ th.ops = (s.thread t).ops := by
    refine ⟨_, rfl, ?_, ?_⟩ <;> split <;> rfl
  rw [hth]
  split
  · exact h.setPc ht hqueue hops hpoll
  split
  · exact h.setPc ht hqueue hops trivial
  · exact h.setPc ht hqueue hops hpoll

/-- A thread goes on to the next core. -/
theorem advance (h : Books c [] s) (ht : t < c.threadNum) (hnil : (s.thread t).ops = [])
    (hs : s.advance c t = some s') : Books c [] s' := by
  have hpc := (h.within t).pc
  simp only [State.advance] at hs
  split at hs
  · cases hs
    exact h.setPc ht rfl rfl trivial
  · rename_i k rest hcores
    rw [hcores] at hpc
    cases hs
    have hnext : Books c [] (s.setThread t { s.thread t with pc := .poll rest }) :=
      h.setPc ht rfl rfl fun k' hk' => hpc k' (mem_cons_of_mem _ hk')
    refine hnext.poll ht (hpc k mem_cons_self) ?_
    rw [show (s.setThread t _).thread t = _ from update_self ..]
    exact hnil
  · split at hs
    · cases hs
      exact h.setPc ht rfl rfl trivial
    · rename_i type _ _
      cases hs
      refine h.setPc ht rfl rfl ?_
      cases type <;> exact trivial
  · cases hs
    exact h.grab ht _
  · cases hs
    exact h.check ht
  · cases hs
  · cases hs

/-- One step keeps the balance. -/
theorem step {a : Act} (h : Books c [] s) (hs : s.step c a = some s') : Books c [] s' := by
  cases a with
  | thread t =>
    obtain ⟨ht, hs⟩ := Option.ite_none_right_eq_some.mp hs
    unfold State.stepThread at hs
    split at hs
    · exact h.advance ht ‹_› hs
    · cases hs
      exact (h.take ht ‹_›).exec ht
  | core k =>
    obtain ⟨hk, hs⟩ := Option.ite_none_right_eq_some.mp hs
    simp only [State.stepCore] at hs
    split at hs
    · cases hs
      exact h.finish hk ‹_›
    · cases hs
      exact h.pickUp hk ‹_› ‹_›
    · cases hs

end Books

/-! ## Initial distribution -/

def Queues.tokens (c : Config) (q : Queues) (x : Nat) : Nat :=
  ∑ t ∈ Finset.range c.threadNum, ((q.own t .aic).count x + (q.own t .aiv).count x) +
    ((q.shared .aic).count x + (q.shared .aiv).count x)

/-- The first `n` tasks are distributed. -/
structure Queues.Sorted (c : Config) (n : Nat) (q : Queues) : Prop where
  once : ∀ x, q.tokens c x ≤ 1
  ready : ∀ x, 0 < q.tokens c x → c.runtime.fanin x = 0 ∧ x < n
  next : ∀ type, q.next type < c.threadNum

theorem count_refit_le (l : List Nat) : (refit l).count x ≤ l.count x := by
  unfold refit
  split
  · exact Nat.zero_le _
  · exact le_rfl

/-- One more task in the queues; a ring that fills up loses all it had. -/
theorem Queues.tokens_enqueue {q : Queues} {type : CoreType} (hnext : q.next type < c.threadNum) :
    (q.enqueueInitialTask c y type).tokens c x ≤ q.tokens c x + [y].count x := by
  unfold Queues.enqueueInitialTask
  dsimp only
  split
  · have hsum := sum_update (Finset.mem_range.mpr hnext)
      (fun own : CoreType → List Nat => (own .aic).count x + (own .aiv).count x) q.own
      (update (q.own (q.next type)) type (refit (q.own (q.next type) type ++ [y])))
    have hown := count_update (q.own (q.next type)) type
      (refit (q.own (q.next type) type ++ [y])) x
    have hrefit := count_refit_le (x := x) (q.own (q.next type) type ++ [y])
    rw [count_append] at hrefit
    unfold Queues.tokens
    dsimp only at hsum ⊢
    omega
  · have hshared := count_update q.shared type (q.shared type ++ [y]) x
    rw [count_append] at hshared
    unfold Queues.tokens
    dsimp only
    omega

theorem Queues.Sorted.classify {q : Queues} {n : Nat} (h : q.Sorted c n) :
    (q.classify c n).Sorted c (n + 1) := by
  unfold Queues.classify
  split_ifs with hfanin
  · have hle (x : Nat) := Queues.tokens_enqueue (y := n) (x := x)
      (h.next (c.runtime.coreType n))
    have hnew : q.tokens c n = 0 := by
      by_contra hpos
      exact lt_irrefl n (h.ready n (Nat.pos_of_ne_zero hpos)).2
    have hzero {x : Nat} (hx : x ≠ n) : [n].count x = 0 :=
      count_eq_zero.mpr fun hmem => hx (mem_singleton.mp hmem)
    refine ⟨fun x => ?_, fun x hpos => ?_, fun type => ?_⟩
    · have hx := hle x
      by_cases hxn : x = n
      · subst hxn
        rw [hnew, count_singleton_self] at hx
        exact hx
      · rw [hzero hxn] at hx
        exact le_trans hx (h.once x)
    · by_cases hxn : x = n
      · subst hxn
        exact ⟨hfanin, Nat.lt_succ_self _⟩
      · have hx := hle x
        rw [hzero hxn] at hx
        obtain ⟨hready, hlt⟩ := h.ready x (lt_of_lt_of_le hpos hx)
        exact ⟨hready, Nat.lt_succ_of_lt hlt⟩
    · have hmod : (q.next (c.runtime.coreType n) + 1) % c.threadNum < c.threadNum :=
        Nat.mod_lt _ c.threads_pos
      have hupdate : update q.next (c.runtime.coreType n)
          ((q.next (c.runtime.coreType n) + 1) % c.threadNum) type < c.threadNum := by
        by_cases htype : type = c.runtime.coreType n
        · subst htype
          rw [update_self]
          exact hmod
        · rw [update_of_ne htype]
          exact h.next type
      unfold Queues.enqueueInitialTask
      dsimp only
      split <;> exact hupdate
  · exact ⟨h.once, fun x hpos => ⟨(h.ready x hpos).1, Nat.lt_succ_of_lt (h.ready x hpos).2⟩, h.next⟩

/-- Every root is in one queue. -/
theorem sorted_distribution (c : Config) :
    (classifyAndDistributeInitialTasks c).Sorted c c.taskCount := by
  have hall (n : Nat) : ((range n).foldl (Queues.classify c) .empty).Sorted c n := by
    induction n with
    | zero =>
      have hzero (x : Nat) : Queues.empty.tokens c x = 0 :=
        Nat.add_eq_zero_iff.mpr ⟨Finset.sum_eq_zero fun _ _ => rfl, rfl⟩
      exact ⟨fun x => (hzero x).trans_le (Nat.zero_le 1),
        fun x hpos => absurd (hzero x) (Nat.pos_iff_ne_zero.mp hpos), fun _ => c.threads_pos⟩
    | succ n ih =>
      rw [range_succ, foldl_append]
      exact ih.classify
  exact hall c.taskCount

theorem Books.init (c : Config) : Books c [] (.init c) := by
  have hsorted := sorted_distribution c
  have hinOps (op : Op) : (State.init c).inOps c op = 0 := Finset.sum_eq_zero fun _ _ => rfl
  have hslots (x : Nat) : (State.init c).inSlots c x = 0 := Finset.sum_eq_zero fun _ _ => rfl
  have hcores (x : Nat) : (State.init c).inCores c x = 0 := Finset.sum_eq_zero fun _ _ => rfl
  refine ⟨hsorted.once, fun x hpos => ?_, fun x => ?_, fun x => ?_, fun x => ?_, fun x => ?_,
    nofun, rfl, fun k => ?_, fun t => ⟨fun _ hmem => Config.coreAssignments_lt hmem, nofun⟩, nofun⟩
  · obtain ⟨hfanin, hlt⟩ := hsorted.ready x hpos
    refine ⟨?_, hlt⟩
    show (c.runtime.fanin x : Int) ≤ 0
    omega
  · rw [hslots]
    rfl
  · rw [hcores]
    rfl
  · rw [hinOps]
    rfl
  · rw [hinOps]
    rfl
  · exact ⟨⟨[], rfl, nofun, nofun⟩, nodup_nil, nofun, nofun⟩

/-- The balance holds in every run. -/
theorem Books.reach (h : Reach (State.step c) free (.init c) s) : Books c [] s :=
  h.invariant (Books.init c) fun _ _ _ _ hinv _ hs => hinv.step hs

/-! ## Runs -/

namespace Books

/-- Only written tasks are found done. -/
theorem settled_subset_written (h : Books c [] s) : s.settled ⊆ s.written := by
  intro x hx
  have hslots := h.slots x
  have hpos := count_pos_iff.mpr hx
  exact count_pos_iff.mp (by omega)

/-- Only done tasks are counted. -/
theorem counted_subset_settled (h : Books c [] s) : s.counted ⊆ s.settled := by
  intro x hx
  have hcounts := h.counts x
  have hpos := count_pos_iff.mpr hx
  exact count_pos_iff.mp (by omega)

theorem nodup_settled (h : Books c [] s) : s.settled.Nodup := by
  refine nodup_iff_count_le_one.mpr fun x => ?_
  have hslots := h.slots x
  have honce := h.once x
  omega

/-- No task is executed twice. -/
theorem nodup_finished (h : Books c [] s) : s.finished.Nodup := by
  refine nodup_iff_count_le_one.mpr fun x => ?_
  have hbusy := h.busy x
  have honce := h.once x
  omega

/-- No task is counted twice. -/
theorem nodup_counted (h : Books c [] s) : s.counted.Nodup := by
  refine nodup_iff_count_le_one.mpr fun x => ?_
  have hcounts := h.counts x
  have hnodup := nodup_iff_count_le_one.mp h.nodup_settled x
  omega

theorem lt_of_mem_written (h : Books c [] s) (hx : x ∈ s.written) : x < c.taskCount := by
  have hpos := count_pos_iff.mpr hx
  exact (h.ready x (by omega)).2

/-- A task is written when every edge to it is resolved, so all its predecessors are settled. -/
theorem mem_settled_of_edge (h : Books c [] s) (hx : x ∈ s.written)
    (hedge : x ∈ c.runtime.fanout y) : y ∈ s.settled := by
  have hlinked : c.runtime.Linked := linked_build c.calls
  have hy : y < c.taskCount := by
    by_contra hge
    rw [hlinked.fanout_nil y (not_lt.mp hge)] at hedge
    exact not_mem_nil hedge
  have hready : s.fanin x ≤ 0 := by
    have hpos := count_pos_iff.mpr hx
    exact (h.ready x (by omega)).1
  have hresolved : c.runtime.fanin x ≤ edgesTo c x s.settled := by
    have hfanin := h.fanin x
    omega
  by_contra hnot
  -- otherwise the edges from `y` would be missing in the sum
  have hsub : insert y s.settled.toFinset ⊆ Finset.range c.taskCount := by
    intro p hp
    rcases Finset.mem_insert.mp hp with rfl | hp
    · exact Finset.mem_range.mpr hy
    · exact Finset.mem_range.mpr
        (h.lt_of_mem_written (h.settled_subset_written (mem_toFinset.mp hp)))
  have hsum := Finset.sum_le_sum_of_subset (f := fun p => (c.runtime.fanout p).count x) hsub
  rw [Finset.sum_insert fun hmem => hnot (mem_toFinset.mp hmem),
    sum_toFinset _ h.nodup_settled] at hsum
  change _ + edgesTo c x s.settled ≤ _ at hsum
  have htotal : c.runtime.fanin x = ∑ p ∈ Finset.range c.taskCount, (c.runtime.fanout p).count x :=
    hlinked.fanin_eq x
  have hpos := count_pos_iff.mpr hedge
  omega

/-- When the counter has reached the number of tasks, all of them are counted. -/
theorem mem_counted (h : Books c [] s) (hall : c.taskCount ≤ s.completed) (hx : x < c.taskCount) :
    x ∈ s.counted := by
  have hsub : s.counted ⊆ range c.taskCount := fun y hy => mem_range.mpr
    (h.lt_of_mem_written (h.settled_subset_written (h.counted_subset_settled hy)))
  refine expected_subset_of_length_le h.nodup_counted hsub ?_ (mem_range.mpr hx)
  rw [length_range, ← h.completed]
  exact hall

end Books

/--
**Exactly once, in order.** In every reachable state: no task was written to a core twice, and the
predecessors of a task that was written have been executed; no task was executed twice; no task is
counted twice in `completed_tasks_`, and those that are counted have been executed. Once a thread
has returned without an error, every task has been executed once and counted once.
-/
theorem tasks_run_once_in_order (c : Config) {s : State}
    (h : Reach (State.step c) free (.init c) s) :
    s.written.Nodup ∧ (∀ x ∈ s.written, ∀ p, x ∈ c.runtime.fanout p → p ∈ s.finished) ∧
      s.finished.Nodup ∧
      s.completed = s.counted.length ∧ s.counted.Nodup ∧ s.counted ⊆ s.finished ∧
      ∀ t, (s.thread t).pc = .returned →
        ∀ x < c.taskCount, s.finished.count x = 1 ∧ s.counted.count x = 1 := by
  have hbooks := Books.reach h
  have hcounted : s.counted ⊆ s.finished := fun x hx =>
    hbooks.finished (hbooks.counted_subset_settled hx)
  refine ⟨hbooks.nodup_written, fun x hx p hedge => ?_, hbooks.nodup_finished, hbooks.completed,
    hbooks.nodup_counted, hcounted, fun t hpc x hx => ?_⟩
  · exact hbooks.finished (hbooks.mem_settled_of_edge hx hedge)
  · have hall : c.taskCount ≤ s.completed := by
      have hwithin := (hbooks.within t).pc
      rw [hpc] at hwithin
      exact hwithin
    have hmem := hbooks.mem_counted hall hx
    exact ⟨count_eq_one_of_mem hbooks.nodup_finished (hcounted hmem),
      count_eq_one_of_mem hbooks.nodup_counted hmem⟩

/-- One thread, one core, and a task with one successor. -/
def chainOfTwo : Config where
  threadNum := 1
  coreTypes := [.aic]
  calls := [.addTask 0 .aic, .addTask 0 .aic, .addSuccessor 0 1]
  pmuActive := false
  threads_pos := by decide
  threads_le := by decide
  cores_pos := by decide
  cores_le := by decide

/-- The second task is written when the first is done, and the thread returns after both. -/
theorem tasks_run_once_in_order_chain : ∃ s, Reach (State.step chainOfTwo) free
    (.init chainOfTwo) s ∧
    s.written = [0, 1] ∧ (s.thread 0).pc = .returned ∧
      ∀ x < 2, s.finished.count x = 1 ∧ s.counted.count x = 1 := by
  refine Reach.exists_of_run_imp (P := fun s => s.written = [0, 1] ∧ (s.thread 0).pc = .returned)
    (replicate 2 (Act.thread 0) ++ replicate 2 (Act.core 0) ++ replicate 9 (Act.thread 0) ++
      replicate 2 (Act.core 0) ++ replicate 12 (Act.thread 0)) (by decide +kernel)
    fun s hs ⟨hwritten, hpc⟩ => ?_
  obtain ⟨-, -, -, -, -, -, hall⟩ := tasks_run_once_in_order chainOfTwo hs
  exact ⟨hwritten, hpc, fun x hx => hall 0 hpc x hx⟩

end PtoRuntime.HostGraph
