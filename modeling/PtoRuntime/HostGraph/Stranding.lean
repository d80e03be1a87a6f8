import PtoRuntime.HostGraph.Executor

/-!
# Ready tasks and the cores of a thread

A task in the local queue of a thread can only be taken out by that thread, for one of its own cores
of the right type. Three places fill the local queues, and all three look only at the size of the
queue, which is limited to the number of cores of the type per thread, rounded up. With fewer cores
of a type than threads that limit is one, but some threads own no such core; what is put into their
queues stays there.

Main results: `ready_tasks_not_stranded`, `stranded_of_not_covered`, `ready_task_stranded`.
-/

namespace PtoRuntime.HostGraph

open Lib Function List

variable {c : Config} {s s' : State} {t core task : Nat} {type : CoreType}

/-- Cores of a type are none, or enough for all threads. -/
def Config.Covered (c : Config) : Prop :=
  ∀ type, c.coresOf type = [] ∨ c.threadNum ≤ (c.coresOf type).length

theorem Config.coresOf_ne_nil (h : 0 < c.perThread type) : c.coresOf type ≠ [] := by
  intro hnil
  have hzero : c.perThread type = 0 := by
    unfold Config.perThread
    rw [hnil, length_nil, zero_add]
    exact Nat.div_eq_of_lt (Nat.sub_lt c.threads_pos Nat.one_pos)
  omega

theorem Config.typeOf_getD (c : Config) {i : Nat} (hi : i < (c.coresOf type).length) :
    c.typeOf ((c.coresOf type).getD i 0) = type := by
  have hmem : (c.coresOf type).getD i 0 ∈ c.coresOf type := by
    rw [getD_eq_getElem _ _ hi]
    exact getElem_mem hi
  exact of_decide_eq_true (mem_filter.mp hmem).2

/-- The round robin reaches thread `t` with the core at position `t`. -/
theorem Config.exists_assigned (ht : t < c.threadNum)
    (hlen : c.threadNum ≤ (c.coresOf type).length) :
    ∃ core ∈ c.assigned t type, c.typeOf core = type := by
  have hlt : t < (c.coresOf type).length := lt_of_lt_of_le ht hlen
  refine ⟨(c.coresOf type).getD t 0, mem_map.mpr ⟨t, ?_, rfl⟩, c.typeOf_getD hlt⟩
  rw [mem_filter, mem_range]
  exact ⟨hlt, decide_eq_true (Nat.mod_eq_of_lt ht)⟩

theorem Config.of_mem_assigned (h : core ∈ c.assigned t type) :
    c.typeOf core = type ∧ ∃ i < (c.coresOf type).length, i % c.threadNum = t := by
  obtain ⟨i, hi, rfl⟩ := mem_map.mp h
  obtain ⟨hlt, hmod⟩ := mem_filter.mp hi
  rw [mem_range] at hlt
  exact ⟨c.typeOf_getD hlt, i, hlt, of_decide_eq_true hmod⟩

theorem Config.mem_coreAssignments (h : core ∈ c.assigned t type) : core ∈ c.coreAssignments t := by
  cases type with
  | aic => exact mem_append_left _ h
  | aiv => exact mem_append_right _ h

/-! ## Local queues are only used for types that have cores -/

/-- Queues of one thread. -/
def Hosted (c : Config) (queue : CoreType → List Nat) : Prop :=
  ∀ type, queue type ≠ [] → 0 < c.perThread type

theorem Hosted.update {queue : CoreType → List Nat} (h : Hosted c queue) {l : List Nat}
    (hl : l ≠ [] → 0 < c.perThread type) : Hosted c (update queue type l) := by
  intro type' hne
  by_cases htype : type' = type
  · subst htype
    rw [update_self] at hne
    exact hl hne
  · rw [update_of_ne htype] at hne
    exact h type' hne

theorem Hosted.push {th : Thread} (h : Hosted c th.queue) {tasks : List Nat}
    (hl : tasks ≠ [] → 0 < c.perThread type) : Hosted c (State.push th type tasks).queue := by
  refine h.update fun hne => ?_
  by_cases hnew : tasks = []
  · rw [hnew, append_nil] at hne
    exact h type hne
  · exact hl hnew

def State.Hosted (c : Config) (s : State) : Prop := ∀ t, HostGraph.Hosted c (s.thread t).queue

theorem State.Hosted.setThread (h : s.Hosted c) {th : Thread} (hth : HostGraph.Hosted c th.queue) :
    (s.setThread t th).Hosted c := by
  intro t'
  by_cases ht : t' = t
  · subst ht
    rw [show (s.setThread t' th).thread t' = th from update_self ..]
    exact hth
  · rw [show (s.setThread t th).thread t' = s.thread t' from update_of_ne ht ..]
    exact h t'

theorem State.Hosted.tryDispatchTask (h : s.Hosted c) : (s.tryDispatchTask c t core).Hosted c := by
  unfold State.tryDispatchTask
  split
  · exact h
  · rename_i x rest hq
    refine State.Hosted.setThread h ((h t).update fun _ => h t (c.typeOf core) ?_)
    rw [hq]
    exact cons_ne_nil _ _

theorem State.Hosted.exec (h : s.Hosted c) (op : Op) : (s.exec c t op).Hosted c := by
  cases op with
  | count task => exact h
  | share task => exact h
  | early core =>
    simp only [State.exec]
    split
    · exact h.tryDispatchTask
    · exact h
  | issue core =>
    simp only [State.exec]
    split
    · split
      · exact h
      · exact h.tryDispatchTask.setThread (h.tryDispatchTask t)
    · exact h
  | dep task =>
    refine State.Hosted.setThread h ?_
    split
    · split
      · exact (h t).push fun _ => lt_of_le_of_lt (Nat.zero_le _) ‹_›
      · exact h t
    · exact h t

theorem State.Hosted.poll (h : s.Hosted c) : (s.poll c t core).Hosted c := by
  unfold State.poll
  dsimp only
  split
  · split
    · exact State.Hosted.setThread h (h t)
    · split
      · exact State.Hosted.setThread h (h t)
      · exact h.setThread (h t)
  · split
    · exact State.Hosted.setThread h (h t)
    · exact h.setThread (h t)
  · exact h.setThread (h t)

theorem State.check_queue (c : Config) (s : State) (t : Nat) :
    (s.check c t).queue = (s.thread t).queue := by
  unfold State.check
  dsimp only
  repeat' split <;> try rfl

theorem State.Hosted.advance (h : s.Hosted c) (hs : s.advance c t = some s') : s'.Hosted c := by
  simp only [State.advance] at hs
  split at hs
  · cases hs
    exact h.setThread (h t)
  · cases hs
    refine State.Hosted.poll (State.Hosted.setThread h ?_)
    exact h t
  · split at hs
    all_goals
      cases hs
      exact h.setThread (h t)
  · -- a refill takes at most as many tasks as the limit
    cases hs
    refine State.Hosted.setThread h ((h t).push fun hne => ?_)
    by_contra hzero
    rw [Nat.eq_zero_of_not_pos hzero, Nat.min_zero, take_zero] at hne
    exact hne rfl
  · cases hs
    refine h.setThread ?_
    rw [State.check_queue]
    exact h t
  · cases hs
  · cases hs

/-- Queues are filled only where a cap allows. -/
theorem State.Hosted.step {a : Act} (h : s.Hosted c) (hs : s.step c a = some s') : s'.Hosted c := by
  cases a with
  | thread t =>
    obtain ⟨-, hs⟩ := Option.ite_none_right_eq_some.mp hs
    unfold State.stepThread at hs
    split at hs
    · exact h.advance hs
    · cases hs
      refine State.Hosted.exec (State.Hosted.setThread h ?_) _
      exact h t
  | core core =>
    -- a core has no access to the queues
    obtain ⟨-, hs⟩ := Option.ite_none_right_eq_some.mp hs
    simp only [State.stepCore] at hs
    split at hs <;> cases hs <;> exact h

theorem hosted_distribution (c : Config) (t : Nat) :
    Hosted c ((classifyAndDistributeInitialTasks c).own t) := by
  refine foldlRecOn (motive := fun q : Queues => ∀ t, Hosted c (q.own t))
    (range c.taskCount) (Queues.classify c) (fun _ _ hne => absurd rfl hne)
    (fun q h task _ => ?_) t
  unfold Queues.classify
  split
  · unfold Queues.enqueueInitialTask
    dsimp only
    split_ifs with hlt
    · intro t'
      show Hosted c (update q.own (q.next (c.runtime.coreType task)) _ t')
      by_cases ht : t' = q.next (c.runtime.coreType task)
      · subst ht
        rw [update_self]
        exact (h _).update fun _ => lt_of_le_of_lt (Nat.zero_le _) hlt
      · rw [update_of_ne ht]
        exact h t'
    · exact h
  · exact h

theorem State.Hosted.reach (h : Reach (State.step c) free (.init c) s) : s.Hosted c :=
  h.invariant (show (State.init c).Hosted c from hosted_distribution c)
    fun _ _ _ _ hinv _ hs => State.Hosted.step hinv hs

/--
**No ready task is stranded.** If there are no cores of a type or at least as many as threads, then
in every state that is reached, from the initial distribution on, a thread whose queue of a core
type has a task owns a core of that type.
-/
theorem ready_tasks_not_stranded (hcovered : c.Covered)
    (h : Reach (State.step c) free (.init c) s) (ht : t < c.threadNum)
    (hqueue : (s.thread t).queue type ≠ []) :
    ∃ core ∈ c.coreAssignments t, c.typeOf core = type := by
  have hpos := State.Hosted.reach h t type hqueue
  have hlen := (hcovered type).resolve_left (Config.coresOf_ne_nil hpos)
  obtain ⟨core, hcore, htype⟩ := Config.exists_assigned ht hlen
  exact ⟨core, Config.mem_coreAssignments hcore, htype⟩

/-! ## Machines that are not covered -/

/-- The machine of `c` with one task of a type for each thread, and no edges. -/
def Config.flat (c : Config) (type : CoreType) : Config :=
  { c with calls := replicate c.threadNum (.addTask 0 type) }

/-- The graph has one root per thread. -/
theorem build_flat {n : Nat} (hn : n ≤ maxAicpuThreads) :
    (build (replicate n (.addTask 0 type))).nextTaskId = n ∧
      ∀ x < n, (build (replicate n (.addTask 0 type))).fanin x = 0 ∧
        (build (replicate n (.addTask 0 type))).coreType x = type := by
  induction n with
  | zero => exact ⟨rfl, fun x hx => absurd hx (Nat.not_lt_zero x)⟩
  | succ n ih =>
    obtain ⟨hnext, hold⟩ := ih (by omega)
    have hroom : ¬ runtimeMaxTasks ≤ n := by
      unfold maxAicpuThreads at hn
      unfold runtimeMaxTasks
      omega
    rw [replicate_succ', build, foldl_append, ← build, foldl_cons, foldl_nil, Runtime.call,
      Runtime.addTask, hnext, if_neg hroom, if_neg (by decide)]
    refine ⟨rfl, fun x hx => ?_⟩
    simp only [update_apply]
    split_ifs with he
    · exact ⟨rfl, rfl⟩
    · exact hold x (by omega)

/-- The next task goes to the next thread. -/
theorem classify_flat {q : Queues} {k : Nat} (hcap : 0 < c.perThread type) (hk : k < c.threadNum)
    (hnext : q.next type = k) (hempty : q.own k type = []) :
    (q.classify (c.flat type) k).next type = (k + 1) % c.threadNum ∧
      (q.classify (c.flat type) k).own = update q.own k (update (q.own k) type [k]) := by
  obtain ⟨hroot, htype⟩ : (c.flat type).runtime.fanin k = 0 ∧
      (c.flat type).runtime.coreType k = type := (build_flat c.threads_le).2 k hk
  have hroom : (q.own k type).length < (c.flat type).perThread type := by
    rw [hempty]
    exact hcap
  unfold Queues.classify Queues.enqueueInitialTask
  rw [if_pos hroot, htype, hnext, if_pos hroom, hempty]
  exact ⟨update_self .., rfl⟩

/-- The first tasks go round the threads. -/
theorem distribute_flat (hcap : 0 < c.perThread type) {k : Nat} (hk : k ≤ c.threadNum) :
    ((range k).foldl (Queues.classify (c.flat type)) .empty).next type = k % c.threadNum ∧
      ∀ t, ((range k).foldl (Queues.classify (c.flat type)) .empty).own t type =
        if t < k then [t] else [] := by
  induction k with
  | zero => exact ⟨(Nat.zero_mod _).symm, fun _ => rfl⟩
  | succ k ih =>
    obtain ⟨hnext, hown⟩ := ih (by omega)
    rw [Nat.mod_eq_of_lt hk] at hnext
    obtain ⟨hnext', hown'⟩ := classify_flat hcap hk hnext ((hown k).trans (if_neg (lt_irrefl k)))
    rw [range_succ, foldl_append, foldl_cons, foldl_nil]
    refine ⟨hnext', fun t => ?_⟩
    rw [hown']
    by_cases ht : t = k
    · subst ht
      rw [update_self, update_self, if_pos (Nat.lt_succ_self t)]
    · rw [update_of_ne ht, hown t]
      simp only [show t < k + 1 ↔ t < k by omega]

/-- **Every other machine strands a task** of some graph: with fewer cores of a type than threads,
the last thread has none and is given a task. -/
theorem stranded_of_not_covered (h : ¬ c.Covered) : ∃ type, ∃ t < c.threadNum,
    ((State.init (c.flat type)).thread t).queue type ≠ [] ∧
      ¬ ∃ core ∈ (c.flat type).coreAssignments t, (c.flat type).typeOf core = type := by
  simp only [Config.Covered, not_forall, not_or, not_le] at h
  obtain ⟨type, hne, hlt⟩ := h
  have hpos : 0 < (c.coresOf type).length := length_pos_iff.mpr hne
  have hcap : 0 < c.perThread type := Nat.div_pos (by omega) c.threads_pos
  refine ⟨type, c.threadNum - 1, by omega, ?_, ?_⟩
  · have hcount : (c.flat type).taskCount = c.threadNum := (build_flat c.threads_le).1
    show (classifyAndDistributeInitialTasks _).own _ type ≠ []
    rw [classifyAndDistributeInitialTasks, hcount, (distribute_flat hcap le_rfl).2,
      if_pos (by omega)]
    exact cons_ne_nil _ _
  · rintro ⟨core, hcore, htype⟩
    obtain ⟨type', hassigned⟩ : ∃ type', core ∈ c.assigned (c.threadNum - 1) type' := by
      rcases mem_append.mp hcore with h | h
      · exact ⟨_, h⟩
      · exact ⟨_, h⟩
    obtain ⟨htype', i, hi, hmod⟩ := Config.of_mem_assigned hassigned
    obtain rfl : type' = type := htype'.symm.trans htype
    rw [Nat.mod_eq_of_lt (hi.trans hlt)] at hmod
    omega

/-- Two threads, two AIC tasks, and cores of the given types. -/
def twoAicTasks (coreTypes : List CoreType) (hpos : coreTypes ≠ [])
    (hle : coreTypes.length ≤ maxCoresPerThread) : Config where
  threadNum := 2
  coreTypes := coreTypes
  calls := [.addTask 0 .aic, .addTask 0 .aic]
  pmuActive := false
  threads_pos := by decide
  threads_le := by decide
  cores_pos := hpos
  cores_le := hle

/-- With two AIC cores both tasks are where they can be executed. -/
theorem ready_tasks_not_stranded_two :
    let c := twoAicTasks [.aic, .aic] (by decide) (by decide)
    ((State.init c).thread 1).queue .aic = [1] ∧
      ∃ core ∈ c.coreAssignments 1, c.typeOf core = .aic := by
  refine ⟨by decide +kernel, ?_⟩
  refine ready_tasks_not_stranded (fun type => ?_) .init (by decide) ?_
  · cases type <;> decide
  · decide +kernel

/-- With one AIC core the second task waits in the queue of a thread that has none. -/
theorem ready_task_stranded :
    let c := twoAicTasks [.aic, .aiv, .aiv] (by decide) (by decide)
    ((State.init c).thread 1).queue .aic = [1] ∧
      ¬ ∃ core ∈ c.coreAssignments 1, c.typeOf core = .aic := by
  decide +kernel

end PtoRuntime.HostGraph
