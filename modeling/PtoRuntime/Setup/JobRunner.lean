import PtoRuntime.Lib.Reach

/-!
# The parallel job runner

`run_jobs` starts jobs as child processes, in list order and each on devices of its own, and
collects their results. A child ends at any time with any return code; building the command,
starting the process and `on_job_done` may raise. The runner's steps are a launch, one poll, one
wait and the parts of its `finally` block. A child is named by its job.

Main results: `jobs_run_once_on_own_devices`, `no_child_left_behind`, `children_left_behind`.
-/

namespace PtoRuntime.Setup

open Lib Function List Option

structure RunArgs where
  deviceCounts : List Nat
  deviceIds : List Nat
  maxParallel : Option Nat
  failFast : Bool

/-- The pool has distinct devices, enough for each job, and a job may run. -/
structure RunArgs.Valid (a : RunArgs) : Prop where
  fits : ∀ n ∈ a.deviceCounts, n ≤ a.deviceIds.length
  distinct : a.deviceIds.Nodup
  parallel : ∀ m ∈ a.maxParallel, 1 ≤ m

structure RunningJob where
  job : Nat
  deviceIds : List Nat
  deriving DecidableEq

structure JobResult where
  job : Nat
  returncode : Int
  deviceIds : List Nat
  deriving DecidableEq

/-- Where a launch raises: in `build_cmd`, in `Popen`, when the pump thread is started, or when the
line is printed. For `on_job_done` all of them mean that it raises. -/
inductive Outcome
  | ok
  | build
  | popen
  | pump
  | print
  deriving DecidableEq

inductive RunPc
  /-- `while queue and _try_launch_head()` -/
  | fill
  | launch (job : Nat)
  | loop
  /-- `_reap_one`, with the children left to poll -/
  | poll (todo : List RunningJob)
  /-- a child was reaped, `on_job_done` is next -/
  | reaped
  | wait (job : Nat)
  /-- the `finally` block, reached with an exception or not -/
  | cleanup (raised : Bool)
  /-- the two loops of `_terminate_all` -/
  | terminate (todo : List RunningJob) (raised : Bool)
  | await (todo : List RunningJob) (raised : Bool)
  | left (raised : Bool)
  deriving DecidableEq

/-- Left or being left with an exception. -/
def RunPc.raised : RunPc → Bool
  | .cleanup raised | .terminate _ raised | .await _ raised | .left raised => raised
  | _ => false

structure RunState where
  freeDevices : List Nat
  running : List RunningJob
  results : List JobResult
  failed : Bool
  cancelled : Bool
  queue : List Nat
  /-- devices of the job that is being launched -/
  allocated : List Nat
  pc : RunPc
  -- the children: those started, the return codes of those that have ended, those sent SIGTERM
  started : List Nat
  exitCode : Nat → Option Int
  signalled : List Nat

inductive RunAct
  /-- a child ends -/
  | exit (job : Nat) (returncode : Int)
  | run (o : Outcome)

def devices (jobs : List RunningJob) : List Nat := jobs.flatMap RunningJob.deviceIds

namespace RunState

def init (a : RunArgs) : RunState where
  freeDevices := a.deviceIds
  running := []
  results := []
  failed := false
  cancelled := false
  queue := range a.deviceCounts.length
  allocated := []
  pc := .fill
  started := []
  exitCode _ := none
  signalled := []

/-- `_try_launch_head` up to the call of `build_cmd`. -/
def tryLaunchHead (a : RunArgs) (s : RunState) : RunState :=
  match s.queue with
  | [] => { s with pc := .loop }
  | head :: queue =>
    if a.maxParallel.any (· ≤ s.running.length) then { s with pc := .loop }
    else if s.freeDevices.length < a.deviceCounts.getD head 0 then { s with pc := .loop }
    else { s with
      queue := queue
      allocated := s.freeDevices.take (a.deviceCounts.getD head 0)
      freeDevices := s.freeDevices.drop (a.deviceCounts.getD head 0)
      pc := .launch head }

def launch (s : RunState) (job : Nat) : Outcome → RunState
  | .build => { s with pc := .cleanup true }
  | .popen => { s with
      freeDevices := s.freeDevices ++ s.allocated, allocated := [], pc := .cleanup true }
  | .pump => { s with started := s.started ++ [job], pc := .cleanup true }
  | o => { s with
      running := s.running ++ [⟨job, s.allocated⟩]
      allocated := []
      started := s.started ++ [job]
      pc := if o = .ok then .fill else .cleanup true }

def reap (s : RunState) (r : RunningJob) (returncode : Int) : RunState :=
  { s with
    running := s.running.erase r
    freeDevices := s.freeDevices ++ r.deviceIds
    results := s.results ++ [⟨r.job, returncode, r.deviceIds⟩]
    failed := s.failed || returncode ≠ 0
    pc := .reaped }

/-- The results of the children that were terminated. -/
def sweep (s : RunState) (raised : Bool) : RunState :=
  { s with
    running := []
    freeDevices := s.freeDevices ++ devices s.running
    results := s.results ++
      s.running.map fun r => ⟨r.job, (s.exitCode r.job).getD (-15), r.deviceIds⟩
    pc := .left raised }

def runStep (a : RunArgs) (s : RunState) (o : Outcome) : RunState :=
  match s.pc with
  | .fill => s.tryLaunchHead a
  | .launch job => s.launch job o
  | .loop =>
    if s.running = [] ∧ s.queue = [] then { s with pc := .cleanup false }
    else { s with queue := if s.cancelled then [] else s.queue, pc := .poll s.running }
  | .poll [] =>
    match s.running with
    | [] => { s with pc := .cleanup false }
    | first :: _ => { s with pc := .wait first.job }
  | .poll (r :: todo) =>
    match s.exitCode r.job with
    | none => { s with pc := .poll todo }
    | some returncode => s.reap r returncode
  | .reaped =>
    if o ≠ .ok then { s with pc := .cleanup true }
    else if a.failFast ∧ s.failed ∧ ¬ s.cancelled then
      { s with cancelled := true, queue := [], pc := .loop }
    else { s with pc := .fill }
  -- the child has ended, or the wait has timed out
  | .wait _ => { s with pc := .loop }
  | .cleanup raised =>
    if s.cancelled ∧ s.running ≠ [] then { s with pc := .terminate s.running raised }
    else { s with pc := .left raised }
  | .terminate [] raised => { s with pc := .await s.running raised }
  | .terminate (r :: todo) raised => { s with
      signalled := if s.exitCode r.job = none then s.signalled ++ [r.job] else s.signalled
      pc := .terminate todo raised }
  | .await [] raised => s.sweep raised
  -- the child has ended, or is killed and need not have ended yet
  | .await (_ :: todo) raised => { s with pc := .await todo raised }
  | .left _ => s

def step (a : RunArgs) (s : RunState) : RunAct → Option RunState
  | .exit job returncode =>
    if job ∈ s.started ∧ s.exitCode job = none then
      some { s with exitCode := update s.exitCode job (some returncode) }
    else none
  | .run o => some (s.runStep a o)

/-- Nothing raises. -/
def NoRaise (_ : RunState) : RunAct → Prop
  | .exit .. => True
  | .run o => o = .ok

instance : DecidableRel NoRaise
  | _, .exit .. => inferInstanceAs (Decidable True)
  | _, .run o => inferInstanceAs (Decidable (o = .ok))

/-- All children have ended. -/
def AllEnded (s : RunState) : Prop := ∀ job ∈ s.started, s.exitCode job ≠ none

instance (s : RunState) : Decidable s.AllEnded :=
  inferInstanceAs (Decidable (∀ job ∈ s.started, _ ≠ none))

/-- Condition on a step. Something raises only where `cancelled` is set or no child runs, and a
launch not after its child exists. A child that `_terminate_all` waits for ends in that time. After
a failure under `fail_fast` a round of polls finds a child that has ended. -/
def Orderly (a : RunArgs) (s : RunState) : RunAct → Prop
  | .exit .. => True
  | .run o =>
    match s.pc with
    | .launch _ => o ≠ .ok → o ≠ .pump ∧ o ≠ .print ∧ (s.cancelled = true ∨ s.AllEnded)
    | .reaped => o ≠ .ok → s.cancelled = true ∨ s.AllEnded
    | .poll [r] => a.failFast = true → s.failed = true → s.exitCode r.job ≠ none
    | .await (r :: _) _ => s.exitCode r.job ≠ none
    | _ => True

instance (a : RunArgs) : DecidableRel (Orderly a)
  | _, .exit .. => inferInstanceAs (Decidable True)
  | s, .run o => by
    unfold Orderly
    dsimp only
    split <;> infer_instance

/-! ## Devices, order and number of the running jobs -/

/-- The jobs that may still be started. -/
def waiting (s : RunState) : List Nat :=
  match s.pc with
  | .launch job => job :: s.queue
  | .cleanup _ | .terminate .. | .await .. | .left _ => []
  | _ => s.queue

/-- `fail_fast` applies. -/
def Stops (a : RunArgs) (s : RunState) : Prop := a.failFast = true ∧ s.failed = true

/-- No job waits behind an idle runner, if the list is valid, or after a failure. -/
def Drained (a : RunArgs) (s : RunState) : Prop :=
  a.Valid ∧ s.running = [] ∨ s.Stops a → s.queue = []

/-- What holds where the runner stands. -/
def PcOk (a : RunArgs) (s : RunState) : Prop :=
  match s.pc with
  | .fill => s.allocated = [] ∧ (s.Stops a → s.queue = [])
  | .reaped => s.allocated = [] ∧ (s.cancelled = true → s.queue = [])
  | .launch _ => (∀ m ∈ a.maxParallel, s.running.length < m) ∧ ¬ s.Stops a
  | .loop | .wait _ => s.allocated = [] ∧ s.Drained a
  | .poll todo => s.allocated = [] ∧ s.Drained a ∧ todo ⊆ s.running
  | .cleanup raised => raised = false → s.running = [] ∧ (a.Valid → s.queue = [])
  | .terminate _ raised | .await _ raised => raised = true
  | .left raised => raised = false → s.running = []

structure Inv (a : RunArgs) (s : RunState) : Prop where
  owned : ∀ d, s.freeDevices.count d + s.allocated.count d + (devices s.running).count d =
    a.deviceIds.count d
  order : s.started ++ s.waiting <+: range a.deviceCounts.length
  parallel : ∀ m ∈ a.maxParallel, s.running.length ≤ m
  child : s.running.map RunningJob.job ⊆ s.started
  cancelled : s.cancelled = true → s.Stops a
  pcOk : s.PcOk a
  -- the other clauses are lost with an exception
  kept : s.pc.raised = false → ∀ j ∈ s.started, s.exitCode j ≠ none ∨
    j ∈ s.running.map RunningJob.job
  once : a.Valid → s.cancelled = false → s.pc.raised = false → ∀ j,
    (s.results.map JobResult.job).count j + (s.running.map RunningJob.job).count j +
      s.waiting.count j = (range a.deviceCounts.length).count j

variable {a : RunArgs} {s s' : RunState}

theorem Inv.first (a : RunArgs) : Inv a (init a) where
  owned d := by simp [init, devices]
  order := by simp [init, waiting]
  parallel _ _ := Nat.zero_le _
  child := Subset.refl _
  cancelled := nofun
  pcOk := ⟨rfl, nofun⟩
  kept _ := nofun
  once _ _ _ j := by simp [init, waiting]

theorem Inv.started_prefix (h : Inv a s) : s.started <+: range a.deviceCounts.length :=
  (prefix_append ..).trans h.order

theorem Inv.started_append_nil (h : Inv a s) : s.started ++ [] <+: range a.deviceCounts.length :=
  (append_nil s.started).symm ▸ h.started_prefix

/-- The runner moves on, and drops the waiting jobs only when it is cancelled or raises. -/
theorem Inv.goto (h : Inv a s) {queue signalled : List Nat} {pc : RunPc}
    (hpc : PcOk a { s with queue, signalled, pc }) (hr : pc.raised = false → s.pc.raised = false)
    (hw : waiting { s with queue, signalled, pc } = s.waiting ∨
      waiting { s with queue, signalled, pc } = [] ∧
        (a.Valid → s.cancelled = false → pc.raised = false → s.waiting = [])) :
    Inv a { s with queue, signalled, pc } where
  owned := h.owned
  order := by
    obtain hw | ⟨hw, -⟩ := hw
    · exact hw ▸ h.order
    · exact hw ▸ h.started_append_nil
  parallel := h.parallel
  child := h.child
  cancelled := h.cancelled
  pcOk := hpc
  kept hp := h.kept (hr hp)
  once hv hc hp := by
    obtain hw | ⟨hw, hnil⟩ := hw
    · exact hw ▸ h.once hv hc (hr hp)
    · exact hw ▸ hnil hv hc hp ▸ h.once hv hc (hr hp)

/-- The head of the queue is looked at. -/
theorem Inv.fill (h : Inv a s) (hpc : s.pc = .fill) : Inv a (s.tryLaunchHead a) := by
  obtain ⟨hall, hstop⟩ : s.allocated = [] ∧ (s.Stops a → s.queue = []) := by
    simpa only [PcOk, hpc] using h.pcOk
  have hw : s.waiting = s.queue := by simp [waiting, hpc]
  have hr : s.pc.raised = false := by simp [RunPc.raised, hpc]
  unfold tryLaunchHead
  split
  case h_1 hq => exact h.goto ⟨hall, fun _ => hq⟩ (fun _ => hr) (.inl hw.symm)
  case h_2 head queue hq =>
    -- with nothing running the whole pool is free, and no bound on the jobs is met
    split_ifs with hm hfree
    · refine h.goto ⟨hall, Or.rec (fun ⟨hv, hr⟩ => ?_) hstop⟩ (fun _ => hr) (.inl hw.symm)
      obtain ⟨m, hmem, hle⟩ : ∃ m ∈ a.maxParallel, m ≤ s.running.length := by
        simpa [Option.any_eq_true] using hm
      have := hv.parallel m hmem
      rw [show s.running = [] from hr, length_nil] at hle
      omega
    · refine h.goto ⟨hall, Or.rec (fun ⟨hv, hr⟩ => ?_) hstop⟩ (fun _ => hr) (.inl hw.symm)
      have hpool : s.freeDevices ~ a.deviceIds := perm_iff_count.2 fun d => by
        simpa [hall, devices, show s.running = [] from hr] using h.owned d
      have hhead : head < a.deviceCounts.length :=
        mem_range.1 (h.order.subset (by simp [hw, hq]))
      have := hv.fits _ (getElem_mem hhead)
      rw [List.getD_eq_getElem _ _ hhead, hpool.length_eq] at hfree
      omega
    · have horder := h.order
      have honce := h.once
      rw [hw, hq] at horder honce
      refine ⟨fun d => ?_, horder, h.parallel, h.child, h.cancelled, ?_, fun _ => h.kept hr,
        fun hv hc _ => honce hv hc hr⟩
      · rw [← h.owned d, hall, count_nil, Nat.add_zero, Nat.add_comm (count d _), ← count_append,
          take_append_drop]
      · refine ⟨fun m hmem => ?_, fun hs => absurd (hq.symm.trans (hstop hs)) nofun⟩
        by_contra hlt
        exact hm (by simpa [Option.any_eq_true] using ⟨m, hmem, Nat.le_of_not_lt hlt⟩)

/-- A child that has just been started runs. -/
theorem kept_append (h : ∀ j ∈ s.started, s.exitCode j ≠ none ∨ j ∈ s.running.map RunningJob.job)
    (job : Nat) (deviceIds : List Nat) : ∀ j ∈ s.started ++ [job], s.exitCode j ≠ none ∨
      j ∈ (s.running ++ [RunningJob.mk job deviceIds]).map RunningJob.job := by
  intro j hj
  have := h j
  simp only [mem_append, map_append, map_cons, map_nil] at hj ⊢
  tauto

/-- A child that is reaped has ended. -/
theorem kept_erase (h : ∀ j ∈ s.started, s.exitCode j ≠ none ∨ j ∈ s.running.map RunningJob.job)
    {r : RunningJob} (hr : r ∈ s.running) (hend : s.exitCode r.job ≠ none) :
    ∀ j ∈ s.started, s.exitCode j ≠ none ∨ j ∈ (s.running.erase r).map RunningJob.job := by
  intro j hj
  obtain hend' | hrun := h j hj
  · exact .inl hend'
  · obtain rfl | hrun := mem_cons.1 (((perm_cons_erase hr).map RunningJob.job).subset hrun)
    · exact .inl hend
    · exact .inr hrun

/-- A job is launched, or the launch raises. -/
theorem Inv.launched (h : Inv a s) {job : Nat} (hpc : s.pc = .launch job) (o : Outcome) :
    Inv a (s.launch job o) := by
  obtain ⟨hlt, hstop⟩ : (∀ m ∈ a.maxParallel, s.running.length < m) ∧ ¬ s.Stops a := by
    simpa only [PcOk, hpc] using h.pcOk
  have hw : s.waiting = job :: s.queue := by simp [waiting, hpc]
  have hr : s.pc.raised = false := by simp [RunPc.raised, hpc]
  have horder : (s.started ++ [job]) ++ s.queue <+: range a.deviceCounts.length := by
    simpa [hw] using h.order
  have hstarted := (prefix_append (s.started ++ [job]) s.queue).trans horder
  have hchild : s.running.map RunningJob.job ⊆ s.started ++ [job] :=
    fun _ hj => mem_append_left _ (h.child hj)
  -- the child runs in two of the outcomes
  have howned (d : Nat) : s.freeDevices.count d + ([] : List Nat).count d +
      (devices (s.running ++ [RunningJob.mk job s.allocated])).count d = a.deviceIds.count d := by
    rw [← h.owned d]
    simp [devices, Nat.add_assoc, Nat.add_comm (count d s.allocated)]
  have hparallel (m : Nat) (hm : m ∈ a.maxParallel) :
      (s.running ++ [RunningJob.mk job s.allocated]).length ≤ m := by
    simpa [Nat.succ_le_iff] using hlt m hm
  have hrunning : (s.running ++ [RunningJob.mk job s.allocated]).map RunningJob.job ⊆
      s.started ++ [job] := by
    simpa using append_subset.2 ⟨hchild, subset_append_right ..⟩
  cases o with
  | build => exact h.goto nofun (fun _ => hr) (.inr ⟨rfl, fun _ _ => nofun⟩)
  | popen =>
    refine ⟨fun d => ?_, h.started_append_nil, h.parallel, h.child, h.cancelled, nofun, nofun,
      fun _ _ => nofun⟩
    rw [← h.owned d]
    simp [launch]
  | pump =>
    exact ⟨h.owned, by simpa [waiting, launch] using hstarted, h.parallel, hchild,
      h.cancelled, nofun, nofun, fun _ _ => nofun⟩
  | ok =>
    refine ⟨howned, horder, hparallel, hrunning, h.cancelled,
      ⟨rfl, fun hs => absurd hs hstop⟩, fun _ => kept_append (h.kept hr) job s.allocated,
      fun hv hc _ j => ?_⟩
    rw [← h.once hv hc hr j, hw]
    simp only [launch, if_true, waiting, map_append, map_cons, map_nil, count_append, count_cons,
      count_nil]
    omega
  | print =>
    exact ⟨howned, by simpa [waiting, launch] using hstarted, hparallel, hrunning, h.cancelled,
      nofun, nofun, fun _ _ => nofun⟩

/-- A finished job gives its devices back. -/
theorem Inv.reaped (h : Inv a s) {r : RunningJob} {todo : List RunningJob}
    (hpc : s.pc = .poll (r :: todo)) {returncode : Int} (hrc : s.exitCode r.job = some returncode) :
    Inv a (s.reap r returncode) := by
  obtain ⟨hall, hdrained, htodo⟩ : s.allocated = [] ∧ s.Drained a ∧ r :: todo ⊆ s.running := by
    simpa only [PcOk, hpc] using h.pcOk
  have hw : s.waiting = s.queue := by simp [waiting, hpc]
  have hr : s.pc.raised = false := by simp [RunPc.raised, hpc]
  have hperm := perm_cons_erase (htodo mem_cons_self)
  have horder := h.order
  rw [hw] at horder
  refine ⟨fun d => ?_, horder, fun m hm => ?_, fun j hj => ?_, fun hc => ?_,
    ⟨hall, fun hc => hdrained (.inr (h.cancelled hc))⟩,
    fun _ => kept_erase (h.kept hr) (htodo mem_cons_self) (by simp [hrc]), fun hv hc _ j => ?_⟩
  · rw [← h.owned d, devices, devices, (hperm.flatMap_right _).count_eq d]
    simp only [reap, count_append, flatMap_cons]
    omega
  · exact erase_sublist.length_le.trans (h.parallel m hm)
  · exact h.child (map_subset _ erase_subset hj)
  · exact ⟨(h.cancelled hc).1, by simp [reap, (h.cancelled hc).2]⟩
  · rw [← h.once hv hc hr j, hw, (hperm.map _).count_eq j]
    simp only [reap, waiting, map_append, map_cons, map_nil, count_append, count_cons,
      count_nil]
    omega

/-- A step of the runner. -/
theorem Inv.next (h : Inv a s) (o : Outcome) : Inv a (s.runStep a o) := by
  obtain ⟨_, running, _, _, cancelled, queue, _, pc, _, exitCode, _⟩ := s
  have hok := h.pcOk
  cases pc with
  | fill => exact h.fill rfl
  | launch job => exact h.launched rfl o
  | loop =>
    simp only [runStep]
    split_ifs with hend hc
    · exact h.goto (fun _ => ⟨hend.1, fun _ => hend.2⟩) (fun _ => rfl)
        (.inr ⟨rfl, fun _ _ _ => hend.2⟩)
    · exact h.goto ⟨hok.1, fun _ => rfl, Subset.refl _⟩ (fun _ => rfl)
        (.inr ⟨rfl, fun _ hc' => absurd (hc.symm.trans hc') nofun⟩)
    · exact h.goto ⟨hok.1, hok.2, Subset.refl _⟩ (fun _ => rfl) (.inl rfl)
  | poll todo =>
    cases todo with
    | nil =>
      cases running with
      | nil =>
        exact h.goto (fun _ => ⟨rfl, fun hv => hok.2.1 (.inl ⟨hv, rfl⟩)⟩) (fun _ => rfl)
          (.inr ⟨rfl, fun hv _ _ => hok.2.1 (.inl ⟨hv, rfl⟩)⟩)
      | cons first _ =>
        exact h.goto ⟨hok.1, hok.2.1⟩ (fun _ => rfl) (.inl rfl)
    | cons r todo =>
      simp only [runStep]
      split <;> rename_i hrc
      · exact h.goto ⟨hok.1, hok.2.1, fun _ hm => hok.2.2 (mem_cons_of_mem _ hm)⟩ (fun _ => rfl)
          (.inl rfl)
      · exact h.reaped rfl hrc
  | reaped =>
    simp only [runStep]
    split_ifs with _ hff
    · exact h.goto nofun nofun (.inr ⟨rfl, fun _ _ => nofun⟩)
    · exact ⟨h.owned, h.started_append_nil, h.parallel, h.child, fun _ => ⟨hff.1, hff.2.1⟩,
        ⟨hok.1, fun _ => rfl⟩, h.kept, nofun⟩
    · refine h.goto ⟨hok.1, fun hs => hok.2 ?_⟩ (fun _ => rfl) (.inl rfl)
      by_contra hc
      exact hff ⟨hs.1, hs.2, hc⟩
  | wait job => exact h.goto hok (fun _ => rfl) (.inl rfl)
  | cleanup raised =>
    simp only [runStep]
    split_ifs with hc
    · cases raised with
      | false => exact absurd (hok rfl).1 hc.2
      | true => exact h.goto rfl id (.inl rfl)
    · exact h.goto (fun hr => (hok hr).1) id (.inl rfl)
  | terminate todo raised =>
    cases todo <;> exact h.goto hok id (.inl rfl)
  | await todo raised =>
    cases todo with
    | cons => exact h.goto hok id (.inl rfl)
    | nil =>
      obtain rfl : raised = true := hok
      refine ⟨fun d => ?_, h.order, fun _ _ => Nat.zero_le _, nil_subset _, h.cancelled, nofun,
        nofun, fun _ _ => nofun⟩
      rw [← h.owned d]
      simp [runStep, sweep, devices, Nat.add_assoc, Nat.add_comm (count d (flatMap _ _))]
  | left raised => exact h

/-- One step. -/
theorem Inv.moved (h : Inv a s) {act : RunAct} (hst : s.step a act = some s') : Inv a s' := by
  cases act with
  | run o => exact some.inj hst ▸ h.next o
  | exit job returncode =>
    rw [step] at hst
    split_ifs at hst
    obtain rfl := some.inj hst
    refine { h with kept := fun hr j hj => ?_ }
    obtain rfl | hne := eq_or_ne j job
    · exact .inl (by simp)
    · simpa [hne] using h.kept hr j hj

/-- The invariant holds in every run. -/
theorem Inv.of_reach {ok : RunState → RunAct → Prop}
    (h : Reach (step a) ok (init a) s) : Inv a s :=
  h.invariant (Inv.first a) fun _ _ _ _ hs _ hst => hs.moved hst

/-- Bound on the runner's steps until it leaves, apart from its waits. -/
def load (s : RunState) : Nat :=
  20 * s.queue.length + 8 * s.running.length +
    match s.pc with
    | .launch _ => 19
    | .reaped => 6
    | .fill => 5
    | .poll [] => 4
    | .wait _ => 3
    | .loop => 2
    | .poll _ | .cleanup _ => 1
    | _ => 0

theorem Inv.not_cancelled (h : Inv a s) (hff : a.failFast = false) : s.cancelled = false := by
  by_contra hc
  exact absurd ((h.cancelled (by simpa using hc)).1.symm.trans hff) nofun

/-- The runner comes closer to its end, unless it polls a child that has not ended. -/
theorem Inv.load_lt (hv : a.Valid) (hff : a.failFast = false) (h : Inv a s)
    (hr : s.pc.raised = false) : (s.runStep a .ok).pc.raised = false ∧
      (s.pc ≠ .left false → (∀ r todo, s.pc = .poll (r :: todo) → s.exitCode r.job ≠ none) →
        (s.runStep a .ok).load < s.load) := by
  obtain ⟨_, running, _, _, cancelled, queue, _, pc, _, exitCode, _⟩ := s
  have hok := h.pcOk
  obtain rfl : cancelled = false := h.not_cancelled hff
  cases pc with
  | fill =>
    simp only [runStep, tryLaunchHead]
    cases queue with
    | nil => exact ⟨rfl, fun _ _ => by simp [load]⟩
    | cons head queue =>
      dsimp only
      split_ifs <;> exact ⟨rfl, fun _ _ => by simp only [load, length_cons]; omega⟩
  | launch job =>
    refine ⟨rfl, fun _ _ => ?_⟩
    simp only [runStep, launch, load, length_append, length_cons, length_nil,
      if_true]
    omega
  | loop =>
    cases running with
    | nil =>
      obtain rfl : queue = [] := hok.2 (.inl ⟨hv, rfl⟩)
      exact ⟨rfl, fun _ _ => Nat.lt_succ_self _⟩
    | cons => simp [runStep, RunPc.raised, load]
  | poll todo =>
    cases todo with
    | nil => cases running <;> exact ⟨rfl, fun _ _ => by simp [runStep, load]⟩
    | cons r todo =>
      cases hrc : exitCode r.job with
      | none =>
        exact ⟨by simp [runStep, RunPc.raised, hrc],
          fun _ hend => absurd hrc (hend r todo rfl)⟩
      | some returncode =>
        refine ⟨by simp [runStep, reap, RunPc.raised, hrc], fun _ _ => ?_⟩
        have := length_erase_add_one (hok.2.2 mem_cons_self)
        simp only [runStep, hrc, load, reap] at this ⊢
        omega
  | reaped => simp [runStep, RunPc.raised, load, hff]
  | wait job => exact ⟨rfl, fun _ _ => Nat.lt_succ_self _⟩
  | cleanup raised => exact ⟨hr, fun _ _ => by simp [runStep, load]⟩
  | left raised => exact ⟨hr, fun hne => absurd (congrArg RunPc.left hr) hne⟩
  | _ => exact absurd (hok.symm.trans hr) nofun

/-- Without exceptions nothing is raised. -/
theorem not_raised (hv : a.Valid) (hff : a.failFast = false)
    (h : Reach (step a) NoRaise (init a) s) : s.pc.raised = false := by
  induction h with
  | init => rfl
  | @step s s' act hs hok hst ih =>
    cases act with
    | exit job returncode =>
      rw [step] at hst
      split_ifs at hst
      exact some.inj hst ▸ ih
    | run o =>
      obtain rfl : o = .ok := hok
      exact some.inj hst ▸ ((Inv.of_reach hs).load_lt hv hff ih).1

/-- Without `fail_fast` and exceptions the runner can always come to its end. -/
theorem Inv.exists_left (hv : a.Valid) (hff : a.failFast = false) (h : Inv a s)
    (hr : s.pc.raised = false) :
    ∃ s', Reach (step a) NoRaise s s' ∧ s'.pc = .left false := by
  induction hn : s.load using Nat.strong_induction_on generalizing s with
  | _ n ih =>
    by_cases hleft : s.pc = .left false
    · exact ⟨s, .init, hleft⟩
    -- a polled child that still runs ends first
    obtain ⟨t, ht, hinv, htl, htp, htend⟩ : ∃ t, Reach (step a) NoRaise s t ∧ Inv a t ∧
        t.load = s.load ∧ t.pc = s.pc ∧
        ∀ r todo, t.pc = .poll (r :: todo) → t.exitCode r.job ≠ none := by
      by_cases hend : ∃ r todo, s.pc = .poll (r :: todo) ∧ s.exitCode r.job = none
      · obtain ⟨r, todo, hp, hnone⟩ := hend
        have htodo : r :: todo ⊆ s.running := by
          have hok := h.pcOk
          simp only [PcOk, hp] at hok
          exact hok.2.2
        have hst : s.step a (.exit r.job 0) = some _ :=
          if_pos ⟨h.child (mem_map_of_mem (htodo mem_cons_self)), hnone⟩
        refine ⟨_, .step .init (show NoRaise s (.exit r.job 0) from trivial) hst, h.moved hst, rfl,
          rfl, fun r' todo' hp' => ?_⟩
        obtain ⟨rfl, -⟩ : r = r' ∧ _ := by simpa using hp.symm.trans hp'
        simp
      · push Not at hend
        exact ⟨s, .init, h, rfl, rfl, hend⟩
    obtain ⟨hr', hlt⟩ := hinv.load_lt hv hff (htp ▸ hr)
    have := hlt (htp ▸ hleft) htend
    obtain ⟨u, hu, hleft'⟩ := ih (t.runStep a .ok).load (by omega) (hinv.next .ok) hr' rfl
    exact ⟨u, (Reach.step ht (show NoRaise t (.run .ok) from rfl) rfl).trans hu, hleft'⟩

/-! ## Children that are left -/

/-- SIGTERM is sent in `_terminate_all` alone, and there to every child that still runs. -/
def Told (s : RunState) : Prop :=
  match s.pc with
  | .terminate todo _ =>
    ∀ r ∈ s.running, r ∈ todo ∨ s.exitCode r.job ≠ none ∨ r.job ∈ s.signalled
  | .await .. => ∀ r ∈ s.running, s.exitCode r.job ≠ none ∨ r.job ∈ s.signalled
  | .left _ => True
  | _ => s.signalled = []

/-- Signals go to what was started. -/
theorem Told.next (h : s.Told) (a : RunArgs) (o : Outcome) : (s.runStep a o).Told := by
  obtain ⟨_, running, _, _, _, _, _, pc, _, exitCode, signalled⟩ := s
  cases pc with
  | terminate todo raised =>
    cases todo with
    | nil => exact fun r hr => (h r hr).resolve_left not_mem_nil
    | cons first todo =>
      -- the first one has ended, or the signal is sent now
      intro r hr
      simp only [runStep] at hr ⊢
      rcases h r hr with hm | hend | hsig
      · obtain rfl | hm := mem_cons.1 hm
        · by_cases hend : exitCode r.job = none
          · exact .inr (.inr (by simp [hend]))
          · exact .inr (.inl hend)
        · exact .inl hm
      · exact .inr (.inl hend)
      · refine .inr (.inr ?_)
        split_ifs
        · exact mem_append_left _ hsig
        · exact hsig
  | poll todo =>
    cases todo with
    | nil => cases running <;> exact h
    | cons r todo =>
      simp only [runStep]
      split <;> exact h
  | await todo raised =>
    cases todo with
    | nil => trivial
    | cons => exact h
  | cleanup raised =>
    simp only [runStep]
    split_ifs
    · exact fun r hr => .inl hr
    · trivial
  | left raised => trivial
  | launch job => cases o <;> exact h
  | fill | loop | reaped | wait job =>
    simp only [runStep, tryLaunchHead]
    (repeat' split) <;> exact h

/-- What holds while the steps are orderly. -/
structure Tidy (a : RunArgs) (s : RunState) : Prop where
  kept : ∀ j ∈ s.started, s.exitCode j ≠ none ∨ j ∈ s.running.map RunningJob.job
  raised : s.pc.raised = true → s.cancelled = true ∨ s.AllEnded
  pcTidy : match s.pc with
    | .poll [] | .wait _ => ¬ s.Stops a
    | .await todo _ => ∀ r ∈ s.running, r ∈ todo ∨ s.exitCode r.job ≠ none
    | .left _ => s.AllEnded
    | _ => True

/-- An orderly step leaves no child. -/
theorem Tidy.next (hinv : Inv a s) (h : Tidy a s) {o : Outcome} (hok : Orderly a s (.run o)) :
    Tidy a (s.runStep a o) := by
  obtain ⟨free, running, results, failed, cancelled, queue, allocated, pc, started, exitCode,
    signalled⟩ := s
  have hkept := h.kept
  have hpc := hinv.pcOk
  cases pc with
  | fill =>
    simp only [runStep, tryLaunchHead]
    (repeat' split) <;> exact ⟨hkept, nofun, trivial⟩
  | launch job =>
    cases o with
    | ok => exact ⟨kept_append hkept job allocated, nofun, trivial⟩
    | build | popen => exact ⟨hkept, fun _ => (hok nofun).2.2, trivial⟩
    | pump => exact absurd rfl (hok nofun).1
    | print => exact absurd rfl (hok nofun).2.1
  | loop =>
    simp only [runStep]
    split_ifs with hend
    · exact ⟨hkept, nofun, trivial⟩
    all_goals
      refine ⟨hkept, nofun, ?_⟩
      cases running with
      | nil => exact fun hs => hend ⟨rfl, hpc.2 (.inr hs)⟩
      | cons => trivial
  | poll todo =>
    cases todo with
    | nil =>
      cases running with
      | nil => exact ⟨hkept, nofun, trivial⟩
      | cons => exact ⟨hkept, nofun, h.pcTidy⟩
    | cons r todo =>
      simp only [runStep]
      split <;> rename_i hrc
      · -- the last child of a round that found none
        refine ⟨hkept, nofun, ?_⟩
        cases todo with
        | nil => exact fun hs => hok hs.1 hs.2 hrc
        | cons => trivial
      · exact ⟨kept_erase hkept (hpc.2.2 mem_cons_self) (by simp [hrc]), nofun, trivial⟩
  | reaped =>
    simp only [runStep]
    split_ifs with ho
    · exact ⟨hkept, fun _ => hok ho, trivial⟩
    · exact ⟨hkept, nofun, trivial⟩
    · exact ⟨hkept, nofun, trivial⟩
  | wait job => exact ⟨hkept, nofun, trivial⟩
  | cleanup raised =>
    simp only [runStep]
    split_ifs with hc
    · exact ⟨hkept, h.raised, trivial⟩
    · refine ⟨hkept, h.raised, ?_⟩
      -- nobody runs, or the exception came when nobody did
      have hnone (hr : running = []) : ∀ j ∈ started, exitCode j ≠ none := by
        simpa [hr] using hkept
      cases raised with
      | false => exact hnone (hpc rfl).1
      | true =>
        rcases h.raised rfl with hcan | hend
        · exact hnone (by_contra fun hr => hc ⟨hcan, hr⟩)
        · exact hend
  | terminate todo raised =>
    cases todo with
    | nil => exact ⟨hkept, h.raised, fun r hr => .inl hr⟩
    | cons => exact ⟨hkept, h.raised, trivial⟩
  | await todo raised =>
    have hwait := h.pcTidy
    cases todo with
    | nil =>
      have hend : ∀ j ∈ started, exitCode j ≠ none := by
        intro j hj
        obtain hend | hrun := hkept j hj
        · exact hend
        · obtain ⟨r, hr, rfl⟩ := mem_map.1 hrun
          exact (hwait r hr).resolve_left not_mem_nil
      exact ⟨fun j hj => .inl (hend j hj), fun _ => .inr hend, hend⟩
    | cons first todo =>
      refine ⟨hkept, h.raised, fun r hr => ?_⟩
      rcases hwait r hr with hm | hend
      · obtain rfl | hm := mem_cons.1 hm
        · exact .inr hok
        · exact .inl hm
      · exact .inr hend
  | left raised => exact h

/-- A child that has ended stays so. -/
theorem ended_update {exitCode : Nat → Option Int} {j job : Nat} (returncode : Int)
    (h : exitCode j ≠ none) : update exitCode job (some returncode) j ≠ none := by
  obtain rfl | hne := eq_or_ne j job
  · simp
  · rwa [update_of_ne hne]

theorem Told.exit (h : s.Told) (job : Nat) (returncode : Int) :
    Told { s with exitCode := update s.exitCode job (some returncode) } := by
  obtain ⟨_, _, _, _, _, _, _, pc, _, _, _⟩ := s
  cases pc with
  | terminate => exact fun r hr => (h r hr).imp_right (.imp_left (ended_update returncode))
  | await => exact fun r hr => (h r hr).imp_left (ended_update returncode)
  | _ => exact h

theorem Tidy.exit (h : Tidy a s) (job : Nat) (returncode : Int) :
    Tidy a { s with exitCode := update s.exitCode job (some returncode) } := by
  have hall (hend : s.AllEnded) :
      AllEnded { s with exitCode := update s.exitCode job (some returncode) } :=
    fun j hj => ended_update returncode (hend j hj)
  refine ⟨fun j hj => (h.kept j hj).imp_left (ended_update returncode),
    fun hr => (h.raised hr).imp_right hall, ?_⟩
  have hpc := h.pcTidy
  obtain ⟨_, _, _, _, _, _, _, pc, _, _, _⟩ := s
  cases pc with
  | await => exact fun r hr => (hpc r hr).imp_right (ended_update returncode)
  | left => exact hall hpc
  | poll todo => cases todo <;> exact hpc
  | _ => exact hpc

/-- Who is signalled was started. -/
theorem Told.of_reach {ok : RunState → RunAct → Prop} (h : Reach (step a) ok (init a) s) :
    s.Told := by
  refine h.invariant (show (init a).Told from rfl) fun s act s' _ hs _ hst => ?_
  cases act with
  | run o => exact some.inj hst ▸ hs.next a o
  | exit job returncode =>
    obtain ⟨-, ⟨⟩⟩ := Option.ite_none_right_eq_some.mp hst
    exact hs.exit job returncode

/-- Orderly runs leave no child. -/
theorem Tidy.of_reach (h : Reach (step a) (Orderly a) (init a) s) : Tidy a s := by
  refine h.invariant ⟨fun _ hj => absurd hj not_mem_nil, by simp [init, RunPc.raised], trivial⟩
    fun s act s' hreach hs hok hst => ?_
  cases act with
  | run o => exact some.inj hst ▸ hs.next (.of_reach hreach) hok
  | exit job returncode =>
    obtain ⟨-, ⟨⟩⟩ := Option.ite_none_right_eq_some.mp hst
    exact hs.exit job returncode

/-- A normal return has seen all jobs end. -/
theorem Inv.allEnded (h : Inv a s) (hleft : s.pc = .left false) : s.AllEnded := by
  have hrun : s.running = [] := by simpa [PcOk, hleft] using h.pcOk
  simpa [AllEnded, hrun] using h.kept (by rw [hleft]; rfl)

end RunState

open RunState

/--
The devices of the pool are free, held by the job being launched or held by a running job, each
once; running jobs share none; jobs are started in list order and at most `max_parallel` run.
Without `fail_fast` and without exceptions the runner leaves with one result for each job, and it
can always come to leave.
-/
theorem jobs_run_once_on_own_devices (a : RunArgs) (hv : a.Valid) :
    (∀ s, Reach (step a) free (init a) s →
      s.freeDevices ++ s.allocated ++ devices s.running ~ a.deviceIds ∧
      (s.running.Pairwise fun r r' => r.deviceIds.Disjoint r'.deviceIds) ∧
      (∀ r ∈ s.running, r.deviceIds ⊆ a.deviceIds) ∧
      s.started <+: range a.deviceCounts.length ∧
      ∀ m ∈ a.maxParallel, s.running.length ≤ m) ∧
    (a.failFast = false → ∀ s, Reach (step a) NoRaise (init a) s →
      (∀ raised, s.pc = .left raised →
        s.results.map JobResult.job ~ range a.deviceCounts.length) ∧
      ∃ s', Reach (step a) NoRaise s s' ∧ s'.pc = .left false) := by
  refine ⟨fun s hs => ?_, fun hff s hs => ?_⟩
  · have h : Inv a s := .of_reach hs
    have hpool : s.freeDevices ++ s.allocated ++ devices s.running ~ a.deviceIds :=
      perm_iff_count.2 fun d => by simpa [Nat.add_assoc] using h.owned d
    have hnodup := nodup_flatMap.1 (hpool.nodup_iff.2 hv.distinct).of_append_right
    exact ⟨hpool, hnodup.2, fun r hr d hd => hpool.subset
      (mem_append_right _ (mem_flatMap.2 ⟨r, hr, hd⟩)), h.started_prefix, h.parallel⟩
  · have h : Inv a s := .of_reach hs
    have hr := not_raised hv hff hs
    refine ⟨fun raised hleft => perm_iff_count.2 fun j => ?_, h.exists_left hv hff hr⟩
    have hrun : s.running = [] := by
      rw [hleft] at hr
      simpa [PcOk, hleft, show raised = false from hr] using h.pcOk
    simpa [hrun, waiting, hleft] using h.once hv (h.not_cancelled hff) hr j

/--
When `run_jobs` returns, all children have ended. Every child that `_terminate_all` waits for has
ended or was sent SIGTERM, and no child was sent one when the loop waits. If the steps are orderly,
all children have ended in whichever way `run_jobs` is left, and after a failure under `fail_fast`
the runner waits for children that were sent SIGTERM only.
-/
theorem no_child_left_behind (a : RunArgs) :
    (∀ s, Reach (step a) free (init a) s →
      (s.pc = .left false → s.AllEnded) ∧
      (∀ todo raised, s.pc = .await todo raised →
        ∀ r ∈ s.running, s.exitCode r.job ≠ none ∨ r.job ∈ s.signalled) ∧
      ∀ job, s.pc = .wait job → s.signalled = []) ∧
    ∀ s, Reach (step a) (Orderly a) (init a) s →
      (∀ raised, s.pc = .left raised → s.AllEnded) ∧
      (a.failFast = true → s.failed = true → (∀ job, s.pc ≠ .wait job) ∧
        ∀ todo raised, s.pc = .await todo raised →
          ∀ job ∈ s.started, s.exitCode job ≠ none ∨ job ∈ s.signalled) := by
  have hawait {s : RunState} {todo : List RunningJob} {raised : Bool} (h : s.Told)
      (hpc : s.pc = .await todo raised) :
      ∀ r ∈ s.running, s.exitCode r.job ≠ none ∨ r.job ∈ s.signalled := by
    simpa only [Told, hpc] using h
  refine ⟨fun s hs => ⟨(Inv.of_reach hs).allEnded, fun _ _ => hawait (.of_reach hs), ?_⟩,
    fun s hs => ⟨fun raised hleft => ?_, fun hff hf => ⟨fun job hpc => ?_, ?_⟩⟩⟩
  · intro job hpc
    have htold := Told.of_reach hs
    simpa only [Told, hpc] using htold
  · have htidy := (Tidy.of_reach hs).pcTidy
    rwa [hleft] at htidy
  · have htidy := (Tidy.of_reach hs).pcTidy
    rw [hpc] at htidy
    exact htidy ⟨hff, hf⟩
  · -- a child that `running` does not hold has ended
    intro todo raised hpc job hjob
    obtain hend | hrun := (Tidy.of_reach hs).kept job hjob
    · exact .inl hend
    · obtain ⟨r, hr, rfl⟩ := mem_map.1 hrun
      exact hawait (.of_reach hs) hpc r hr

/-- Two jobs of one device each. -/
def twoJobs (failFast : Bool) : RunArgs := ⟨[1, 1], [4, 7], some 2, failFast⟩

/-- Two jobs on a device each. -/
theorem jobs_run_once_on_two_devices :
    (twoJobs false).Valid ∧ ∃ s, Reach (step (twoJobs false)) NoRaise (init (twoJobs false)) s ∧
      s.pc = .left false ∧ s.results.map JobResult.job ~ range 2 := by
  have hv : (twoJobs false).Valid := ⟨by decide, by decide, by decide⟩
  obtain ⟨s, hs, hleft⟩ := ((jobs_run_once_on_own_devices _ hv).2 rfl _ .init).2
  exact ⟨hv, s, hs, hleft, ((jobs_run_once_on_own_devices _ hv).2 rfl s hs).1 _ hleft⟩

/-- Both jobs are started; the first one fails. -/
def failure : List RunAct :=
  replicate 4 (.run .ok) ++ [.exit 0 1] ++ replicate 3 (.run .ok)

/-- Three jobs of one device each, with `fail_fast`. -/
def threeJobs : RunArgs := ⟨[1, 1, 1], [4, 7, 9], none, true⟩

/-- Two of three jobs have ended when the first one, which failed, is reaped; `on_job_done` raises
for the second one, and the third one is sent SIGTERM and ends. -/
theorem no_child_left_behind_after_failure :
    ∃ s, Reach (step threeJobs) (Orderly threeJobs) (init threeJobs) s ∧
      s.pc = .left true ∧ s.started = [0, 1, 2] ∧ s.signalled = [2] ∧ s.AllEnded := by
  refine Reach.exists_of_run_imp
    (P := fun s => s.pc = .left true ∧ s.started = [0, 1, 2] ∧ s.signalled = [2])
    (replicate 7 (.run .ok) ++ [.exit 0 1, .exit 1 0] ++ replicate 5 (.run .ok) ++
      [.run .popen] ++ replicate 3 (.run .ok) ++ [.exit 2 (-15)] ++ replicate 2 (.run .ok))
    (by decide +kernel) fun s hs ⟨hleft, hstart, hsig⟩ => ?_
  exact ⟨hleft, hstart, hsig, ((no_child_left_behind _).2 s hs).1 true hleft⟩

/-- The failed job is reaped and the runner waits for the other one, which is not told of it; and
an exception of `on_job_done` leaves the other one running. -/
theorem children_left_behind :
    (∃ s, Reach (step (twoJobs true)) free (init (twoJobs true)) s ∧
      s.failed = true ∧ s.pc = .wait 1 ∧ s.signalled = [] ∧ ¬ s.AllEnded) ∧
    ∃ s, Reach (step (twoJobs false)) free (init (twoJobs false)) s ∧
      s.pc = .left true ∧ ¬ s.AllEnded :=
  ⟨Reach.exists_of_run (failure ++ replicate 4 (.run .ok)) (by decide +kernel),
    Reach.exists_of_run (failure ++ [.run .popen, .run .ok]) (by decide +kernel)⟩

end PtoRuntime.Setup
