import PtoRuntime.HostGraph.Executor

/-!
# Where the tasks of the host-built runtime are

For each task the places are counted in which it stands: queues, slots of cores, registers, lists of
operations, and the histories of what was written, executed, found done and counted. `Books` is the
balance of these numbers. It also covers operations that a thread has *in hand*, taken from its list
and not carried out yet, so that a step of a thread is to take an operation in hand and to carry it
out.

The one fact about a core is `Core.Ok`: its two slots are, in order, the tasks it has finished, the
one it executes and the one it has not picked up, and `COND` names the last of these it has
reported.

Main results: `Books.dispatch`, `Books.share`, `Books.settle`, `Core.Ok.pending_fin`,
`Core.Ok.running_fin`.
-/

namespace PtoRuntime.HostGraph

open Lib Function List

/-! ## Places of a task -/

/-- In the queues of a thread, or on the way to a shared queue. -/
def Thread.holds (th : Thread) (x : Nat) : Nat :=
  (th.queue .aic).count x + (th.queue .aiv).count x + th.ops.count (.share x)

/-- The two slots, in the order of dispatch. -/
def Core.slots (co : Core) : List Nat := co.running.toList ++ co.pending.toList

/-- Written to the core and not finished. -/
def Core.busy (co : Core) : List Nat := co.executing.toList ++ co.data.toList

namespace State

def held (c : Config) (s : State) (x : Nat) : Nat :=
  ∑ t ∈ Finset.range c.threadNum, (s.thread t).holds x +
    ((s.shared .aic).count x + (s.shared .aiv).count x)

/-- Operations of one kind in the lists of all threads. -/
def inOps (c : Config) (s : State) (op : Op) : Nat :=
  ∑ t ∈ Finset.range c.threadNum, (s.thread t).ops.count op

def inSlots (c : Config) (s : State) (x : Nat) : Nat :=
  ∑ k ∈ Finset.range c.coresTotalNum, (s.core k).slots.count x

def inCores (c : Config) (s : State) (x : Nat) : Nat :=
  ∑ k ∈ Finset.range c.coresTotalNum, (s.core k).busy.count x

end State

/-- Edges to `x` from the tasks of a list. -/
def edgesTo (c : Config) (x : Nat) (tasks : List Nat) : Nat :=
  (tasks.map fun p => (c.runtime.fanout p).count x).sum

def Op.Within (c : Config) : Op → Prop
  | .early core | .issue core => core < c.coresTotalNum
  | .dep task => task < c.taskCount
  | .count _ | .share _ => True

/-- A thread that has returned has seen that all tasks are counted. -/
def Pc.Within (c : Config) (completed : Nat) : Pc → Prop
  | .poll cores => ∀ core ∈ cores, core < c.coresTotalNum
  | .returned => c.taskCount ≤ completed
  | .refill _ | .grab _ | .check | .failed => True

structure Thread.Within (c : Config) (completed : Nat) (th : Thread) : Prop where
  pc : th.pc.Within c completed
  ops : ∀ op ∈ th.ops, op.Within c

/-! ## Cores -/

/-- `COND` is about the task in execution, or else about the last one finished, or else about none
of the two slots. -/
def Core.Reports (co : Core) (done : List Nat) : Prop :=
  match co.executing, done.getLast? with
  | some x, _ => co.cond = some (x, .ack)
  | none, some x => co.cond = some (x, .fin)
  | none, none => ∀ x r, co.cond = some (x, r) → x ∉ co.slots

structure Core.Ok (written finished : List Nat) (co : Core) : Prop where
  order : ∃ done, co.slots = done ++ co.busy ∧ done ⊆ finished ∧ co.Reports done
  nodup : co.slots.Nodup
  picked : ∀ x, co.running = some x → co.data ≠ some x
  cond : ∀ x r, co.cond = some (x, r) → x ∈ written

variable {c : Config} {s s' : State} {co : Core} {written finished : List Nat} {t k x y : Nat}
variable {th : Thread} {op : Op}

theorem Core.Ok.mono (h : co.Ok written finished) {written' finished' : List Nat}
    (hw : written ⊆ written') (hf : finished ⊆ finished') : co.Ok written' finished' := by
  obtain ⟨done, hslots, hdone, hreports⟩ := h.order
  exact ⟨⟨done, hslots, fun x hx => hf (hdone hx), hreports⟩, h.nodup, h.picked,
    fun x r hx => hw (h.cond x r hx)⟩

/-- What `COND` says if it names a task in a slot. -/
theorem Core.Reports.of_mem {done : List Nat} {r : RegState} (h : co.Reports done)
    (hcond : co.cond = some (x, r)) (hmem : x ∈ co.slots) :
    (r = .ack ∧ co.executing = some x) ∨
      (r = .fin ∧ co.executing = none ∧ done.getLast? = some x) := by
  unfold Core.Reports at h
  split at h
  · rename_i y _ hexec
    rw [hcond] at h
    cases h
    exact .inl ⟨rfl, hexec⟩
  · rename_i y hexec hlast
    rw [hcond] at h
    cases h
    exact .inr ⟨rfl, hexec, hlast⟩
  · exact absurd hmem (h x r hcond)

theorem Core.mem_slots_pending (h : co.pending = some x) : x ∈ co.slots := by
  unfold Core.slots
  rw [h]
  exact mem_append_right _ (mem_singleton_self x)

theorem Core.mem_slots_running (h : co.running = some x) : x ∈ co.slots := by
  unfold Core.slots
  rw [h]
  exact mem_append_left _ (mem_singleton_self x)

/-- Case 1: both tasks are done. -/
theorem Core.Ok.pending_fin (h : co.Ok written finished) (hcond : co.cond = some (x, .fin))
    (hpending : co.pending = some x) :
    co.executing = none ∧ co.data = none ∧ co.slots ⊆ finished := by
  obtain ⟨done, hslots, hdone, hreports⟩ := h.order
  obtain ⟨hr, -⟩ | ⟨-, hexec, hlast⟩ := hreports.of_mem hcond (Core.mem_slots_pending hpending)
  · cases hr
  have hnodup := h.nodup
  have hbusy : co.busy = co.data.toList := by rw [Core.busy, hexec]; rfl
  cases hdata : co.data with
  | none =>
    rw [hbusy, hdata, Option.toList_none, append_nil] at hslots
    exact ⟨hexec, rfl, hslots ▸ hdone⟩
  | some d =>
    -- the last slot is `x`, so `x` would be in both parts
    exfalso
    rw [hbusy, hdata] at hslots
    have hend : co.running.toList ++ [x] = done ++ [d] := by
      rw [Core.slots, hpending] at hslots
      exact hslots
    obtain ⟨-, hd⟩ := append_inj' hend rfl
    cases hd
    rw [hslots] at hnodup
    exact (nodup_append.mp hnodup).2.2 x (mem_of_getLast? hlast) x
      (mem_singleton_self x) rfl

/-- Case 2: the old running task is done, the pending one runs. -/
theorem Core.Ok.pending_ack (h : co.Ok written finished) (hcond : co.cond = some (x, .ack))
    (hpending : co.pending = some x) :
    co.executing = some x ∧ co.data = none ∧ co.running.toList ⊆ finished := by
  obtain ⟨done, hslots, hdone, hreports⟩ := h.order
  obtain ⟨-, hexec⟩ | ⟨hr, -⟩ := hreports.of_mem hcond (Core.mem_slots_pending hpending)
  swap
  · cases hr
  have hnodup := h.nodup
  have hend : co.running.toList ++ [x] = done ++ (x :: co.data.toList) := by
    rw [Core.slots, hpending, Core.busy, hexec] at hslots
    exact hslots
  cases hdata : co.data with
  | none =>
    rw [hdata] at hend
    obtain ⟨hrunning, -⟩ := append_inj' hend rfl
    exact ⟨hexec, rfl, hrunning ▸ hdone⟩
  | some d =>
    -- then the running slot would have `x` as well
    exfalso
    have hend' : co.running.toList ++ [x] = done ++ [x] ++ [d] := by
      rw [hend, hdata, append_assoc]
      rfl
    obtain ⟨hrunning, -⟩ := append_inj' hend' rfl
    rw [Core.slots, hpending] at hnodup
    refine (nodup_append.mp hnodup).2.2 x ?_ x (mem_singleton_self x) rfl
    rw [hrunning]
    exact mem_append_right _ (mem_singleton_self x)

/-- Case 3: the running task is done, the pending one is not picked up. -/
theorem Core.Ok.running_fin (h : co.Ok written finished) (hcond : co.cond = some (x, .fin))
    (hrunning : co.running = some x) :
    co.executing = none ∧ co.data = co.pending ∧ x ∈ finished := by
  obtain ⟨done, hslots, hdone, hreports⟩ := h.order
  obtain ⟨hr, -⟩ | ⟨-, hexec, hlast⟩ := hreports.of_mem hcond (Core.mem_slots_running hrunning)
  · cases hr
  have hnodup := h.nodup
  obtain ⟨front, rfl⟩ := getLast?_eq_some_iff.mp hlast
  have hlist : x :: co.pending.toList = front ++ [x] ++ co.data.toList := by
    rw [Core.slots, hrunning, Core.busy, hexec] at hslots
    exact hslots
  have hfront : front = [] := by
    -- anything before `x` would be a second `x`
    cases front with
    | nil => rfl
    | cons y rest =>
      exfalso
      rw [hslots, append_assoc, cons_append] at hnodup
      rw [cons_append, cons_append] at hlist
      obtain ⟨rfl, -⟩ := cons.inj hlist
      exact (nodup_cons.mp hnodup).1
        (mem_append_right _ (mem_append_left _ (mem_singleton_self x)))
  subst hfront
  have htail : co.pending.toList = co.data.toList := (cons.inj hlist).2
  refine ⟨hexec, ?_, hdone (mem_singleton_self x)⟩
  simpa using (congrArg head? htail).symm

/-- FIN of the pending task settles both. -/
theorem Core.Ok.afterPendingFin (h : co.Ok written finished) (hcond : co.cond = some (x, .fin))
    (hpending : co.pending = some x) :
    ({ co with pending := none, running := none }).Ok written finished := by
  obtain ⟨hexec, hdata, -⟩ := h.pending_fin hcond hpending
  refine ⟨⟨[], ?_, nofun, ?_⟩, nodup_nil, nofun, h.cond⟩
  · rw [Core.busy, hexec, hdata]
    rfl
  · simp only [Core.Reports, hexec, getLast?_nil]
    exact fun _ _ _ => not_mem_nil

/-- ACK of the pending task settles the other. -/
theorem Core.Ok.afterPendingAck (h : co.Ok written finished) (hcond : co.cond = some (x, .ack))
    (hpending : co.pending = some x) :
    ({ co with pending := none, running := some x }).Ok written finished := by
  obtain ⟨hexec, hdata, -⟩ := h.pending_ack hcond hpending
  refine ⟨⟨[], ?_, nofun, ?_⟩, nodup_singleton x, fun y _ hy => ?_, h.cond⟩
  · rw [Core.busy, hexec, hdata]
    rfl
  · simp only [Core.Reports, hexec]
    exact hcond
  · rw [show co.data = some y from hy] at hdata
    cases hdata

/-- FIN of the running task. -/
theorem Core.Ok.afterRunningFin (h : co.Ok written finished) (hcond : co.cond = some (x, .fin))
    (hrunning : co.running = some x) : ({ co with running := none }).Ok written finished := by
  obtain ⟨hexec, hdata, -⟩ := h.running_fin hcond hrunning
  have hnodup : (x :: co.pending.toList).Nodup := by
    have := h.nodup
    rw [Core.slots, hrunning] at this
    exact this
  obtain ⟨hnot, hrest⟩ := nodup_cons.mp hnodup
  refine ⟨⟨[], ?_, nofun, ?_⟩, hrest, nofun, h.cond⟩
  · rw [Core.busy, hexec, hdata]
    rfl
  · -- `COND` is still about the task that has left
    simp only [Core.Reports, hexec, getLast?_nil]
    intro y r hy
    rw [hcond] at hy
    cases hy
    exact hnot

theorem Core.slots_of_pending_none (h : co.pending = none) : co.slots = co.running.toList := by
  rw [Core.slots, h]
  exact append_nil _

/-- With a free pending slot, what was written last has been picked up. -/
theorem Core.Ok.data_eq_none (h : co.Ok written finished) (hpending : co.pending = none) :
    co.data = none := by
  obtain ⟨done, hslots, -, -⟩ := h.order
  cases hdata : co.data with
  | none => rfl
  | some d =>
    exfalso
    have hmem : d ∈ co.running.toList := by
      rw [← Core.slots_of_pending_none hpending, hslots, Core.busy, hdata]
      exact mem_append_right _ (mem_append_right _ (mem_singleton_self d))
    exact h.picked d (Option.mem_toList.mp hmem) hdata

/-- A task is written to the register. -/
theorem Core.Ok.dispatch (h : co.Ok written finished) (hpending : co.pending = none)
    (hnew : y ∉ written) (hin : co.slots ⊆ written) :
    ({ co with pending := some y, data := some y }).Ok (written ++ [y]) finished := by
  obtain ⟨done, hslots, hdone, hreports⟩ := h.order
  have hdata := h.data_eq_none hpending
  have hslots' : ({ co with pending := some y, data := some y } : Core).slots =
      co.slots ++ [y] := by
    rw [Core.slots_of_pending_none hpending]
    rfl
  have hbusy' : ({ co with pending := some y, data := some y } : Core).busy = co.busy ++ [y] := by
    rw [Core.busy, Core.busy, hdata, append_assoc]
    rfl
  refine ⟨⟨done, ?_, hdone, ?_⟩, ?_, fun x hx hxy => ?_, fun x r hx => ?_⟩
  · rw [hslots', hbusy', hslots, append_assoc]
  · unfold Core.Reports at hreports ⊢
    split at hreports
    · rename_i _ _ hexec
      simp only [hexec]
      exact hreports
    · rename_i _ hexec hlast
      simp only [hexec, hlast]
      exact hreports
    · -- `COND` names an older task
      rename_i hexec hlast
      simp only [hexec, hlast]
      intro x r hx hmem
      replace hmem : x ∈ co.slots ++ [y] := hslots' ▸ hmem
      rcases mem_append.mp hmem with hmem | hmem
      · exact hreports x r hx hmem
      · exact hnew (mem_singleton.mp hmem ▸ h.cond x r hx)
  · rw [hslots', ← concat_eq_append]
    exact h.nodup.concat fun hmem => hnew (hin hmem)
  · cases hxy
    exact hnew (hin (Core.mem_slots_running hx))
  · exact mem_append_left _ (h.cond x r hx)

/-- The core picks the task up. -/
theorem Core.Ok.pickUp (h : co.Ok written finished) (hexec : co.executing = none)
    (hdata : co.data = some y) (hin : co.slots ⊆ written) :
    ({ co with executing := some y, data := none, cond := some (y, .ack) }).Ok written
      finished := by
  obtain ⟨done, hslots, hdone, -⟩ := h.order
  have hbusy : co.busy = [y] := by
    rw [Core.busy, hexec, hdata]
    rfl
  refine ⟨⟨done, hslots.trans (by rw [hbusy]; rfl), hdone, rfl⟩, h.nodup, nofun, fun x r hx => ?_⟩
  cases hx
  refine hin ?_
  rw [hslots, hbusy]
  exact mem_append_right _ (mem_singleton_self y)

/-- The core has executed its task. -/
theorem Core.Ok.finish (h : co.Ok written finished) (hexec : co.executing = some y)
    (hin : co.slots ⊆ written) :
    ({ co with executing := none, cond := some (y, .fin) }).Ok written (finished ++ [y]) := by
  obtain ⟨done, hslots, hdone, -⟩ := h.order
  have hbusy : co.busy = y :: co.data.toList := by
    rw [Core.busy, hexec]
    rfl
  refine ⟨⟨done ++ [y], ?_, ?_, ?_⟩, h.nodup, h.picked, fun x r hx => ?_⟩
  · rw [append_assoc]
    exact hslots.trans (by rw [hbusy]; rfl)
  · intro x hx
    rcases mem_append.mp hx with hx | hx
    · exact mem_append_left _ (hdone hx)
    · exact mem_append_right _ hx
  · unfold Core.Reports
    rw [getLast?_concat]
  · cases hx
    refine hin ?_
    rw [hslots, hbusy]
    exact mem_append_right _ mem_cons_self

/-! ## What a poll leaves to do -/

theorem count_count : [Op.count y].count (.count x) = [y].count x :=
  count_map_of_injective [y] Op.count (fun _ _ => Op.count.inj) x

theorem count_dep : [Op.dep y].count (.dep x) = [y].count x :=
  count_map_of_injective [y] Op.dep (fun _ _ => Op.dep.inj) x

theorem count_share : [Op.share y].count (.share x) = [y].count x :=
  count_map_of_injective [y] Op.share (fun _ _ => Op.share.inj) x

theorem edgesTo_append (a b : List Nat) : edgesTo c x (a ++ b) = edgesTo c x a + edgesTo c x b := by
  unfold edgesTo
  rw [map_append, sum_append]

theorem edgesTo_singleton : edgesTo c x [y] = (c.runtime.fanout y).count x := add_zero _

/-- Operations that settle the tasks of a list, in some order. -/
structure Settles (c : Config) (ops : List Op) (tasks : List Nat) : Prop where
  share : ∀ x, ops.count (.share x) = 0
  count : ∀ x, ops.count (.count x) = tasks.count x
  dep : ∀ x, ops.count (.dep x) = edgesTo c x tasks
  within : ∀ op ∈ ops, op.Within c

theorem Settles.nil : Settles c [] [] :=
  ⟨fun _ => rfl, fun _ => rfl, fun _ => rfl, nofun⟩

theorem Settles.append {ops ops' : List Op} {tasks tasks' : List Nat} (h : Settles c ops tasks)
    (h' : Settles c ops' tasks') : Settles c (ops ++ ops') (tasks ++ tasks') where
  share x := by rw [count_append, h.share, h'.share]
  count x := by rw [count_append, count_append, h.count, h'.count]
  dep x := by rw [count_append, edgesTo_append, h.dep, h'.dep]
  within op hop := (mem_append.mp hop).elim (h.within op) (h'.within op)

theorem Settles.perm {ops ops' : List Op} {tasks : List Nat} (h : Settles c ops tasks)
    (hp : ops.Perm ops') : Settles c ops' tasks :=
  ⟨fun x => hp.count_eq _ ▸ h.share x, fun x => hp.count_eq _ ▸ h.count x,
    fun x => hp.count_eq _ ▸ h.dep x, fun op hop => h.within op (hp.mem_iff.mpr hop)⟩

/-- Attempts to dispatch settle nothing. -/
theorem Settles.issue (hk : k < c.coresTotalNum) : Settles c [.issue k] [] :=
  ⟨fun _ => rfl, fun _ => rfl, fun _ => rfl, fun _ hop => mem_singleton.mp hop ▸ hk⟩

theorem Settles.early (hk : k < c.coresTotalNum) : Settles c [.early k] [] :=
  ⟨fun _ => rfl, fun _ => rfl, fun _ => rfl, fun _ hop => mem_singleton.mp hop ▸ hk⟩

/-- A done task is counted, then its edges. -/
theorem Settles.task (c : Config) (y : Nat) :
    Settles c (.count y :: State.resolveTaskDependencies c y) [y] := by
  have hdeps (op : Op) (hop : ∀ d, op ≠ .dep d) :
      (State.resolveTaskDependencies c y).count op = 0 := by
    refine count_eq_zero.mpr fun hmem => ?_
    obtain ⟨d, -, hd⟩ := mem_map.mp hmem
    exact hop d hd.symm
  refine ⟨fun x => ?_, fun x => ?_, fun x => ?_, fun op hop => ?_⟩
  · rw [count_cons_of_ne (by nofun), hdeps _ (by nofun)]
  · rw [← count_count, ← singleton_append, count_append, hdeps _ (by nofun),
      add_zero]
  · rw [count_cons_of_ne (by nofun), edgesTo_singleton]
    exact count_map_of_injective _ Op.dep (fun _ _ => Op.dep.inj) x
  · rcases mem_cons.mp hop with rfl | hop
    · trivial
    · obtain ⟨d, hd, rfl⟩ := mem_map.mp hop
      exact (linked_build c.calls).fanout_lt y d hd

theorem Settles.old (c : Config) (o : Option Nat) : Settles c (State.settleOld c o) o.toList := by
  cases o with
  | none => exact .nil
  | some y => exact .task c y

/-! ## The balance -/

/-- The operations of `hand` belong to no list of operations and are still to be carried out. -/
structure Books (c : Config) (hand : List Op) (s : State) : Prop where
  once : ∀ x, s.held c x + hand.count (.share x) + s.written.count x ≤ 1
  ready : ∀ x, 0 < s.held c x + hand.count (.share x) + s.written.count x →
    s.fanin x ≤ 0 ∧ x < c.taskCount
  slots : ∀ x, s.written.count x = s.settled.count x + s.inSlots c x
  busy : ∀ x, s.written.count x = s.finished.count x + s.inCores c x
  counts : ∀ x, s.settled.count x =
    s.counted.count x + s.inOps c (.count x) + hand.count (.count x)
  fanin : ∀ x, s.fanin x + (edgesTo c x s.settled : Nat) =
    (c.runtime.fanin x + s.inOps c (.dep x) + hand.count (.dep x) : Nat)
  finished : s.settled ⊆ s.finished
  completed : s.completed = s.counted.length
  cores : ∀ k, (s.core k).Ok s.written s.finished
  within : ∀ t, (s.thread t).Within c s.completed
  inHand : ∀ op ∈ hand, op.Within c

-- How the sums change when one thread or one core does.

theorem State.inOps_setThread (ht : t < c.threadNum) (th : Thread) (op : Op) :
    (s.setThread t th).inOps c op + (s.thread t).ops.count op = s.inOps c op + th.ops.count op :=
  sum_update (Finset.mem_range.mpr ht) (fun th => th.ops.count op) s.thread th

theorem State.held_setThread (ht : t < c.threadNum) (th : Thread) (x : Nat) :
    (s.setThread t th).held c x + (s.thread t).holds x = s.held c x + th.holds x := by
  have hsum := sum_update (Finset.mem_range.mpr ht) (fun th => th.holds x) s.thread th
  unfold State.held
  show ∑ i ∈ _, (update s.thread t th i).holds x +
    ((s.shared .aic).count x + (s.shared .aiv).count x) + _ = _
  omega

theorem State.inSlots_setCore (hk : k < c.coresTotalNum) (co : Core) (x : Nat) :
    (s.setCore k co).inSlots c x + (s.core k).slots.count x = s.inSlots c x + co.slots.count x :=
  sum_update (Finset.mem_range.mpr hk) (fun co => co.slots.count x) s.core co

theorem State.inCores_setCore (hk : k < c.coresTotalNum) (co : Core) (x : Nat) :
    (s.setCore k co).inCores c x + (s.core k).busy.count x = s.inCores c x + co.busy.count x :=
  sum_update (Finset.mem_range.mpr hk) (fun co => co.busy.count x) s.core co

theorem State.inSlots_eq (hk : k < c.coresTotalNum)
    (hslots : co.slots = (s.core k).slots) (x : Nat) :
    (s.setCore k co).inSlots c x = s.inSlots c x := by
  have hsum := State.inSlots_setCore (s := s) hk co x
  rw [hslots] at hsum
  omega

theorem State.inCores_eq (hk : k < c.coresTotalNum) (hbusy : co.busy = (s.core k).busy) (x : Nat) :
    (s.setCore k co).inCores c x = s.inCores c x := by
  have hsum := State.inCores_setCore (s := s) hk co x
  rw [hbusy] at hsum
  omega

/-- A thread that only changes its queues. -/
theorem State.inOps_eq (ht : t < c.threadNum) (hops : th.ops.count op = (s.thread t).ops.count op) :
    (s.setThread t th).inOps c op = s.inOps c op := by
  have hsum := State.inOps_setThread (s := s) ht th op
  omega

theorem Within.setThread {completed : Nat} (h : ∀ t, (s.thread t).Within c completed)
    (hth : th.Within c completed) : ∀ t', ((s.setThread t th).thread t').Within c completed :=
  (forall_update_iff s.thread fun _ th => th.Within c completed).mpr ⟨hth, fun t' _ => h t'⟩

theorem Pc.Within.mono {pc : Pc} {m n : Nat} (h : pc.Within c m) (hle : m ≤ n) :
    pc.Within c n := by
  cases pc with
  | returned => exact le_trans h hle
  | poll cores => exact h
  | refill _ | grab _ | check | failed => trivial

/-- What a queue gains. -/
theorem count_update (queue : CoreType → List Nat) (type : CoreType) (l : List Nat) (x : Nat) :
    (update queue type l .aic).count x + (update queue type l .aiv).count x +
        (queue type).count x =
      (queue .aic).count x + (queue .aiv).count x + l.count x := by
  cases type with
  | aic =>
    rw [update_self, update_of_ne (by decide)]
    omega
  | aiv =>
    rw [update_self, update_of_ne (by decide)]
    omega

namespace Books

variable {hand hand' : List Op}

/-- Operations move between the list of a thread and the hand. -/
theorem setThread (h : Books c hand s) (ht : t < c.threadNum)
    (hqueue : th.queue = (s.thread t).queue)
    (hops : ∀ op, th.ops.count op + hand'.count op = (s.thread t).ops.count op + hand.count op)
    (hth : th.Within c s.completed) (hhand : ∀ op ∈ hand', op.Within c) :
    Books c hand' (s.setThread t th) := by
  have hinOps := State.inOps_setThread (s := s) ht th
  have hheld (x : Nat) : (s.setThread t th).held c x + (s.thread t).ops.count (.share x) =
      s.held c x + th.ops.count (.share x) := by
    have hsum := State.held_setThread (s := s) ht th x
    simp only [Thread.holds, hqueue] at hsum
    omega
  refine ⟨fun x => ?_, fun x hx => ?_, h.slots, h.busy, fun x => ?_, fun x => ?_, h.finished,
    h.completed, h.cores, Within.setThread h.within hth, hhand⟩
  · have := h.once x
    have := hheld x
    have := hops (.share x)
    show _ + _ + s.written.count x ≤ 1
    omega
  · refine h.ready x ?_
    have := hheld x
    have := hops (.share x)
    change 0 < _ + _ + s.written.count x at hx
    omega
  · have := h.counts x
    have := hinOps (.count x)
    have := hops (.count x)
    show s.settled.count x = s.counted.count x + _ + _
    omega
  · have := h.fanin x
    have := hinOps (.dep x)
    have := hops (.dep x)
    show s.fanin x + (edgesTo c x s.settled : Nat) = _
    omega

/-- A thread moves on in its program. -/
theorem setPc (h : Books c hand s) (ht : t < c.threadNum) (hqueue : th.queue = (s.thread t).queue)
    (hops : th.ops = (s.thread t).ops) (hpc : th.pc.Within c s.completed) :
    Books c hand (s.setThread t th) :=
  h.setThread ht hqueue (fun op => by rw [hops]) ⟨hpc, hops ▸ (h.within t).ops⟩ h.inHand

/-- A thread takes its first operation in hand. -/
theorem take (h : Books c [] s) (ht : t < c.threadNum) {rest : List Op}
    (hops : (s.thread t).ops = op :: rest) :
    Books c [op] (s.setThread t { s.thread t with ops := rest }) := by
  have hwithin := (h.within t).ops
  rw [hops] at hwithin
  refine h.setThread ht rfl (fun op' => ?_)
    ⟨(h.within t).pc, fun op' hop' => hwithin op' (mem_cons_of_mem _ hop')⟩ fun op' hop' => ?_
  · show rest.count op' + [op].count op' = _
    simp only [hops, count_cons, count_nil]
    omega
  · rw [mem_singleton.mp hop']
    exact hwithin op mem_cons_self

/-- Operations that settle nothing are no obligation. -/
theorem swap (h : Books c hand s) (hhand : Settles c hand []) (hhand' : Settles c hand' []) :
    Books c hand' s := by
  have hshare (x : Nat) := (hhand.share x).trans (hhand'.share x).symm
  have hcount (x : Nat) := (hhand.count x).trans (hhand'.count x).symm
  have hdep (x : Nat) := (hhand.dep x).trans (hhand'.dep x).symm
  refine { h with once := fun x => ?_, ready := fun x => ?_, counts := fun x => ?_,
                  fanin := fun x => ?_, inHand := hhand'.within }
  · exact hshare x ▸ h.once x
  · exact hshare x ▸ h.ready x
  · exact hcount x ▸ h.counts x
  · exact hdep x ▸ h.fanin x

/-- A task is counted. -/
theorem count (h : Books c [.count y] s) :
    Books c [] { s with completed := s.completed + 1, counted := s.counted ++ [y] } := by
  refine ⟨h.once, h.ready, h.slots, h.busy, fun x => ?_, h.fanin, h.finished, ?_, h.cores,
    fun t => ⟨(h.within t).pc.mono (Nat.le_succ _), (h.within t).ops⟩, nofun⟩
  · have := h.counts x
    rw [count_count] at this
    show s.settled.count x = (s.counted ++ [y]).count x + s.inOps c (.count x) + 0
    rw [count_append]
    omega
  · rw [h.completed, length_append]
    rfl

/-- A task goes to the shared queue. -/
theorem share (h : Books c [.share y] s) (type : CoreType) :
    Books c [] { s with shared := update s.shared type (s.shared type ++ [y]) } := by
  have hheld (x : Nat) :
      State.held c { s with shared := update s.shared type (s.shared type ++ [y]) } x =
        s.held c x + [Op.share y].count (.share x) := by
    have := count_update s.shared type (s.shared type ++ [y]) x
    rw [count_append] at this
    rw [count_share]
    unfold State.held
    dsimp only
    omega
  refine ⟨fun x => ?_, fun x hx => ?_, h.slots, h.busy, h.counts, h.fanin, h.finished, h.completed,
    h.cores, h.within, nofun⟩
  · rw [hheld]
    exact h.once x
  · rw [hheld] at hx
    exact h.ready x hx

/-- The tasks of `l` are added to the queue of a thread. -/
theorem held_push (ht : t < c.threadNum) (type : CoreType) (l : List Nat) (pc : Pc) (x : Nat) :
    (s.setThread t { State.push (s.thread t) type l with pc := pc }).held c x =
      s.held c x + l.count x := by
  have hsum := State.held_setThread (s := s) ht { State.push (s.thread t) type l with pc := pc } x
  have hqueue := count_update (s.thread t).queue type ((s.thread t).queue type ++ l) x
  rw [count_append] at hqueue
  simp only [Thread.holds, State.push] at hsum
  dsimp only [State.push]
  omega

/-- Nothing but the queue of a thread and the shared queues changes. -/
theorem requeue (h : Books c [] s) {shared : CoreType → List Nat} (hops : th.ops = (s.thread t).ops)
    (hpc : th.pc.Within c s.completed) (ht : t < c.threadNum)
    (hheld : ∀ x, State.held c { s.setThread t th with shared := shared } x = s.held c x) :
    Books c [] { s.setThread t th with shared := shared } := by
  have hinOps (op : Op) : (s.setThread t th).inOps c op = s.inOps c op :=
    State.inOps_eq ht (by rw [hops])
  refine ⟨fun x => ?_, fun x hx => ?_, h.slots, h.busy, fun x => ?_, fun x => ?_, h.finished,
    h.completed, h.cores, Within.setThread h.within ⟨hpc, hops ▸ (h.within t).ops⟩, nofun⟩
  · rw [hheld]
    exact h.once x
  · rw [hheld] at hx
    exact h.ready x hx
  · refine (h.counts x).trans ?_
    rw [← hinOps]
    rfl
  · refine (h.fanin x).trans ?_
    rw [← hinOps]
    rfl

/-- Tasks come from the shared queue. -/
theorem grab (h : Books c [] s) (ht : t < c.threadNum) (type : CoreType) :
    Books c [] (s.grab c t type) := by
  refine h.requeue rfl ?_ ht fun x => ?_
  · cases type <;> exact trivial
  · -- what leaves the shared queue arrives at the thread
    have hpush := held_push (s := s) ht type ((s.shared type).take
      (min (s.shared type).length (c.perThread type))) (State.afterRefill type) x
    have hshared := count_update s.shared type ((s.shared type).drop
      (min (s.shared type).length (c.perThread type))) x
    have hsplit := congrArg (List.count x) (take_append_drop
      (min (s.shared type).length (c.perThread type)) (s.shared type))
    rw [count_append] at hsplit
    unfold State.held at hpush ⊢
    change _ + ((s.shared .aic).count x + (s.shared .aiv).count x) = _ at hpush
    dsimp only at hpush ⊢
    omega

end Books

/-! ## Resolving an edge -/

/-- The thread after `fetch_sub` has returned `fanin`. -/
def Thread.afterDep (c : Config) (th : Thread) (fanin : Int) (y : Nat) : Thread :=
  if fanin = 1 then
    if (th.queue (c.runtime.coreType y)).length < c.perThread (c.runtime.coreType y) then
      State.push th (c.runtime.coreType y) [y]
    else { th with ops := .share y :: th.ops }
  else th

namespace Thread

variable {th : Thread} {fanin : Int}

theorem count_afterDep (hop : op ≠ .share y) :
    (th.afterDep c fanin y).ops.count op = th.ops.count op := by
  unfold Thread.afterDep
  split
  · split
    · rfl
    · exact count_cons_of_ne hop.symm
  · rfl

/-- A ready task is in one more place. -/
theorem holds_afterDep :
    (th.afterDep c fanin y).holds x = th.holds x + if fanin = 1 then [y].count x else 0 := by
  unfold Thread.afterDep
  split
  · split
    · have := count_update th.queue (c.runtime.coreType y)
        (th.queue (c.runtime.coreType y) ++ [y]) x
      rw [count_append] at this
      simp only [Thread.holds, State.push]
      omega
    · have : (Op.share y :: th.ops).count (.share x) =
          [Op.share y].count (.share x) + th.ops.count (.share x) := by
        rw [← count_append]
        rfl
      rw [count_share] at this
      simp only [Thread.holds]
      omega
  · rfl

theorem Within.afterDep {completed : Nat} (h : th.Within c completed) :
    (th.afterDep c fanin y).Within c completed := by
  unfold Thread.afterDep
  split
  · split
    · exact ⟨h.pc, h.ops⟩
    · refine ⟨h.pc, fun op hop => ?_⟩
      rcases mem_cons.mp hop with rfl | hop
      · trivial
      · exact h.ops op hop
  · exact h

end Thread

/-- A successor loses a predecessor. -/
theorem Books.resolveDep (h : Books c [.dep y] s) (ht : t < c.threadNum) :
    Books c [] (s.resolveDep c t y) := by
  have hy : y < c.taskCount := h.inHand _ mem_cons_self
  have hinOps (op : Op) (hop : op ≠ .share y) :
      (s.resolveDep c t y).inOps c op = s.inOps c op :=
    State.inOps_eq ht (Thread.count_afterDep hop)
  have hheld (x : Nat) : (s.resolveDep c t y).held c x =
      s.held c x + if s.fanin y = 1 then [y].count x else 0 := by
    have hsum := State.held_setThread (s := s) ht ((s.thread t).afterDep c (s.fanin y) y) x
    rw [Thread.holds_afterDep] at hsum
    show (s.setThread t ((s.thread t).afterDep c (s.fanin y) y)).held c x = _
    omega
  have hself : (s.resolveDep c t y).fanin y = s.fanin y - 1 := update_self ..
  have hother {x : Nat} (hx : x ≠ y) : (s.resolveDep c t y).fanin x = s.fanin x :=
    update_of_ne hx ..
  have hzero {x : Nat} (hx : x ≠ y) : [y].count x = 0 :=
    count_eq_zero.mpr fun hmem => hx (mem_singleton.mp hmem)
  refine ⟨fun x => ?_, fun x hx => ?_, h.slots, h.busy, fun x => ?_, fun x => ?_, h.finished,
    h.completed, h.cores, Within.setThread h.within (h.within t).afterDep, nofun⟩
  · -- a task that becomes ready was nowhere before
    have hready := h.ready x
    have honce := h.once x
    rw [hheld]
    show _ + 0 + s.written.count x ≤ 1
    change _ + 0 + _ ≤ 1 at honce
    change 0 < _ + 0 + _ → _ at hready
    by_cases hxy : x = y
    · subst hxy
      rw [count_singleton_self]
      split
      · by_contra
        have := (hready (by omega)).1
        omega
      · exact honce
    · rw [hzero hxy, ite_self]
      exact honce
  · have hready := h.ready x
    rw [hheld] at hx
    change 0 < _ + 0 + s.written.count x at hx
    change 0 < _ + 0 + _ → _ at hready
    by_cases hxy : x = y
    · subst hxy
      rw [hself]
      by_cases hone : s.fanin x = 1
      · exact ⟨by omega, hy⟩
      · rw [if_neg hone] at hx
        have := (hready hx).1
        exact ⟨by omega, hy⟩
    · rw [hother hxy]
      rw [hzero hxy, ite_self] at hx
      exact hready hx
  · rw [hinOps (.count x) nofun]
    exact h.counts x
  -- one edge less on both sides
  · have hfanin := h.fanin x
    rw [count_dep] at hfanin
    rw [hinOps (.dep x) nofun]
    show _ + ((edgesTo c x s.settled : Nat) : Int) = (_ + _ + 0 : Nat)
    by_cases hxy : x = y
    · subst hxy
      rw [hself]
      rw [count_singleton_self] at hfanin
      omega
    · rw [hother hxy]
      rw [hzero hxy] at hfanin
      exact hfanin

/-! ## Slots of a core -/

theorem Cores.setCore (h : ∀ k, (s.core k).Ok s.written s.finished) {written' finished' : List Nat}
    (hw : s.written ⊆ written') (hf : s.finished ⊆ finished') (hco : co.Ok written' finished') :
    ∀ k', ((s.setCore k co).core k').Ok written' finished' :=
  (forall_update_iff s.core fun _ co => co.Ok written' finished').mpr
    ⟨hco, fun k' _ => (h k').mono hw hf⟩

namespace Books

variable {hand : List Op}

/-- No id is written twice. -/
theorem nodup_written (h : Books c hand s) : s.written.Nodup := by
  refine nodup_iff_count_le_one.mpr fun x => ?_
  have := h.once x
  omega

/-- The slots of a core have only tasks that were written. -/
theorem mem_written (h : Books c hand s) (hk : k < c.coresTotalNum) (hx : x ∈ (s.core k).slots) :
    x ∈ s.written := by
  have hle : (s.core k).slots.count x ≤ s.inSlots c x :=
    Finset.single_le_sum (f := fun k => (s.core k).slots.count x) (fun _ _ => Nat.zero_le _)
      (Finset.mem_range.mpr hk)
  have hpos := count_pos_iff.mpr hx
  have := h.slots x
  exact count_pos_iff.mp (by omega)

/-- Tasks of `moved` leave the slots of a core, done; to count them and to resolve their edges comes
into hand. -/
theorem settle (h : Books c [] s) (hk : k < c.coresTotalNum) {moved : List Nat}
    (hslots : ∀ x, (s.core k).slots.count x = co.slots.count x + moved.count x)
    (hbusy : co.busy = (s.core k).busy) (hmoved : moved ⊆ s.finished)
    (hco : co.Ok s.written s.finished) (hhand : Settles c hand moved) :
    Books c hand { s.setCore k co with settled := s.settled ++ moved } := by
  refine ⟨fun x => ?_, fun x hx => ?_, fun x => ?_, fun x => ?_, fun x => ?_, fun x => ?_, ?_,
    h.completed, Cores.setCore h.cores (Subset.refl _) (Subset.refl _) hco, h.within,
    hhand.within⟩
  · rw [hhand.share]
    exact h.once x
  · rw [hhand.share] at hx
    exact h.ready x hx
  · have hsum := State.inSlots_setCore (s := s) hk co x
    have hold := h.slots x
    have hone := hslots x
    show s.written.count x = (s.settled ++ moved).count x + (s.setCore k co).inSlots c x
    rw [count_append]
    omega
  · exact (h.busy x).trans (congrArg _ (State.inCores_eq hk hbusy x).symm)
  · have hold := h.counts x
    rw [hhand.count]
    show (s.settled ++ moved).count x = s.counted.count x + s.inOps c (.count x) + _
    rw [count_append]
    change _ = _ + _ + 0 at hold
    omega
  · have hold := h.fanin x
    rw [hhand.dep]
    show s.fanin x + (edgesTo c x (s.settled ++ moved) : Nat) =
      (_ + s.inOps c (.dep x) + _ : Nat)
    change _ = ((_ + _ + 0 : Nat) : Int) at hold
    rw [edgesTo_append]
    omega
  · intro x hx
    rcases mem_append.mp hx with hx | hx
    · exact h.finished hx
    · exact hmoved hx

/-- A task leaves the queue of a thread for a core with a free pending slot. -/
theorem dispatch (h : Books c [] s) (ht : t < c.threadNum) (hk : k < c.coresTotalNum)
    (hpending : (s.core k).pending = none) : Books c [] (s.tryDispatchTask c t k) := by
  unfold State.tryDispatchTask
  split
  · exact h
  rename_i y rest hqueue
  obtain ⟨th, hth⟩ : ∃ th, ({ s.thread t with
      queue := update (s.thread t).queue (c.typeOf k) rest } : Thread) = th := ⟨_, rfl⟩
  have hops : th.ops = (s.thread t).ops := by rw [← hth]
  have hpc : th.pc = (s.thread t).pc := by rw [← hth]
  rw [hth]
  have hheld (x : Nat) : (s.setThread t th).held c x + [y].count x = s.held c x := by
    have hsum := State.held_setThread (s := s) ht th x
    have hupdate := count_update (s.thread t).queue (c.typeOf k) rest x
    have hcons : (y :: rest).count x = [y].count x + rest.count x := by
      rw [← count_append]
      rfl
    rw [hqueue, hcons] at hupdate
    have hholds : th.holds x + [y].count x = (s.thread t).holds x := by
      rw [← hth]
      simp only [Thread.holds]
      omega
    omega
  have hinOps (op : Op) : (s.setThread t th).inOps c op = s.inOps c op :=
    State.inOps_eq ht (by rw [hops])
  -- the task has not been written before
  have hnew : y ∉ s.written := by
    intro hmem
    have honce := h.once y
    have hhere := hheld y
    have hpos := count_pos_iff.mpr hmem
    rw [count_singleton_self] at hhere
    omega
  have hin : (s.core k).slots ⊆ s.written := fun _ hmem => h.mem_written hk hmem
  have hdata := (h.cores k).data_eq_none hpending
  have hcount (x : Nat) : (s.written ++ [y]).count x = s.written.count x + [y].count x :=
    count_append
  obtain ⟨co, hco⟩ : ∃ co, ({ s.core k with pending := some y, data := some y } : Core) = co :=
    ⟨_, rfl⟩
  have hok := (h.cores k).dispatch hpending hnew hin
  have hslots : co.slots = (s.core k).slots ++ [y] := by
    rw [← hco, Core.slots_of_pending_none hpending]
    rfl
  have hbusy : co.busy = (s.core k).busy ++ [y] := by
    rw [← hco, Core.busy, Core.busy, hdata, append_assoc]
    rfl
  rw [hco] at hok ⊢
  refine ⟨fun x => ?_, fun x hx => ?_, fun x => ?_, fun x => ?_, fun x => ?_, fun x => ?_,
    h.finished, h.completed,
    Cores.setCore h.cores (subset_append_left _ _) (Subset.refl _) hok,
    Within.setThread h.within ⟨hpc ▸ (h.within t).pc, hops ▸ (h.within t).ops⟩, nofun⟩
  · show (s.setThread t th).held c x + 0 + (s.written ++ [y]).count x ≤ 1
    have honce : s.held c x + 0 + s.written.count x ≤ 1 := h.once x
    have hhere := hheld x
    rw [hcount]
    omega
  · change 0 < (s.setThread t th).held c x + 0 + (s.written ++ [y]).count x at hx
    rw [hcount] at hx
    have hhere := hheld x
    refine h.ready x ?_
    show 0 < s.held c x + 0 + s.written.count x
    omega
  · show (s.written ++ [y]).count x = s.settled.count x + (s.setCore k co).inSlots c x
    have hsum := State.inSlots_setCore (s := s) hk co x
    rw [hslots, count_append] at hsum
    have hold := h.slots x
    rw [hcount]
    omega
  · show (s.written ++ [y]).count x = s.finished.count x + (s.setCore k co).inCores c x
    have hsum := State.inCores_setCore (s := s) hk co x
    rw [hbusy, count_append] at hsum
    have hold := h.busy x
    rw [hcount]
    omega
  · exact (h.counts x).trans (by rw [← hinOps]; rfl)
  · exact (h.fanin x).trans (by rw [← hinOps]; rfl)

theorem pickUp (h : Books c [] s) (hk : k < c.coresTotalNum)
    (hexec : (s.core k).executing = none) (hdata : (s.core k).data = some y) :
    Books c [] (s.setCore k { s.core k with
      executing := some y, data := none, cond := some (y, .ack) }) := by
  have hok := (h.cores k).pickUp hexec hdata fun _ hmem => h.mem_written hk hmem
  refine { h with
    slots := fun x => (h.slots x).trans (congrArg _ (State.inSlots_eq hk (by rfl) x).symm)
    busy := fun x => (h.busy x).trans (congrArg _ (State.inCores_eq hk ?_ x).symm)
    cores := Cores.setCore h.cores (Subset.refl _) (Subset.refl _) hok }
  rw [Core.busy, Core.busy, hexec, hdata]
  rfl

theorem finish (h : Books c [] s) (hk : k < c.coresTotalNum)
    (hexec : (s.core k).executing = some y) :
    Books c [] { s.setCore k { s.core k with executing := none, cond := some (y, .fin) } with
      finished := s.finished ++ [y] } := by
  have hok := (h.cores k).finish hexec fun _ hmem => h.mem_written hk hmem
  refine { h with
    slots := fun x => (h.slots x).trans (congrArg _ (State.inSlots_eq hk (by rfl) x).symm)
    busy := fun x => ?_
    finished := fun x hx => mem_append_left _ (h.finished hx)
    cores := Cores.setCore h.cores (Subset.refl _) (subset_append_left _ _) hok }
  · have hsum := State.inCores_setCore (s := s) hk { s.core k with
      executing := none, cond := some (y, .fin) } x
    have hbusy : (s.core k).busy = [y] ++ (s.core k).data.toList := by
      rw [Core.busy, hexec]
      rfl
    have hold := h.busy x
    rw [hbusy, count_append] at hsum
    change _ = _ + (s.core k).data.toList.count x at hsum
    show s.written.count x = (s.finished ++ [y]).count x + (s.setCore k _).inCores c x
    rw [count_append]
    omega

end Books

end PtoRuntime.HostGraph
