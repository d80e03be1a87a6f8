import PtoRuntime.Hier.Account
import PtoRuntime.Hier.Ring

/-!
# Hierarchical runtime — drain

The orchestrator, the scheduler and the workers together with the allocator. A submission asks
`Ring::alloc` for its slot, which may refuse by an exception; `on_consumed` gives the slab back;
a worker that has finished its member of a group calls `worker_done`; and `drain` waits until
`active_tasks_` is zero and then lets the allocator drop all slots.

`worker_done` is taken apart into its accesses: whether the slot is a group, the `fetch_add` of
`sub_complete_count`, the group's size and the push. For the members that are not the last one,
`State.workerDone` is the `fetch_add`; for the last one it is the push.

The exceptions of `Ring::alloc` leave `submit_impl` after it has raised the counter, and nothing
lowers it again: `leaked` counts them.

Main results: `Sys.Ok.step`, `drain_accounts`, `failed_submit_blocks_drain`.
-/

namespace PtoRuntime.Hier

open Lib Function List Option

/-! ## The system -/

/-- Positions in `worker_done`. -/
inductive WorkerPc
  | isGroup (slot : Nat)
  | fetchAdd (slot : Nat)
  | groupSize (slot done : Nat)
  | push (slot : Nat)
  deriving DecidableEq, Repr

inductive DrainPc
  | idle | waiting | resetting
  deriving DecidableEq, Repr

structure Sys where
  base : State
  ring : Ring
  leaked : Nat
  workers : List WorkerPc
  drain : DrainPc

inductive SysAct
  -- calls of the orchestrator
  | submit (workerType : WorkerType) (argsList : List TaskArgs) (affinities : List Int)
  | alloc (bytes : Nat)
  | scopeBegin
  | scopeEnd
  | drain
  -- the allocator's answer to a submission, at once or after a wait in vain
  | reserve
  | timeout
  -- the orchestrator's next step
  | orch
  | observeZero
  | reset
  -- the scheduler
  | popCompletion
  | popReady (queue : WorkerType)
  | dispatch
  | noWorker
  | sched
  -- a worker has run its member of the slot; a step of `worker_done`
  | finish (slot : Nat)
  | worker (pc : WorkerPc)
  -- `Ring::shutdown`
  | close
  deriving Repr

/-- `Scope::current_depth`. -/
def State.currentDepth (s : State) : Int := ((s.scopes.length - 1 : Nat) : Int)

/-- `total_bytes` of `reserve_outputs_and_slot`. -/
def totalOutputBytes (argsList : List TaskArgs) : Nat :=
  argsList.flatten.foldl (fun total x =>
    if needsSlab x then (total + alignUp64 x.1.nbytes heapAlign) % 2 ^ 64 else total) 0

namespace WorkerPc

def slot : WorkerPc → Nat
  | .isGroup slot | .fetchAdd slot | .groupSize slot _ | .push slot => slot

/-- The member still counts as running: its `workerDone` is ahead. -/
def holds (s : State) (p : Nat) : WorkerPc → Bool
  | .isGroup slot | .fetchAdd slot | .push slot => slot = p
  | .groupSize slot done => slot = p ∧ s.groupSize slot ≤ done

/-- A step of the thread is ahead that reads or writes a `TaskSlotState`. -/
def accessAhead : WorkerPc → Bool
  | .isGroup _ | .fetchAdd _ | .groupSize .. => true
  | .push _ => false

end WorkerPc

/-- A step of the scheduler's job is ahead that reads or writes a `TaskSlotState`. -/
def SchedPc.accessAhead : SchedPc → Bool
  | .idle | .deferred _ [] | .consumeProducer _ _ .decActive [] => false
  | _ => true

/-- What is left of a job without accesses is its return. -/
def SchedPc.afterReset : SchedPc → SchedPc
  | .deferred _ [] => .idle
  | pc => pc

/-- `reset_to_empty` drops the slots; queues, scopes, the map and the threads are not touched. -/
def State.dropSlots (s : State) : State :=
  { State.init with
    tensormap := s.tensormap
    scopes := s.scopes
    activeTasks := s.activeTasks
    readyQueue := s.readyQueue
    completionQueue := s.completionQueue
    executing := s.executing
    orch := s.orch
    sched := s.sched.afterReset }

namespace Sys

def init : Sys := ⟨.init, .init, 0, [], .idle⟩

/-- `active_tasks_`. -/
def activeTasks (s : Sys) : Int := s.base.activeTasks + s.leaked

/-- A step of the threads that does not concern the allocator. -/
def lift (s : Sys) (a : Act) : Option Sys :=
  (Hier.step s.base a).map fun b => { s with base := b }

/-- `allocator_->release`, where the thread is about to call it. -/
def released (s : Sys) : Option (Nat × ConsumePc) → Ring
  | some (p, .releaseSlab) => s.ring.release p
  | _ => s.ring

/-- The exception leaves the counter raised. -/
def throw (s : Sys) : Option Sys :=
  (Hier.step s.base .shutdown).map fun b => { s with base := b, leaked := s.leaked + 1 }

/-- The call of `Ring::alloc` in a submission. -/
def reply (c : HeapConfig) (s : Sys) : Option (AllocReply × Ring) :=
  match s.base.orch with
  | .reserve _ argsList _ =>
    some (s.ring.alloc c (totalOutputBytes argsList) s.base.currentDepth)
  | _ => none

/-- Members of the slot whose thread is in `worker_done`. -/
def holding (s : Sys) (p : Nat) : Nat := s.workers.countP (WorkerPc.holds s.base p)

def workerStep (s : Sys) (pc : WorkerPc) : Option Sys :=
  match pc with
  | .isGroup slot =>
    some { s with
      workers := s.workers.erase pc ++
        [if s.base.groupSize slot = 1 then .push slot else .fetchAdd slot] }
  | .fetchAdd slot =>
    let done := s.base.subCompleteCount slot + 1
    let workers := s.workers.erase pc ++ [.groupSize slot done]
    -- the last member reports later
    if done < s.base.groupSize slot then
      (Hier.step s.base (.workerDone slot)).map fun b => { s with base := b, workers := workers }
    else some { s with workers := workers }
  | .groupSize slot done =>
    some { s with
      workers := s.workers.erase pc ++ if done < s.base.groupSize slot then [] else [.push slot] }
  | .push slot =>
    (Hier.step s.base (.workerDone slot)).map fun b =>
      { s with base := b, workers := s.workers.erase pc }

def step (c : HeapConfig) (s : Sys) : SysAct → Option Sys
  | .submit wt argsList affinities =>
    if s.drain = .idle then s.lift (.submit wt argsList affinities) else none
  | .scopeBegin => if s.drain = .idle then s.lift .scopeBegin else none
  | .scopeEnd => if s.drain = .idle then s.lift .scopeEnd else none
  | .alloc bytes =>
    if s.drain = .idle ∧ s.base.orch = .idle then
      match s.ring.alloc c (alignUp64 bytes heapAlign) s.base.currentDepth with
      | (.slot _ heapPtr _ _, ring) =>
        (Hier.step s.base (.alloc heapPtr)).map fun b => { s with base := b, ring := ring }
      -- it throws, and has changed nothing
      | _ => some s
    else none
  | .reserve =>
    match s.reply c with
    | some (.slot _ heapPtr _ _, ring) =>
      (Hier.step s.base (.reserve heapPtr)).map fun b => { s with base := b, ring := ring }
    | some (.shutdown, _) => s.lift .shutdown
    | some (.throw _, _) => s.throw
    | some (.wait, _) | none => none
  | .timeout =>
    match s.reply c with
    | some (.wait, _) => s.throw
    | _ => none
  | .orch =>
    (Hier.step s.base .orch).map fun b =>
      { s with base := b, ring := s.released s.base.orch.consume? }
  | .sched =>
    (Hier.step s.base .sched).map fun b =>
      { s with base := b, ring := s.released s.base.sched.consume? }
  | .drain =>
    if s.drain = .idle ∧ s.base.orch = .idle then some { s with drain := .waiting } else none
  | .observeZero =>
    if s.drain = .waiting ∧ s.activeTasks = 0 then some { s with drain := .resetting } else none
  | .reset =>
    if s.drain = .resetting then
      s.ring.resetToEmpty.map fun ring =>
        { s with base := s.base.dropSlots, ring := ring, drain := .idle }
    else none
  | .popCompletion => s.lift .popCompletion
  | .popReady queue => s.lift (.popReady queue)
  | .dispatch => s.lift .dispatch
  | .noWorker => s.lift .noWorker
  | .finish slot =>
    if s.holding slot < s.base.executing slot then
      some { s with workers := s.workers ++ [.isGroup slot] }
    else none
  | .worker pc => if pc ∈ s.workers then s.workerStep pc else none
  | .close => some { s with ring := { s.ring with shutdown := true } }

/-- No thread other than the orchestrator's has an access to a slot ahead. -/
def Quiet (s : Sys) : Prop :=
  s.base.sched.accessAhead = false ∧ ∀ w ∈ s.workers, w.accessAhead = false

instance (s : Sys) : Decidable s.Quiet := inferInstanceAs (Decidable (_ ∧ _))

end Sys

/-! ## The threads -/

/-- Steps that neither take nor give back a slot. -/
def Act.plain : Act → Bool
  | .alloc _ | .reserve _ | .orch | .sched => false
  | _ => true

variable {s s' b : State} {a : Act} {bytes : Nat}

/-- Other steps take and release no slab. -/
theorem plain_frame (ha : a.plain = true) (h : step s a = some s') :
    s'.nextTaskId = s.nextTaskId ∧ s'.slabReleased = s.slabReleased := by
  cases a with
  | alloc | reserve | orch | sched => cases ha
  | _ =>
    simp only [step] at h
    split at h <;> cases h
    exact ⟨rfl, rfl⟩

/-- Steps of the other threads leave the orchestrator where it is. -/
def Act.foreign : Act → Bool
  | .popCompletion | .popReady _ | .dispatch | .noWorker | .workerDone _ => true
  | _ => false

/-- Steps of other threads leave the orchestrator. -/
theorem foreign_frame (ha : a.foreign = true) (h : step s a = some s') :
    s'.orch = s.orch ∧ s'.activeTasks = s.activeTasks ∧ a.plain = true := by
  cases a with
  | popCompletion | popReady | dispatch | noWorker | workerDone =>
    simp only [step] at h
    split at h <;> cases h
    exact ⟨rfl, rfl, rfl⟩
  | _ => cases ha

/-- Which slab a step of the orchestrator gives back. -/
theorem orch_frame (hs : s.OrchMove s') :
    s'.nextTaskId = s.nextTaskId ∧ s'.slabReleased = match s.orch.consume? with
      | some (p, .releaseSlab) => update s.slabReleased p true
      | _ => s.slabReleased := by
  cases hs with
  | attach hpc =>
    rw [hpc]
    unfold State.attachProducer
    split <;> exact ⟨rfl, rfl⟩
  | @submit slot n pc hpc =>
    rw [hpc]
    cases pc <;> exact ⟨rfl, rfl⟩
  | @alloc slot pc hpc =>
    rw [hpc]
    cases pc <;> exact ⟨rfl, rfl⟩
  | @release slot pc tasks hpc =>
    rw [hpc]
    cases pc <;> exact ⟨rfl, rfl⟩
  | _ hpc =>
    rw [hpc]
    exact ⟨rfl, rfl⟩

/-- The scheduler releases slabs. -/
theorem sched_frame (hs : s.SchedMove s') :
    s'.orch = s.orch ∧ s'.nextTaskId = s.nextTaskId ∧
      s'.slabReleased = (match s.sched.consume? with
        | some (p, .releaseSlab) => update s.slabReleased p true
        | _ => s.slabReleased) ∧
      (s.sched.won = 0 → s'.activeTasks = s.activeTasks) := by
  cases hs with
  | @consumeSelf slot pc hpc | @consumeProducer slot prod pc producers hpc =>
    rw [hpc]
    refine ⟨rfl, rfl, by cases pc <;> rfl, fun hw => ?_⟩
    cases pc with
    | decActive => cases hw
    | _ => rfl
  | _ hpc =>
    rw [hpc]
    exact ⟨rfl, rfl, rfl, fun _ => rfl⟩

theorem reach_scopes {n : Nat} (hn : n ≤ maxScopeDepth) :
    Reach step free State.init { State.init with scopes := replicate n [] } := by
  induction n with
  | zero => exact .init
  | succ n ih =>
    refine .step (a := .scopeBegin) (ih (by omega)) trivial ?_
    have hlen : (replicate n ([] : List Nat)).length < maxScopeDepth := by
      rw [length_replicate]
      omega
    exact if_pos ⟨rfl, hlen⟩

/-- **A new start.** Where nothing is left and no thread has an access ahead, the threads are
those of a new run, inside the scopes that are open. -/
theorem dropSlots_eq (h : NothingLeft s) (hOrch : s.orch = .idle) (hZero : s.activeTasks = 0)
    (hQuiet : s.sched.accessAhead = false) :
    s.dropSlots = { State.init with scopes := replicate s.scopes.length [] } := by
  have hSched : s.sched.afterReset = .idle := by
    have hwon := h.won
    cases hpc : s.sched with
    | idle => rfl
    | deferred slot producers =>
      cases producers with
      | nil => rfl
      | cons p ps => rw [hpc] at hQuiet; cases hQuiet
    | consumeProducer slot prod pc producers =>
      rw [hpc] at hQuiet hwon
      cases pc with
      | decActive => cases hwon
      | _ => cases hQuiet
    | _ => rw [hpc] at hQuiet; cases hQuiet
  unfold State.dropSlots
  rw [h.map, hZero, funext h.ready, h.completion, funext h.executing, hOrch, hSched, ← h.frames]
  rfl

/-! ## The allocator -/

/-- The allocator knows the slots of the threads and which of them were given back. -/
structure Linked (c : HeapConfig) (s : State) (ring : Ring) : Prop where
  inv : ring.Inv c
  length : ring.slotStates.length = s.nextTaskId
  released : ∀ (i : Nat) (p : SlotPlace), ring.slotStates[i]? = some p →
    (ring.Released p ↔ s.slabReleased i = true)

namespace Linked

variable {c : HeapConfig} {s s' : State} {ring ring' : Ring}

theorem init : Linked c State.init .init := ⟨.init, rfl, nofun⟩

theorem congr (h : Linked c s ring) (hNext : s'.nextTaskId = s.nextTaskId)
    (hSlab : s'.slabReleased = s.slabReleased) : Linked c s' ring where
  inv := h.inv
  length := by rw [hNext]; exact h.length
  released := by rw [hSlab]; exact h.released

/-- Both sides get a new slot. -/
theorem take {r off top aligned : Nat} (h : Linked c s ring)
    (hinv : (ring.take r off top aligned bytes).Inv c) (hNext : s'.nextTaskId = s.nextTaskId + 1)
    (hSlab : s'.slabReleased = s.slabReleased) (hfresh : s.slabReleased s.nextTaskId = false) :
    Linked c s' (ring.take r off top aligned bytes) where
  inv := hinv
  length := by
    show (ring.slotStates ++ [_]).length = _
    rw [length_append, h.length, hNext]
    rfl
  released i p hp := by
    replace hp : (ring.slotStates ++ [_])[i]? = some p := hp
    rw [hSlab]
    rcases getElem?_concat_cases hp with hold | ⟨rfl, rfl⟩
    · rw [h.inv.released_take_iff hold]
      exact h.released i p hold
    · rw [h.length]
      exact iff_of_false (Ring.not_released_take ring r off top aligned bytes)
        (by rw [hfresh]; nofun)

/-- `Ring::alloc` hands out the next slot. -/
theorem alloc {n heapPtr e r : Nat} {d : Int} (h : Linked c s ring)
    (halloc : ring.alloc c bytes d = (.slot n heapPtr e r, ring'))
    (hNext : s'.nextTaskId = s.nextTaskId + 1) (hSlab : s'.slabReleased = s.slabReleased)
    (hfresh : s.slabReleased s.nextTaskId = false) : Linked c s' ring' := by
  have hcases := Ring.alloc_cases c ring bytes d
  have hinv := h.inv.alloc bytes d
  rw [halloc] at hcases hinv
  cases hcases with
  | refused hno => exact absurd rfl (hno _ _ _ _)
  | empty => exact h.take hinv hNext hSlab hfresh
  | bumped => exact h.take hinv hNext hSlab hfresh

/-- Both sides release a slot. -/
theorem release (h : Linked c s ring) (p : Nat) (hNext : s'.nextTaskId = s.nextTaskId)
    (hSlab : s'.slabReleased = update s.slabReleased p true) :
    Linked c s' (ring.release p) where
  inv := h.inv.release p
  length := by rw [Ring.release_slotStates, hNext]; exact h.length
  released i q hq := by
    rw [Ring.release_slotStates] at hq
    rw [h.inv.released_release_iff p hq, h.released i q hq, hSlab, update_apply]
    split
    · rename_i hi
      exact iff_of_true (.inr hi) rfl
    · rename_i hi
      exact ⟨fun ho => ho.resolve_right hi, .inl⟩

/-- Where all slabs were given back, `reset_to_empty` does not throw. -/
theorem drained (h : Linked c s ring) (hall : ∀ p < s.nextTaskId, s.slabReleased p = true) :
    ring.Drained := by
  intro r _
  obtain ⟨hok, hadv⟩ := h.inv.ring r
  refine (hok.drained hadv fun b hb => ?_).1
  obtain ⟨k, hk⟩ := mem_iff_getElem?.mp hb
  have hlt := (List.getElem?_eq_some_iff.mp hk).1
  rw [hok.released_length] at hlt
  obtain ⟨i, p, hp, rfl, rfl⟩ := h.inv.placed r k hlt
  have hi := (List.getElem?_eq_some_iff.mp hp).1
  rw [h.length] at hi
  have hrel : (ring.rings p.ringIdx).released[p.ringSlotIdx]? = some true :=
    (h.released i p hp).mpr (hall i hi)
  rw [hk, some.injEq] at hrel
  exact hrel

end Linked

/-! ## Runs -/

namespace Sys

variable {c : HeapConfig} {s s' : Sys}

structure Ok (c : HeapConfig) (s : Sys) : Prop where
  base : Reach Hier.step free State.init s.base
  linked : Linked c s.base s.ring
  calls : s.drain ≠ .idle → s.base.orch = .idle
  zero : s.drain = .resetting → s.activeTasks = 0

theorem Ok.init : Ok c Sys.init := ⟨.init, .init, fun h => absurd rfl h, fun h => by cases h⟩

/-- A counter of zero is one of the threads. -/
theorem Ok.base_zero (h : Ok c s) (hZero : s.activeTasks = 0) :
    s.base.activeTasks = 0 ∧ s.leaked = 0 := by
  have := active_nonneg h.base
  unfold Sys.activeTasks at hZero
  omega

/-- Where the counter is zero and the orchestrator waits, nothing is left. -/
theorem Ok.nothingLeft (h : Ok c s) (hd : s.drain ≠ .idle) (hZero : s.activeTasks = 0) :
    NothingLeft s.base :=
  nothing_left h.base (h.calls hd) (h.base_zero hZero).1

/-- A slab that was not handed out was not given back. -/
theorem Ok.fresh (h : Ok c s) : s.base.slabReleased s.base.nextTaskId = false := by
  rw [Bool.eq_false_iff]
  intro hrel
  have hL := Life.reach h.base
  exact hL.not_consumed (hL.fresh _ le_rfl) (by simp) ((Won.reach h.base).released _ hrel)

/-- A call of the orchestrator, or a step in one, outside of `drain`. -/
theorem Ok.call (h : Ok c s) {ring : Ring} {leaked : Nat} (hb : Hier.step s.base a = some b)
    (hlink : Linked c b ring) (hd : s.drain = .idle) :
    Ok c { s with base := b, ring := ring, leaked := leaked } where
  base := .step h.base trivial hb
  linked := hlink
  calls hne := absurd hd hne
  zero hr := by
    replace hr : s.drain = .resetting := hr
    rw [hd] at hr
    cases hr

theorem Ok.plain (h : Ok c s) (hb : Hier.step s.base a = some b) (ha : a.plain = true) :
    Linked c b s.ring :=
  h.linked.congr (plain_frame ha hb).1 (plain_frame ha hb).2

/-- A step of another thread. -/
theorem Ok.foreign (h : Ok c s) {workers : List WorkerPc} (hb : Hier.step s.base a = some b)
    (ha : a.foreign = true) :
    Ok c { s with base := b, workers := workers } := by
  obtain ⟨hOrch, hActive, hPlain⟩ := foreign_frame ha hb
  refine ⟨.step h.base trivial hb, h.plain hb hPlain, fun hne => ?_, fun hr => ?_⟩
  · rw [hOrch]
    exact h.calls hne
  · show b.activeTasks + s.leaked = 0
    rw [hActive]
    exact h.zero hr

theorem Ok.released (h : Ok c s) (x : Option (Nat × ConsumePc))
    (hNext : b.nextTaskId = s.base.nextTaskId) (hSlab : b.slabReleased = match x with
      | some (p, .releaseSlab) => update s.base.slabReleased p true
      | _ => s.base.slabReleased) : Linked c b (s.released x) := by
  unfold Sys.released
  split
  · exact h.linked.release _ hNext hSlab
  · rename_i hne
    refine h.linked.congr hNext (hSlab.trans ?_)
    split
    · exact absurd rfl (hne _)
    · rfl

/-- A submission under way is not in `drain`. -/
theorem Ok.drain_of_reply (h : Ok c s) {x : AllocReply × Ring} (hx : s.reply c = some x) :
    s.drain = .idle := by
  by_contra hne
  unfold Sys.reply at hx
  rw [h.calls hne] at hx
  cases hx

theorem Ok.throw (h : Ok c s) (hd : s.drain = .idle) (hst : s.throw = some s') : Ok c s' := by
  obtain ⟨b, hb, rfl⟩ := map_eq_some_iff.mp hst
  exact h.call hb (h.plain hb rfl) hd

/-- A submission takes its slab. -/
theorem Ok.reserve (h : Ok c s) (hst : s.step c .reserve = some s') : Ok c s' := by
  simp only [Sys.step] at hst
  split at hst
  · rename_i n heapPtr e r ring hx
    obtain ⟨b, hb, rfl⟩ := map_eq_some_iff.mp hst
    have hd := h.drain_of_reply hx
    unfold Sys.reply at hx
    simp only [Hier.step] at hb
    split at hb
    · rename_i wt argsList affinities hpc
      rw [hpc] at hx
      have hb' : Hier.step s.base (.reserve heapPtr) = some b := by
        simp only [Hier.step, hpc]
        exact hb
      refine h.call hb' ?_ hd
      cases hb
      exact h.linked.alloc (some.inj hx) rfl rfl h.fresh
    · cases hb
  · rename_i hx
    obtain ⟨b, hb, rfl⟩ := map_eq_some_iff.mp hst
    exact h.call hb (h.plain hb rfl) (h.drain_of_reply hx)
  · rename_i hx
    exact h.throw (h.drain_of_reply hx) hst
  · cases hst
  · cases hst

/-- `alloc` takes its slab. -/
theorem Ok.alloc (h : Ok c s) (hst : s.step c (.alloc bytes) = some s') : Ok c s' := by
  simp only [Sys.step] at hst
  obtain ⟨⟨hd, hpc⟩, hst⟩ := ite_none_right_eq_some.mp hst
  split at hst
  · rename_i n heapPtr e r ring hx
    obtain ⟨b, hb, rfl⟩ := map_eq_some_iff.mp hst
    refine h.call hb ?_ hd
    obtain ⟨-, heq⟩ := ite_none_right_eq_some.mp hb
    cases heq
    exact h.linked.alloc hx rfl rfl h.fresh
  · cases hst
    exact h

/-- **The new run.** -/
theorem Ok.reset (h : Ok c s) (hQuiet : s.Quiet) (hst : s.step c .reset = some s') : Ok c s' := by
  simp only [Sys.step] at hst
  obtain ⟨hd, hst⟩ := ite_none_right_eq_some.mp hst
  obtain ⟨ring, hring, rfl⟩ := map_eq_some_iff.mp hst
  have hne : s.drain ≠ .idle := by rw [hd]; nofun
  have hnext := dropSlots_eq (h.nothingLeft hne (h.zero hd)) (h.calls hne)
    (h.base_zero (h.zero hd)).1 hQuiet.1
  have hinv := h.linked.inv.step (a := .reset) hring
  obtain ⟨-, heq⟩ := ite_none_right_eq_some.mp hring
  cases heq
  refine ⟨?_, ⟨hinv, rfl, nofun⟩, fun hne => absurd rfl hne, fun hr => by cases hr⟩
  show Reach Hier.step free State.init s.base.dropSlots
  rw [hnext]
  exact reach_scopes (DepthOk.reach h.base)

/-- A step of the scheduler. -/
theorem Ok.sched (h : Ok c s) (hst : s.step c .sched = some s') : Ok c s' := by
  obtain ⟨b, hb, rfl⟩ := map_eq_some_iff.mp hst
  obtain ⟨hOrch, hNext, hSlab, hActive⟩ := sched_frame (State.schedStep_cases hb)
  refine ⟨.step h.base trivial hb, h.released _ hNext hSlab, fun hne => ?_, fun hr => ?_⟩
  · rw [hOrch]
    exact h.calls hne
  · -- nothing is left to lower the counter for
    replace hr : s.drain = .resetting := hr
    have hwon := (h.nothingLeft (by rw [hr]; nofun) (h.zero hr)).won
    show b.activeTasks + s.leaked = 0
    rw [hActive hwon]
    exact h.zero hr

/-- A step of the orchestrator. -/
theorem Ok.orch (h : Ok c s) (hst : s.step c .orch = some s') : Ok c s' := by
  obtain ⟨b, hb, rfl⟩ := map_eq_some_iff.mp hst
  obtain ⟨hNext, hSlab⟩ := orch_frame (State.orchStep_cases hb)
  have hd : s.drain = .idle := by
    by_contra hne
    simp [Hier.step, State.orchStep, h.calls hne] at hb
  exact h.call hb (h.released _ hNext hSlab) hd

/-- A step of a worker. -/
theorem Ok.worker {pc : WorkerPc} (h : Ok c s) (hst : s.workerStep pc = some s') : Ok c s' := by
  cases pc with
  | isGroup | groupSize =>
    cases hst
    exact ⟨h.base, h.linked, h.calls, h.zero⟩
  | push =>
    obtain ⟨b, hb, rfl⟩ := map_eq_some_iff.mp hst
    exact h.foreign hb rfl
  | fetchAdd =>
    simp only [Sys.workerStep] at hst
    split at hst
    · obtain ⟨b, hb, rfl⟩ := map_eq_some_iff.mp hst
      exact h.foreign hb rfl
    · cases hst
      exact ⟨h.base, h.linked, h.calls, h.zero⟩

/-- **The system runs the threads of `Model`**, run after run, as long as nobody has an access
ahead when the slots are dropped. -/
theorem Ok.step {a : SysAct} (h : Ok c s) (hQuiet : a = .reset → s.Quiet)
    (hst : s.step c a = some s') : Ok c s' := by
  cases a with
  | submit | scopeBegin | scopeEnd =>
    obtain ⟨hd, hst⟩ := ite_none_right_eq_some.mp hst
    obtain ⟨b, hb, rfl⟩ := map_eq_some_iff.mp hst
    exact h.call hb (h.plain hb rfl) hd
  | alloc => exact h.alloc hst
  | reserve => exact h.reserve hst
  | timeout =>
    simp only [Sys.step] at hst
    split at hst
    · rename_i hx
      exact h.throw (h.drain_of_reply hx) hst
    · cases hst
  | orch => exact h.orch hst
  | sched => exact h.sched hst
  | reset => exact h.reset (hQuiet rfl) hst
  | drain =>
    obtain ⟨⟨-, hpc⟩, heq⟩ := ite_none_right_eq_some.mp hst
    cases heq
    exact ⟨h.base, h.linked, fun _ => hpc, fun hr => by cases hr⟩
  | observeZero =>
    obtain ⟨⟨hd, hZero⟩, heq⟩ := ite_none_right_eq_some.mp hst
    cases heq
    exact ⟨h.base, h.linked, fun _ => h.calls (by rw [hd]; nofun), fun _ => hZero⟩
  | popCompletion | popReady | dispatch | noWorker =>
    obtain ⟨b, hb, rfl⟩ := map_eq_some_iff.mp hst
    exact h.foreign hb rfl
  | finish =>
    obtain ⟨-, heq⟩ := ite_none_right_eq_some.mp hst
    cases heq
    exact ⟨h.base, h.linked, h.calls, h.zero⟩
  | worker pc =>
    obtain ⟨-, hst⟩ := ite_none_right_eq_some.mp hst
    exact h.worker hst
  | close =>
    cases hst
    exact ⟨h.base, ⟨h.linked.inv.step (a := .shutdown) rfl, h.linked.length, h.linked.released⟩,
      h.calls, h.zero⟩

/-! ## Accounting -/

def throws : AllocReply → Bool
  | .throw _ => true
  | _ => false

/-- `Ring::alloc` does not throw in a submission, and no thread has an access ahead when the slots
are dropped. -/
def NoThrow (c : HeapConfig) (s : Sys) : SysAct → Prop
  | .reserve => ∀ x ∈ s.reply c, throws x.1 = false
  | .timeout => False
  | .reset => s.Quiet
  | _ => True

instance (c : HeapConfig) : DecidableRel (NoThrow c) := fun s a =>
  match a with
  | .reserve => inferInstanceAs (Decidable (∀ x ∈ s.reply c, throws x.1 = false))
  | .timeout => inferInstanceAs (Decidable False)
  | .reset => inferInstanceAs (Decidable s.Quiet)
  | .submit .. | .alloc _ | .scopeBegin | .scopeEnd | .drain | .orch | .observeZero
  | .popCompletion | .popReady _ | .dispatch | .noWorker | .sched | .finish _ |
      .worker _ | .close =>
    inferInstanceAs (Decidable True)

/-- Both levels agree in every run. -/
theorem Ok.reach (h : Reach (Sys.step c) (NoThrow c) Sys.init s) : Ok c s := by
  refine h.invariant .init fun s a s' _ hok hg hst => hok.step (fun ha => ?_) hst
  subst ha
  exact hg

/-- No increment is left behind. -/
def NoLeak (s : Sys) : Prop := s.leaked = 0

/-- No slot is lost without an exception. -/
theorem NoLeak.step {a : SysAct} (h : s.NoLeak) (hg : NoThrow c s a) (hst : s.step c a = some s') :
    s'.NoLeak := by
  -- `leaked` is written by `throw` only, and the guard rules it out
  cases a with
  | reserve =>
    simp only [Sys.step] at hst
    split at hst
    · obtain ⟨b, -, rfl⟩ := map_eq_some_iff.mp hst
      exact h
    · obtain ⟨b, -, rfl⟩ := map_eq_some_iff.mp hst
      exact h
    · rename_i hx
      cases hg _ hx
    · cases hst
    · cases hst
  | timeout => cases hg
  | alloc =>
    simp only [Sys.step] at hst
    obtain ⟨-, hst⟩ := ite_none_right_eq_some.mp hst
    split at hst
    · obtain ⟨b, -, rfl⟩ := map_eq_some_iff.mp hst
      exact h
    · cases hst
      exact h
  | worker pc =>
    obtain ⟨-, hst⟩ := ite_none_right_eq_some.mp hst
    cases pc with
    | isGroup | groupSize =>
      cases hst
      exact h
    | push =>
      obtain ⟨b, -, rfl⟩ := map_eq_some_iff.mp hst
      exact h
    | fetchAdd =>
      simp only [Sys.workerStep] at hst
      split at hst
      · obtain ⟨b, -, rfl⟩ := map_eq_some_iff.mp hst
        exact h
      · cases hst
        exact h
  | drain | observeZero | finish =>
    obtain ⟨-, heq⟩ := ite_none_right_eq_some.mp hst
    cases heq
    exact h
  | submit | scopeBegin | scopeEnd | reset =>
    obtain ⟨-, hst⟩ := ite_none_right_eq_some.mp hst
    obtain ⟨b, -, rfl⟩ := map_eq_some_iff.mp hst
    exact h
  | close =>
    cases hst
    exact h
  | _ =>
    obtain ⟨b, -, rfl⟩ := map_eq_some_iff.mp hst
    exact h

/-- No slot is lost in runs without exceptions. -/
theorem NoLeak.reach (h : Reach (Sys.step c) (NoThrow c) Sys.init s) : s.NoLeak :=
  h.invariant (show NoLeak Sys.init from rfl) fun _ _ _ _ ih hg hst => ih.step hg hst

/--
**Drain accounting.** In every run in which no submission ends in an exception of `Ring::alloc`,
over any number of drains: where no call of the orchestrator is in progress, on either thread,
`active_tasks_` is the number of slots that the allocator has handed out and that are not CONSUMED;
the condition `drain` waits for holds exactly if all slots are CONSUMED and no `on_consumed` is
under way; and when `drain` has seen it, `reset_to_empty` does not throw.
-/
theorem drain_accounts (h : Reach (Sys.step c) (NoThrow c) Sys.init s) :
    (s.base.orch = .idle → s.base.sched.won = 0 → s.activeTasks =
      ((Finset.range s.ring.slotStates.length).filter fun p => s.base.state p ≠ .consumed).card) ∧
    (s.drain = .waiting → (s.activeTasks = 0 ↔
      (∀ p < s.ring.slotStates.length, s.base.state p = .consumed) ∧ s.base.sched.won = 0)) ∧
    (s.drain = .resetting → s.ring.resetToEmpty ≠ none) := by
  have hok := Ok.reach h
  have hleak : s.leaked = 0 := NoLeak.reach h
  have hactive : s.activeTasks = s.base.activeTasks := by
    unfold Sys.activeTasks
    omega
  have hacc := Account.reach hok.base
  rw [hok.linked.length, hactive]
  refine ⟨fun hOrch hwon => ?_, fun hd => ?_, fun hd hthrow => ?_⟩
  · unfold Account at hacc
    rw [hOrch, hwon] at hacc
    simp only [OrchPc.allocating, OrchPc.won, OrchPc.reserving] at hacc
    show _ = ((unconsumed s.base).card : Int)
    omega
  · exact hacc.zero_iff (hok.calls (by rw [hd]; simp))
  · have hleft := hok.nothingLeft (by rw [hd]; simp) (hok.zero hd)
    unfold Ring.resetToEmpty at hthrow
    rw [if_pos (hok.linked.drained hleft.slabs)] at hthrow
    cases hthrow

end Sys

/-- Slot 0 is submitted in a scope with an output of 2000 bytes, runs and completes; the end of
the scope consumes it, and `drain` finds the counter at zero. -/
def drainAfterScope : List SysAct :=
  [SysAct.scopeBegin, .submit .sub [[(⟨0, 2000, false⟩, .output)]] [], .reserve] ++
    replicate 10 SysAct.orch ++ [SysAct.popReady .sub, .dispatch, .finish 0, .worker (.isGroup 0),
      .worker (.push 0), .popCompletion] ++ replicate 7 SysAct.sched ++
    [SysAct.scopeEnd] ++ replicate 9 SysAct.orch ++ [SysAct.drain, .observeZero]

/-- A drain after the only scope. -/
theorem drain_accounts_drainAfterScope :
    ∃ s, Reach (Sys.step smallHeaps) (Sys.NoThrow smallHeaps) Sys.init s ∧
      s.drain = .resetting ∧ s.ring.slotStates = [⟨0, 0, 2048⟩] ∧ s.ring.resetToEmpty ≠ none := by
  refine Reach.exists_of_run_imp (P := fun s => s.drain = .resetting ∧
      s.ring.slotStates = [⟨0, 0, 2048⟩]) drainAfterScope (by decide +kernel)
    fun s hs ⟨hd, hslots⟩ => ?_
  exact ⟨hd, hslots, (Sys.drain_accounts hs).2.2 hd⟩

/-- **A failed submission blocks `drain`.** An output that is larger than the heap: `Ring::alloc`
throws after the counter was raised. No slot exists, no thread is in a call, and `drain` waits
with the counter at one. -/
theorem failed_submit_blocks_drain :
    ∃ s, Reach (Sys.step smallHeaps) free Sys.init s ∧ s.drain = .waiting ∧ s.base.orch = .idle ∧
      s.base.sched = .idle ∧ s.workers = [] ∧ s.ring.slotStates = [] ∧ s.activeTasks = 1 :=
  Reach.exists_of_run
    [.scopeBegin, .submit .sub [[(⟨0, 8192, false⟩, .output)]] [], .reserve, .scopeEnd,
      .orch, .drain]
    (by decide +kernel)

end PtoRuntime.Hier
