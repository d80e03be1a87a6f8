import PtoRuntime.Tmrb.Drain

/-!
# The drain of sync_start tasks and the hand-over of cores

With `orch_to_sched` the orchestrator's thread becomes a scheduler thread when it has submitted the
last task. Before that the cores are distributed anew: `on_orchestration_done` sets
`transition_requested_` and waits until all scheduler threads have counted themselves in
`wait_reassign_`; they do so in `handle_core_transition`, at the top of their loop, and then wait
for `reassigned_`.

The drain (`Drain`) is a second barrier over the same threads, further down in the same loop. A
thread that waits in one of the two cannot come to the other, and the ack barrier of the drain does
not look at `completed_` either.

`active_sched_threads_` is written while all scheduler threads wait for `reassigned_`, so no thread
is inside the drain with an older value of it.

Main results: `no_circular_wait`, `drain_and_hand_over_deadlock`.
-/

namespace PtoRuntime.Tmrb

open Lib Function Option List

/-- The thread spins until all have set their ack bits. -/
def DrainPc.Waiting {τ : Type} : DrainPc τ → Prop
  | .wait _ => True
  | _ => False

instance {τ : Type} (pc : DrainPc τ) : Decidable pc.Waiting :=
  match pc with
  | .wait _ => .isTrue trivial
  | .loop | .enterTask _ | .enterAck _ | .enterElected _ | .enterPending _ | .spin | .ack _
  | .elect _ | .check _ | .followPending | .followElected | .task _ | .count _ _ _ | .resetAck
  | .resetElected | .worker _ | .tracker _ _ _ | .block _ _ _ _ | .clearTask | .clearAck
  | .clearElected | .clearPending | .fault => .isFalse id

structure HandOverConfig (τ : Type) where
  schedThreadNum : Nat
  blockNum : τ → Nat
  blockNum_pos : ∀ x, 0 < blockNum x

/-- Where a scheduler thread is in the loop of `resolve_and_dispatch`. -/
inductive LoopPc
  | top
  /-- `handle_orchestrator_exit` -/
  | exitCheck
  -- `handle_core_transition`
  | request
  | look
  | join
  | spin
  | spinCompleted
  /-- phase 1 -/
  | work
  /-- phase 2 -/
  | drainCheck
  /-- inside `handle_drain_mode` -/
  | drain
  /-- the rest of the loop, with the calls of `enter_drain_mode` -/
  | dispatch
  | left
  deriving DecidableEq

/-- Where the orchestrator is. -/
inductive TransitionPc
  | building
  -- `on_orchestration_done`
  | completedCheck
  | abortRequest
  | abortReassigned
  | request
  | wait
  | waitCompleted
  | recheck
  | reassign
  | publish
  /-- past `on_orchestration_done`, before the loop -/
  | done
  /-- a scheduler thread, or gone -/
  | joined
  deriving DecidableEq

structure HandOver (τ : Type) where
  drain : Drain τ
  activeSchedThreads : Nat
  transitionRequested : Bool
  reassigned : Bool
  completed : Bool
  waitReassign : Nat
  loop : Nat → LoopPc
  coresReleased : Nat → Bool
  orch : TransitionPc

namespace HandOver

variable {τ : Type}

inductive Act (τ : Type)
  | thread (t : Nat)
  /-- `enter_drain_mode` -/
  | enter (t : Nat) (x : τ)
  /-- completions and dispatches of a thread -/
  | poll (t idle : Nat)
  | claim (t : Nat) (x : τ) (k : Nat)
  /-- the thread finds `completed_` set, all tasks done, or an error -/
  | complete (t : Nat)
  | orch
  /-- the orchestration ended with a fatal error -/
  | orchError

def init (c : HandOverConfig τ) (idle : Nat → Nat) : HandOver τ where
  drain := .init idle
  activeSchedThreads := if 0 < c.schedThreadNum then c.schedThreadNum else c.schedThreadNum + 1
  transitionRequested := false
  reassigned := false
  completed := false
  waitReassign := 0
  loop t := if t < c.schedThreadNum then .top else .left
  coresReleased _ := false
  orch := .building

def drainConfig (c : HandOverConfig τ) (s : HandOver τ) : DrainConfig τ where
  activeSchedThreads := s.activeSchedThreads
  blockNum := c.blockNum
  blockNum_pos := c.blockNum_pos

def setLoop (s : HandOver τ) (t : Nat) (pc : LoopPc) : HandOver τ :=
  { s with loop := update s.loop t pc }

def release (s : HandOver τ) (t : Nat) : HandOver τ :=
  { s.setLoop t .work with coresReleased := update s.coresReleased t true }

variable [DecidableEq τ] (c : HandOverConfig τ)

/-- A step of the drain. -/
def drainStep (s : HandOver τ) (a : Drain.Act τ) : Option (HandOver τ) :=
  (s.drain.step (s.drainConfig c) a).map fun drain => { s with drain := drain }

def stepThread (s : HandOver τ) (t : Nat) : Option (HandOver τ) :=
  match s.loop t with
  | .left => none
  | .top => some (s.setLoop t (if s.completed then .left else .exitCheck))
  | .exitCheck => some (s.setLoop t (if s.coresReleased t then .work else .request))
  | .request => some (s.setLoop t (if s.transitionRequested then .look else .work))
  | .look => some (if s.reassigned then s.release t else s.setLoop t .join)
  | .join => some { s.setLoop t .spin with waitReassign := s.waitReassign + 1 }
  | .spin => some (if s.reassigned then s.release t else s.setLoop t .spinCompleted)
  | .spinCompleted => some (s.setLoop t (if s.completed then .left else .spin))
  | .work => some (s.setLoop t .drainCheck)
  | .drainCheck =>
    if s.drain.syncStartPending = 0 then some (s.setLoop t .dispatch)
    else (s.setLoop t .drain).drainStep c (.handle t)
  | .drain | .dispatch =>
    if s.drain.thread t = .loop then some (s.setLoop t .top) else s.drainStep c (.go t)

def stepOrch (s : HandOver τ) : Option (HandOver τ) :=
  match s.orch with
  | .building => some { s with orch := .completedCheck }
  | .completedCheck => some { s with orch := if s.completed then .abortRequest else .request }
  | .abortRequest => some { s with orch := .abortReassigned, transitionRequested := true }
  | .abortReassigned => some { s with orch := .done, reassigned := true }
  | .request => some { s with orch := .wait, transitionRequested := true }
  | .wait =>
    some { s with orch := if s.waitReassign = c.schedThreadNum then .recheck else .waitCompleted }
  | .waitCompleted => some { s with orch := if s.completed then .recheck else .wait }
  | .recheck => some { s with orch := if s.completed then .done else .reassign }
  | .reassign => some { s with orch := .publish, activeSchedThreads := c.schedThreadNum + 1 }
  | .publish => some { s with orch := .done, reassigned := true }
  | .done =>
    some { s.setLoop c.schedThreadNum (if s.completed then .left else .top) with orch := .joined }
  | .joined => none

def step (s : HandOver τ) : Act τ → Option (HandOver τ)
  | .thread t => s.stepThread c t
  | .enter t x => if s.loop t = .dispatch then s.drainStep c (.enter t x) else none
  | .poll t idle =>
    if s.loop t = .work ∨ s.loop t = .dispatch then s.drainStep c (.poll t idle) else none
  | .claim t x k => if s.loop t = .dispatch then s.drainStep c (.claim x k) else none
  | .complete t =>
    if s.loop t = .exitCheck ∨ s.loop t = .work ∨ s.loop t = .dispatch ∧
      s.drain.thread t = .loop then
      some { s.setLoop t .left with completed := true }
    else none
  | .orch => s.stepOrch c
  | .orchError =>
    if s.orch = .building then some { s with orch := .completedCheck, completed := true } else none

/-! ## Waiting -/

/-- The thread spins in the ack barrier of the drain. -/
def AtBarrier (s : HandOver τ) (t : Nat) : Prop :=
  s.loop t = .drain ∧ (s.drain.thread t).Waiting

/-- The thread spins for `reassigned_`. -/
def AwaitsCores (s : HandOver τ) (t : Nat) : Prop :=
  s.loop t = .spin ∨ s.loop t = .spinCompleted

/-- The orchestrator spins for `wait_reassign_`. -/
def OrchWaits (s : HandOver τ) : Prop := s.orch = .wait ∨ s.orch = .waitCompleted

/-- What the threads wait for has not changed. -/
structure SameSignals (s s' : HandOver τ) : Prop where
  drainAckMask : s'.drain.drainAckMask = s.drain.drainAckMask
  reassigned : s'.reassigned = s.reassigned
  waitReassign : s'.waitReassign = s.waitReassign
  completed : s'.completed = s.completed

/-- Each of the three waits, and nobody will ever change what they wait for. -/
structure CircularWait (s : HandOver τ) : Prop where
  running : s.completed = false
  barrier : ∃ t, s.AtBarrier t
  cores : ∃ t, s.AwaitsCores t
  orch : s.OrchWaits
  stuck : ∀ s', Reach (step c) free s s' → s.SameSignals s'

/-- No drain is pending, and no thread is inside of one. -/
def NoDrain (s : HandOver τ) : Prop :=
  s.drain.syncStartPending = 0 ∧ ∀ t < c.schedThreadNum + 1, s.drain.thread t = .loop

instance (s : HandOver τ) : Decidable (s.NoDrain c) :=
  inferInstanceAs (Decidable (_ ∧ ∀ t < _, _))

/-- A thread begins to wait for its cores only without a drain, and a drain is begun only if no
thread waits for its cores. -/
def Apart (s : HandOver τ) : Act τ → Prop
  | .thread t => s.loop t = .join → s.NoDrain c
  | .enter _ _ => s.waitReassign = 0 ∨ s.reassigned = true
  | .poll _ _ | .claim _ _ _ | .complete _ | .orch | .orchError => True

instance : DecidableRel (Apart c) := fun s a =>
  match a with
  | .thread t => inferInstanceAs (Decidable (s.loop t = .join → s.NoDrain c))
  | .enter _ _ => inferInstanceAs (Decidable (s.waitReassign = 0 ∨ s.reassigned = true))
  | .poll _ _ | .claim _ _ _ | .complete _ | .orch | .orchError => inferInstanceAs (Decidable True)

end HandOver

/-! ## Threads and the orchestrator -/

namespace HandOver

variable {τ : Type} {c : HandOverConfig τ} {s s' : HandOver τ} {t : Nat}
variable {pc : LoopPc} {a : Act τ}

/-- Only scheduler threads are in the loop, and the orchestrator's after it has joined them. -/
def Seated (c : HandOverConfig τ) (s : HandOver τ) : Prop :=
  ∀ t, c.schedThreadNum ≤ t → s.loop t = .left ∨ t = c.schedThreadNum ∧ s.orch = .joined

theorem loop_setLoop_of_ne {t' : Nat} (h : t' ≠ t) (pc : LoopPc) :
    (s.setLoop t pc).loop t' = s.loop t' :=
  update_of_ne h ..

theorem Seated.init (c : HandOverConfig τ) (idle : Nat → Nat) : Seated c (init c idle) :=
  fun _ ht => .inl (if_neg (not_lt.mpr ht))

theorem Seated.update (h : Seated c s) (ht : s.loop t ≠ .left)
    (hloop : s'.loop = update s.loop t pc) (horch : s'.orch = s.orch) : Seated c s' := by
  rw [Seated, hloop, horch]
  exact (forall_update_iff s.loop fun t pc => c.schedThreadNum ≤ t →
    pc = .left ∨ t = c.schedThreadNum ∧ s.orch = .joined).mpr
      ⟨fun ht' => .inr ((h t ht').resolve_left ht), fun t' _ => h t'⟩

/-- Before the orchestrator has joined them, its seat is empty. -/
theorem Seated.left (h : Seated c s) (hj : s.orch ≠ .joined) (ht : c.schedThreadNum ≤ t) :
    s.loop t = .left :=
  (h t ht).resolve_right fun hs => hj hs.2

theorem Seated.setOrch (h : Seated c s) (hj : s.orch ≠ .joined) (pc : TransitionPc) :
    Seated c { s with orch := pc } :=
  fun _ ht => .inl (h.left hj ht)

theorem Seated.stepOrch (h : Seated c s) (hstep : s.stepOrch c = some s') : Seated c s' := by
  obtain ⟨pc, hpc⟩ : ∃ pc, s.orch = pc := ⟨_, rfl⟩
  have hj : pc ≠ .joined → s.orch ≠ .joined := fun hne => hpc ▸ hne
  rw [HandOver.stepOrch, hpc] at hstep
  cases pc with
  | joined => cases hstep
  | done =>
    cases hstep
    intro t ht
    by_cases heq : t = c.schedThreadNum
    · exact .inr ⟨heq, rfl⟩
    · exact .inl ((loop_setLoop_of_ne heq _).trans (h.left (hj nofun) ht))
  | _ =>
    cases hstep
    exact h.setOrch (hj nofun) _

structure Inv (c : HandOverConfig τ) (s : HandOver τ) : Prop where
  unassigned : s.orch ≠ .done → s.orch ≠ .joined → s.reassigned = false
  counted : ∀ t, s.AwaitsCores t → 0 < s.waitReassign
  apart : 0 < s.waitReassign → s.reassigned = false → s.NoDrain c

theorem Inv.init (c : HandOverConfig τ) (idle : Nat → Nat) : Inv c (init c idle) where
  unassigned _ _ := rfl
  counted t ht := by
    simp only [AwaitsCores, HandOver.init] at ht
    split at ht <;> simp at ht
  apart h := absurd h (lt_irrefl 0)

theorem Inv.setLoop (h : Inv c s) (hpc : pc = .spin ∨ pc = .spinCompleted → 0 < s.waitReassign) :
    Inv c (s.setLoop t pc) where
  unassigned := h.unassigned
  counted := (forall_update_iff s.loop fun _ pc =>
    pc = .spin ∨ pc = .spinCompleted → 0 < s.waitReassign).mpr ⟨hpc, fun t' _ => h.counted t'⟩
  apart := h.apart

theorem Inv.release (h : Inv c s) : Inv c (s.release t) :=
  { h.setLoop (by simp) with }

/-- The thread counts itself in `wait_reassign_`. -/
theorem Inv.join (h : Inv c s) (hdrain : s.NoDrain c) :
    Inv c { s.setLoop t .spin with waitReassign := s.waitReassign + 1 } where
  unassigned := h.unassigned
  counted _ _ := Nat.succ_pos _
  apart _ _ := hdrain

theorem Inv.setDrain (h : Inv c s) {d : Drain τ}
    (hd : s.NoDrain c → 0 < s.waitReassign → s.reassigned = false →
      NoDrain c { s with drain := d }) : Inv c { s with drain := d } :=
  { h with apart := fun hw hr => hd (h.apart hw hr) hw hr }

theorem Inv.setOrch (h : Inv c s) (hd : s.orch ≠ .done) (hj : s.orch ≠ .joined)
    (pc : TransitionPc) :
    Inv c { s with orch := pc } :=
  { h with unassigned := fun _ _ => h.unassigned hd hj }

/-- The orchestrator ends the hand-over. -/
theorem Inv.publish (h : Inv c s) : Inv c { s with orch := .done, reassigned := true } where
  unassigned hd := absurd rfl hd
  counted := h.counted
  apart _ hr := nomatch hr

/-- Without a drain every thread is in its loop. -/
theorem NoDrain.thread (h : s.NoDrain c) (hseated : Seated c s) (ht : s.loop t ≠ .left) :
    s.drain.thread t = .loop := by
  have hle : t < c.schedThreadNum + 1 := by
    by_contra hgt
    rcases hseated t (by omega) with hleft | ⟨heq, -⟩
    · exact ht hleft
    · omega
  exact h.2 t hle

/-- The orchestrator's thread sits down in the loop. -/
theorem Inv.sitDown (h : Inv c s) (hpc : ¬ (pc = .spin ∨ pc = .spinCompleted)) :
    Inv c { s.setLoop t pc with orch := .joined } :=
  { h.setLoop (t := t) fun hspin => absurd hspin hpc with unassigned := fun _ hj => absurd rfl hj }

/-- A step of the orchestrator thread. -/
theorem Inv.stepOrch (h : Inv c s) (hstep : s.stepOrch c = some s') : Inv c s' := by
  obtain ⟨pc, hpc⟩ : ∃ pc, s.orch = pc := ⟨_, rfl⟩
  have hne {pc' : TransitionPc} (hpc' : pc ≠ pc') : s.orch ≠ pc' := hpc ▸ hpc'
  rw [HandOver.stepOrch, hpc] at hstep
  cases pc with
  | abortRequest | request | reassign =>
    cases hstep
    exact { h with unassigned := fun _ _ => h.unassigned (hne nofun) (hne nofun) }
  | abortReassigned | publish =>
    cases hstep
    exact h.publish
  | done =>
    cases hstep
    exact h.sitDown (by split <;> simp)
  | joined => cases hstep
  | _ =>
    cases hstep
    exact h.setOrch (hne nofun) (hne nofun) _

section Steps

variable [DecidableEq τ]

/-- The drain's own step changes nothing else. -/
theorem exists_of_drainStep {a : Drain.Act τ} (h : s.drainStep c a = some s') :
    ∃ d, s.drain.step (s.drainConfig c) a = some d ∧ { s with drain := d } = s' :=
  map_eq_some_iff.mp h

/-- A thread moves itself only, and not the orchestrator. -/
theorem exists_loop_of_stepThread (hstep : s.stepThread c t = some s') :
    s.loop t ≠ .left ∧ s'.orch = s.orch ∧ ∃ pc, s'.loop = update s.loop t pc := by
  obtain ⟨pc, hpc⟩ : ∃ pc, s.loop t = pc := ⟨_, rfl⟩
  rw [HandOver.stepThread, hpc] at hstep
  rw [hpc]
  cases pc with
  | left => cases hstep
  | look | spin =>
    cases hstep
    split <;> exact ⟨nofun, rfl, _, rfl⟩
  | drainCheck =>
    dsimp only at hstep
    split at hstep
    · cases hstep
      exact ⟨nofun, rfl, _, rfl⟩
    · obtain ⟨d, -, rfl⟩ := exists_of_drainStep hstep
      exact ⟨nofun, rfl, _, rfl⟩
  | drain | dispatch =>
    dsimp only at hstep
    split at hstep
    · cases hstep
      exact ⟨nofun, rfl, _, rfl⟩
    · obtain ⟨d, -, rfl⟩ := exists_of_drainStep hstep
      exact ⟨nofun, rfl, s.loop t, (update_eq_self t s.loop).symm⟩
  | _ =>
    cases hstep
    exact ⟨nofun, rfl, _, rfl⟩

/-- One step. -/
theorem Seated.step (h : Seated c s) (hstep : s.step c a = some s') : Seated c s' := by
  cases a with
  | thread t =>
    obtain ⟨hleft, horch, pc, hloop⟩ := exists_loop_of_stepThread hstep
    exact h.update hleft hloop horch
  | orch => exact h.stepOrch hstep
  | enter t x | poll t idle | claim t x k =>
    obtain ⟨-, hstep⟩ := ite_none_right_eq_some.mp hstep
    obtain ⟨d, -, rfl⟩ := exists_of_drainStep hstep
    exact h
  | complete t =>
    obtain ⟨hpc, hstep⟩ := ite_none_right_eq_some.mp hstep
    cases hstep
    have hleft : s.loop t ≠ .left := by
      rcases hpc with hpc | hpc | ⟨hpc, -⟩ <;> rw [hpc] <;> nofun
    exact h.update hleft rfl rfl
  | orchError =>
    obtain ⟨hpc, hstep⟩ := ite_none_right_eq_some.mp hstep
    cases hstep
    exact h.setOrch (by rw [hpc]; nofun) _

/-- Threads leave only after the hand-over. -/
theorem Seated.reach {idle : Nat → Nat}
    (h : Reach (HandOver.step c) free (HandOver.init c idle) s) :
    Seated c s :=
  h.invariant (.init c idle) fun _ _ _ _ hs _ hstep => hs.step hstep

/-- A thread in its loop, or inside of the drain. -/
theorem Inv.stepThread (h : Inv c s) (hs : Seated c s) (hok : Apart c s (.thread t))
    (hstep : s.stepThread c t = some s') : Inv c s' := by
  obtain ⟨pc, hpc⟩ : ∃ pc, s.loop t = pc := ⟨_, rfl⟩
  rw [HandOver.stepThread, hpc] at hstep
  cases pc with
  | left => cases hstep
  | top | exitCheck | request =>
    cases hstep
    exact h.setLoop (by split <;> simp)
  | work =>
    cases hstep
    exact h.setLoop (by simp)
  | look =>
    cases hstep
    split
    · exact h.release
    · exact h.setLoop (by simp)
  | join =>
    cases hstep
    exact h.join (hok hpc)
  | spin =>
    cases hstep
    split
    · exact h.release
    · exact h.setLoop fun _ => h.counted t (.inl hpc)
  | spinCompleted =>
    cases hstep
    exact h.setLoop fun _ => h.counted t (.inr hpc)
  | drainCheck =>
    dsimp only at hstep
    split_ifs at hstep with hpending
    · cases hstep
      exact h.setLoop (by simp)
    · obtain ⟨d, -, rfl⟩ := exists_of_drainStep hstep
      have hmoved : Inv c (s.setLoop t .drain) := h.setLoop (by simp)
      exact hmoved.setDrain fun hno => absurd hno.1 hpending
  | drain | dispatch =>
    dsimp only at hstep
    split_ifs at hstep with hbusy
    · cases hstep
      exact h.setLoop (by simp)
    · obtain ⟨d, -, rfl⟩ := exists_of_drainStep hstep
      exact h.setDrain fun hno => absurd (hno.thread hs (by rw [hpc]; nofun)) hbusy

/-- One step, if hand-over and drain are apart. -/
theorem Inv.step (h : Inv c s) (hs : Seated c s) (hok : Apart c s a)
    (hstep : s.step c a = some s') : Inv c s' := by
  cases a with
  | thread t => exact h.stepThread hs hok hstep
  | orch => exact h.stepOrch hstep
  | enter t x =>
    obtain ⟨-, hstep⟩ := ite_none_right_eq_some.mp hstep
    obtain ⟨d, -, rfl⟩ := exists_of_drainStep hstep
    refine h.setDrain fun _ hw hr => ?_
    rcases hok with hzero | hre
    · omega
    · rw [hr] at hre
      cases hre
  | poll t idle | claim t x k =>
    obtain ⟨-, hstep⟩ := ite_none_right_eq_some.mp hstep
    obtain ⟨d, hd, rfl⟩ := exists_of_drainStep hstep
    obtain ⟨-, hd⟩ := ite_none_right_eq_some.mp hd
    cases hd
    exact h.setDrain fun hno _ _ => hno
  | complete t =>
    obtain ⟨-, hstep⟩ := ite_none_right_eq_some.mp hstep
    cases hstep
    exact { (h.setLoop (by simp) : Inv c (s.setLoop t .left)) with }
  | orchError =>
    obtain ⟨hpc, hstep⟩ := ite_none_right_eq_some.mp hstep
    cases hstep
    exact { h.setOrch (by rw [hpc]; nofun) (by rw [hpc]; nofun) .completedCheck with }

/-- **Drain and hand-over do not wait for each other**, if no thread begins to wait for its cores
during a drain and no drain is begun while a thread waits for them. -/
theorem no_circular_wait (c : HandOverConfig τ) (idle : Nat → Nat)
    (h : Reach (step c) (Apart c) (init c idle) s) : ¬ s.CircularWait c := by
  have hinv : Inv c s :=
    h.invariant (.init c idle) fun _ _ _ hr hinv hok hstep =>
      hinv.step (.reach hr.toFree) hok hstep
  have hs : Seated c s := .reach h.toFree
  rintro ⟨-, ⟨t, hdrain, hwait⟩, ⟨u, hspin⟩, horch, -⟩
  have hre : s.reassigned = false := by
    apply hinv.unassigned
    · rcases horch with horch | horch <;> rw [horch] <;> nofun
    · rcases horch with horch | horch <;> rw [horch] <;> nofun
  -- the thread that waits for its cores has been counted, so nobody is inside the drain
  have hno : s.NoDrain c := hinv.apart (hinv.counted u hspin) hre
  have hloop : s.drain.thread t = .loop := hno.thread hs (by rw [hdrain]; nofun)
  rw [hloop] at hwait
  exact hwait

end Steps

/-! ## The deadlock -/

/-- Every scheduler thread is at the ack barrier with its bit set, or waits for its cores; but not
all are at the one, nor at the other. -/
def Jammed (c : HandOverConfig τ) (s : HandOver τ) : Prop :=
  s.completed = false ∧ s.reassigned = false ∧ (s.orch = .wait ∨ s.orch = .waitCompleted) ∧
    s.waitReassign ≠ c.schedThreadNum ∧ ¬ s.drain.AllAcked (s.drainConfig c) ∧
    ∀ t < c.schedThreadNum,
      s.loop t = .drain ∧ (s.drain.thread t).Waiting ∧ s.drain.drainAckMask t = true ∨
        (s.loop t = .spin ∨ s.loop t = .spinCompleted)

instance (c : HandOverConfig τ) (s : HandOver τ) : Decidable (s.Jammed c) :=
  inferInstanceAs (Decidable (_ ∧ _ ∧ _ ∧ _ ∧ _ ∧ ∀ t < _, _))

theorem SameSignals.trans {s'' : HandOver τ} (h : s.SameSignals s') (h' : s'.SameSignals s'') :
    s.SameSignals s'' where
  drainAckMask := h'.drainAckMask.trans h.drainAckMask
  reassigned := h'.reassigned.trans h.reassigned
  waitReassign := h'.waitReassign.trans h.waitReassign
  completed := h'.completed.trans h.completed

theorem SameSignals.setLoop (pc : LoopPc) : s.SameSignals (s.setLoop t pc) := ⟨rfl, rfl, rfl, rfl⟩

theorem Jammed.orch_ne (h : s.Jammed c) {pc : TransitionPc} (hw : pc ≠ .wait)
    (hc : pc ≠ .waitCompleted) :
    s.orch ≠ pc := by
  rintro rfl
  exact h.2.2.1.elim hw hc

/-- No thread is where it could begin a drain, join the barrier or set `completed_`. -/
theorem Jammed.loop_eq (h : s.Jammed c) (hs : Seated c s) (t : Nat) :
    s.loop t = .left ∨ s.loop t = .drain ∨ s.loop t = .spin ∨ s.loop t = .spinCompleted := by
  rcases lt_or_ge t c.schedThreadNum with hlt | hge
  · rcases h.2.2.2.2.2 t hlt with ⟨hd, -⟩ | hspin
    · exact .inr (.inl hd)
    · exact .inr (.inr hspin)
  · exact .inl (hs.left (h.orch_ne nofun nofun) hge)

/-- A spinning thread goes on spinning. -/
theorem Jammed.setLoop (h : s.Jammed c) (hpc : pc = .spin ∨ pc = .spinCompleted) :
    (s.setLoop t pc).Jammed c := by
  obtain ⟨hc, hr, ho, hw, ha, hthreads⟩ := h
  exact ⟨hc, hr, ho, hw, ha, (forall_update_iff s.loop fun t' pc =>
    t' < c.schedThreadNum → pc = .drain ∧ (s.drain.thread t').Waiting ∧
      s.drain.drainAckMask t' = true ∨
      (pc = .spin ∨ pc = .spinCompleted)).mpr ⟨fun _ => .inr hpc, fun t' _ => hthreads t'⟩⟩

theorem Jammed.setOrch (h : s.Jammed c) {pc : TransitionPc}
    (hpc : pc = .wait ∨ pc = .waitCompleted) :
    Jammed c { s with orch := pc } :=
  ⟨h.1, h.2.1, hpc, h.2.2.2⟩

section Deadlock

variable [DecidableEq τ]

/-- A thread at the barrier looks at the mask again, and finds it as before. -/
theorem Jammed.go (h : s.Jammed c) (hs : Seated c s) (hpc : s.loop t = .drain)
    (hstep : s.stepThread c t = some s') : s' = s := by
  obtain ⟨-, -, -, -, hacked, hthreads⟩ := id h
  have hlt : t < c.schedThreadNum := by
    by_contra hge
    have hleft := hs.left (h.orch_ne (by simp) (by simp)) (not_lt.mp hge)
    rw [hpc] at hleft
    cases hleft
  rcases hthreads t hlt with ⟨-, hwaiting, hbit⟩ | hspin
  · obtain ⟨k, hk⟩ : ∃ k, s.drain.thread t = .wait k := by
      generalize s.drain.thread t = pc at hwaiting
      cases pc with
      | wait k => exact ⟨k, rfl⟩
      | _ => cases hwaiting
    rw [stepThread, hpc] at hstep
    dsimp only at hstep
    rw [if_neg (by rw [hk]; simp)] at hstep
    obtain ⟨d, hd, rfl⟩ := exists_of_drainStep hstep
    rw [Drain.step, Drain.go, hk] at hd
    dsimp only at hd
    rw [if_neg hacked, if_neg (by rw [hbit]; simp)] at hd
    cases hd
    rfl
  · rcases hspin with hspin | hspin <;> rw [hpc] at hspin <;> cases hspin

/-- A jammed thread only spins. -/
theorem Jammed.stepThread (h : s.Jammed c) (hs : Seated c s) (hstep : s.stepThread c t = some s') :
    s'.Jammed c ∧ Seated c s' ∧ s.SameSignals s' := by
  rcases h.loop_eq hs t with hpc | hpc | hpc | hpc
  · rw [HandOver.stepThread, hpc] at hstep
    cases hstep
  · rw [h.go hs hpc hstep]
    exact ⟨h, hs, rfl, rfl, rfl, rfl⟩
  · rw [HandOver.stepThread, hpc] at hstep
    dsimp only at hstep
    rw [if_neg (by rw [h.2.1]; nofun)] at hstep
    cases hstep
    exact ⟨h.setLoop (.inr rfl), hs.update (by rw [hpc]; nofun) rfl rfl, .setLoop _⟩
  · rw [HandOver.stepThread, hpc] at hstep
    dsimp only at hstep
    rw [if_neg (by rw [h.1]; nofun)] at hstep
    cases hstep
    exact ⟨h.setLoop (.inl rfl), hs.update (by rw [hpc]; nofun) rfl rfl, .setLoop _⟩

/-- A jam stays a jam. -/
theorem Jammed.step (h : s.Jammed c) (hs : Seated c s) (hstep : s.step c a = some s') :
    s'.Jammed c ∧ Seated c s' ∧ s.SameSignals s' := by
  -- the other actions are those of threads in their loop, and there are none
  have hnot {t : Nat} {pc : LoopPc} (hpc : s.loop t = pc)
      (hne : pc ≠ .left ∧ pc ≠ .drain ∧ pc ≠ .spin ∧ pc ≠ .spinCompleted) : False := by
    subst hpc
    have hloop := h.loop_eq hs t
    tauto
  cases a with
  | thread t => exact h.stepThread hs hstep
  | enter t x | claim t x k =>
    obtain ⟨hpc, -⟩ := ite_none_right_eq_some.mp hstep
    exact (hnot hpc (by decide)).elim
  | poll t idle =>
    obtain ⟨hpc | hpc, -⟩ := ite_none_right_eq_some.mp hstep <;>
      exact (hnot hpc (by decide)).elim
  | complete t =>
    obtain ⟨hpc | hpc | ⟨hpc, -⟩, -⟩ := ite_none_right_eq_some.mp hstep <;>
      exact (hnot hpc (by decide)).elim
  | orch =>
    have hj : s.orch ≠ .joined := h.orch_ne nofun nofun
    obtain ⟨hc, -, hwait | hwait, hcount, -⟩ := id h
    · rw [HandOver.step, stepOrch, hwait] at hstep
      dsimp only at hstep
      rw [if_neg hcount] at hstep
      cases hstep
      exact ⟨h.setOrch (.inr rfl), hs.setOrch hj _, rfl, rfl, rfl, rfl⟩
    · rw [HandOver.step, stepOrch, hwait] at hstep
      dsimp only at hstep
      rw [if_neg (by rw [hc]; nofun)] at hstep
      cases hstep
      exact ⟨h.setOrch (.inl rfl), hs.setOrch hj _, rfl, rfl, rfl, rfl⟩
  | orchError =>
    obtain ⟨hpc, -⟩ := ite_none_right_eq_some.mp hstep
    exact absurd hpc (h.orch_ne nofun nofun)

/-- What a run from a jammed state leaves as it is. -/
def StillJammed (c : HandOverConfig τ) (s s' : HandOver τ) : Prop :=
  s'.Jammed c ∧ Seated c s' ∧ s.SameSignals s'

/-- From a jammed state no run changes what the threads wait for. -/
theorem Jammed.stuck (h : s.Jammed c) (hs : Seated c s) (hr : Reach (HandOver.step c) free s s') :
    s.SameSignals s' := by
  have hstill : StillJammed c s s' :=
    hr.invariant (show StillJammed c s s from ⟨h, hs, rfl, rfl, rfl, rfl⟩)
      fun _ _ _ _ hinv _ hstep =>
      have hnext := hinv.1.step hinv.2.1 hstep
      ⟨hnext.1, hnext.2.1, hinv.2.2.trans hnext.2.2⟩
  exact hstill.2.2

end Deadlock

/-- Two scheduler threads, and a task of one block. -/
def twoThreads : HandOverConfig Unit where
  schedThreadNum := 2
  blockNum _ := 1
  blockNum_pos _ := Nat.one_pos

/-- The second thread waits for its cores when the orchestrator has them reassigned. -/
theorem no_circular_wait_two : ∃ s, Reach (step twoThreads) (Apart twoThreads)
    (init twoThreads fun _ => 1) s ∧ s.loop 1 = .spin ∧ ¬ s.CircularWait twoThreads := by
  refine Reach.exists_of_run_imp (P := fun s => s.loop 1 = .spin)
    (replicate 3 Act.orch ++ replicate 5 (Act.thread 1)) (by decide +kernel)
    fun s hr hspin => ?_
  exact ⟨hspin, no_circular_wait twoThreads _ hr⟩

/-- The first thread begins a drain and waits at its ack barrier. Then the orchestrator asks for the
cores, and the second thread, at the top of its loop, goes to wait for them. -/
def jamRun : List (Act Unit) :=
  replicate 5 (Act.thread 0) ++ [Act.enter 0 ()] ++ replicate 13 (Act.thread 0) ++
    replicate 3 Act.orch ++ replicate 5 (Act.thread 1)

/-- **Drain and hand-over wait for each other**, with two scheduler threads. -/
theorem drain_and_hand_over_deadlock : ∃ s, Reach (step twoThreads) free
    (init twoThreads fun _ => 0) s ∧ s.CircularWait twoThreads := by
  refine Reach.exists_of_run_imp (P := fun s => s.Jammed twoThreads ∧ s.loop 0 = .drain ∧
      (s.drain.thread 0).Waiting ∧ s.loop 1 = .spin) jamRun (by decide +kernel)
    fun s hr ⟨hjam, hdrain, hwait, hspin⟩ => ?_
  have hs : Seated twoThreads s := .reach hr
  exact ⟨hjam.1, ⟨0, hdrain, hwait⟩, ⟨1, .inl hspin⟩, hjam.2.2.1, fun _ => hjam.stuck hs⟩

end HandOver

end PtoRuntime.Tmrb
