import PtoRuntime.Lib.Places
import PtoRuntime.Tmrb.Drain
import PtoRuntime.Tmrb.ReadyQueue
import PtoRuntime.Tmrb.Runtime

/-!
# Ready tasks and their blocks

From the moment its last producer has completed until its last block is given to a core, a task
is handed around: from the thread that woke it to a ready queue or a local buffer, from there to
a thread that claims some of its blocks, back to the queue while blocks remain, or into the drain
slot. This module puts the ready queues and the drain together with the threads that do this.

The queues are those of `ReadyQueue`, one for each shape, and the drain is that of `Drain`; every
atomic operation of either is a step. What a thread has in its batch, or has just woken, is in
its `hand`. Items change hands when a compare-and-swap claims their positions in a queue. A
caller of `push` does not look at the result, so what a queue refuses is lost.

Which tasks wake, and when the watermark of a ring moves, is left to the run.
-/

namespace PtoRuntime.Tmrb

open Lib Function List Option

/-- `PTO2ResourceShape`. -/
inductive Shape
  | aic
  | aiv
  | mix
  | dummy
  deriving DecidableEq, Repr

/-- `PTO2_READY_QUEUE_SIZE`. -/
def readyQueueSize : QueueConfig := ⟨16, by decide⟩

/-- `LOCAL_READY_CAP_PER_TYPE`. -/
def localReadyCap : Nat := 64

structure DispatchConfig where
  rings : Config
  shape : TaskId → Shape           -- `active_mask.to_shape()`
  syncStart : TaskId → Bool        -- `active_mask.requires_sync_start()`
  drain : DrainConfig TaskId       -- the scheduler threads, and `logical_block_num`
  threads_pos : 0 < drain.activeSchedThreads

/-- Where a task is. -/
inductive Place
  | unready
  | hand (t : Nat)
  | buffer (t : Nat) (q : Shape)
  | queue (q : Shape)
  | drain
  | done                           -- all blocks claimed, or completed without any
  | dropped
  deriving DecidableEq

/-- The queue operation that a thread is in. -/
inductive Call
  | push (q : Shape) (x : TaskId)
  | pushBatch (q : Shape) (items : List TaskId)
  | popBatch (q : Shape) (maxCount : Nat)

namespace Call

def queue : Call → Shape
  | .push q _ | .pushBatch q _ | .popBatch q _ => q

def act (t : Nat) : Call → ReadyQueue.Act TaskId
  | .push _ x => .push t x
  | .pushBatch _ items => .pushBatch t items
  | .popBatch _ maxCount => .popBatch t maxCount

def pending : Call → Option (Bool × List TaskId)
  | .push _ x => some (false, [x])
  | .pushBatch _ items => some (true, items)
  | .popBatch _ _ => none

end Call

structure Dispatcher where
  currentTaskIndex : Nat → Nat
  lastTaskAlive : Nat → Nat
  queues : Shape → ReadyQueue TaskId           -- `ready_queues` and `dummy_ready_queue`
  call : Nat → Option Call
  hand : Nat → List TaskId
  buffer : Nat → Shape → List TaskId           -- `local_bufs`, the last one first
  drain : Drain TaskId
  claimed : Nat → List (TaskId × Nat)          -- blocks a thread has still to dispatch
  dispatched : List (TaskId × Nat)             -- blocks dispatched outside of drains
  -- history
  place : TaskId → Place

namespace Dispatcher

def init (idle : Nat → Nat) : Dispatcher where
  currentTaskIndex _ := 0
  lastTaskAlive _ := 0
  queues _ := .init
  call _ := none
  hand _ := []
  buffer _ _ := []
  drain := .init idle
  claimed _ := []
  dispatched := []
  place _ := .unready

inductive Act
  | submit (r : Nat)
  | advance (r n : Nat)
  | wake (t : Nat) (x : TaskId)                -- `fanin_refcount` has reached `fanin_count`
  | keep (t : Nat) (x : TaskId)                -- `PTO2LocalReadyBuffer::try_push`
  | takeLocal (t : Nat) (q : Shape)            -- the local part of `get_ready_tasks_batch`
  | requeue (t : Nat) (q : Shape)              -- the local buffer goes to the queue
  | push (t : Nat) (x : TaskId)
  | pushBatch (t : Nat) (q : Shape) (items : List TaskId)
  | popBatch (t : Nat) (q : Shape) (maxCount : Nat)
  | go (t : Nat) (spurious : Bool)             -- the next step of the queue operation
  | ret (t : Nat)                              -- the queue operation has returned
  | claim (t : Nat) (x : TaskId) (k : Nat)
  | dispatch (t : Nat)
  | complete (t : Nat) (x : TaskId)            -- a dummy task completes without a core
  | enter (t : Nat) (x : TaskId)
  | handle (t : Nat)
  | drainGo (t : Nat)
  | poll (t idle : Nat)

/-- The items come into the hands of a thread. -/
def acquire (s : Dispatcher) (t : Nat) (items : List TaskId) : Dispatcher :=
  { s with
    hand := update s.hand t (s.hand t ++ items)
    place := relabel s.place items (.hand t) }

/-- The items leave the hands of a thread. -/
def surrender (s : Dispatcher) (t : Nat) (items : List TaskId) (p : Place) : Dispatcher :=
  { s with
    hand := update s.hand t ((s.hand t).filter (· ∉ items))
    place := relabel s.place items p }

def setQueue (s : Dispatcher) (q : Shape) (queue : ReadyQueue TaskId) : Dispatcher :=
  { s with queues := update s.queues q queue }

def setBuffer (s : Dispatcher) (t : Nat) (q : Shape) (items : List TaskId) : Dispatcher :=
  { s with buffer := fun t' q' => if t' = t ∧ q' = q then items else s.buffer t' q' }

def setCall (s : Dispatcher) (t : Nat) (call : Option Call) : Dispatcher :=
  { s with call := update s.call t call }

/-- A thread calls an operation of a queue. -/
def start (s : Dispatcher) (t : Nat) (call : Call) : Option Dispatcher :=
  (ReadyQueue.step readyQueueSize (s.queues call.queue) (call.act t)).map fun queue =>
    (s.setQueue call.queue queue).setCall t (some call)

/-- A step of the operation that a thread is in. Items leave its hands when the operation claims
positions for them, and come into its hands when it claims theirs. -/
def go (s : Dispatcher) (t : Nat) (spurious : Bool) : Option Dispatcher :=
  match s.call t with
  | none => none
  | some call =>
    let old := s.queues call.queue
    (old.go readyQueueSize t spurious).map fun queue =>
      let entered := queue.pushed.drop old.pushed.length
      let taken := old.contents.take (queue.left.length - old.left.length)
      ((s.setQueue call.queue queue).surrender t entered (.queue call.queue)).acquire t taken

/-- The operation has returned. The result of `push` is not looked at: a task that the queue has
refused is nowhere. -/
def ret (s : Dispatcher) (t : Nat) : Option Dispatcher :=
  match s.call t with
  | none => none
  | some call =>
    match (s.queues call.queue).thread t, call with
    | .idle (.pushed false), .push _ x => some ((s.setCall t none).surrender t [x] .dropped)
    | .idle _, _ => some (s.setCall t none)
    | _, _ => none

variable (c : DispatchConfig)

/-- The thread is in its loop and in no queue operation. -/
def Free (s : Dispatcher) (t : Nat) : Prop :=
  t < c.drain.activeSchedThreads ∧ s.call t = none ∧ s.drain.thread t = .loop

instance (s : Dispatcher) (t : Nat) : Decidable (s.Free c t) := inferInstanceAs (Decidable (_ ∧ _))

/-- The next `k` blocks of a task. -/
def nextBlocks (s : Dispatcher) (x : TaskId) (k : Nat) : List (TaskId × Nat) :=
  (List.range' (s.drain.nextBlockIdx x) k).map fun b => (x, b)

/-- `dispatch_shape` claims the next `k` blocks of a task of its batch. A sync_start task is
claimed as a whole. -/
def claim (s : Dispatcher) (t : Nat) (x : TaskId) (k : Nat) : Option Dispatcher :=
  if s.Free c t ∧ x ∈ s.hand t ∧ c.shape x ≠ .dummy ∧ 0 < k ∧
      (c.syncStart x = true → s.drain.nextBlockIdx x + k = c.drain.blockNum x) then
    (s.drain.step c.drain (.claim x k)).map fun drain =>
      let s' := { s with
        drain := drain
        claimed := update s.claimed t (s.claimed t ++ s.nextBlocks x k) }
      -- while blocks remain the task is pushed back next
      if drain.nextBlockIdx x < c.drain.blockNum x then s' else s'.surrender t [x] .done
  else none

/-- The places after a step inside the drain. A task that leaves the slot is not looked at
again. -/
def drained (s : Dispatcher) (drain : Drain TaskId) : TaskId → Place :=
  match s.drain.pendingTask, drain.pendingTask with
  | some x, none => relabel s.place [x] .done
  | _, _ => s.place

def drainGo (s : Dispatcher) (t : Nat) : Option Dispatcher :=
  (s.drain.go c.drain t).map fun drain => { s with drain := drain, place := s.drained drain }

def step (s : Dispatcher) : Act → Option Dispatcher
  | .submit r =>
    if r < maxRingDepth ∧
        s.currentTaskIndex r - s.lastTaskAlive r + 1 < (c.rings r).windowSize then
      some { s with
        currentTaskIndex := update s.currentTaskIndex r (s.currentTaskIndex r + 1) }
    else none
  | .advance r n =>
    if s.lastTaskAlive r ≤ n ∧ n ≤ s.currentTaskIndex r then
      some { s with lastTaskAlive := update s.lastTaskAlive r n }
    else none
  | .wake t x =>
    if s.Free c t ∧ x.ring < maxRingDepth ∧ x.loc < s.currentTaskIndex x.ring ∧
        s.place x = .unready then
      some (s.acquire t [x])
    else none
  | .keep t x =>
    if s.Free c t ∧ x ∈ s.hand t ∧ c.shape x ≠ .dummy ∧
        (s.buffer t (c.shape x)).length < localReadyCap then
      some ((s.surrender t [x] (.buffer t (c.shape x))).setBuffer t (c.shape x)
        (x :: s.buffer t (c.shape x)))
    else none
  | .takeLocal t q =>
    if s.Free c t then
      match s.buffer t q with
      | [] => none
      | x :: rest => some ((s.setBuffer t q rest).acquire t [x])
    else none
  | .requeue t q =>
    if s.Free c t ∧ s.buffer t q ≠ [] then
      let items := (s.buffer t q).reverse
      ((s.setBuffer t q []).acquire t items).start t (.pushBatch q items)
    else none
  | .push t x =>
    if s.Free c t ∧ x ∈ s.hand t then s.start t (.push (c.shape x) x) else none
  | .pushBatch t q items =>
    if s.Free c t ∧ items.Nodup ∧ ∀ x ∈ items, x ∈ s.hand t ∧ c.shape x = q then
      s.start t (.pushBatch q items)
    else none
  | .popBatch t q maxCount =>
    if s.Free c t then s.start t (.popBatch q maxCount) else none
  | .go t spurious => s.go t spurious
  | .ret t => s.ret t
  | .claim t x k => s.claim c t x k
  | .dispatch t =>
    if s.Free c t then
      match s.claimed t with
      | [] => none
      | b :: rest =>
        some { s with
          claimed := update s.claimed t rest
          dispatched := b :: s.dispatched }
    else none
  | .complete t x =>
    if s.Free c t ∧ x ∈ s.hand t ∧ c.shape x = .dummy then some (s.surrender t [x] .done) else none
  | .enter t x =>
    if s.Free c t ∧ x ∈ s.hand t ∧ c.shape x ≠ .dummy ∧ c.syncStart x = true then
      (s.drain.step c.drain (.enter t x)).map fun drain =>
        let s' := { s with drain := drain }
        -- another drain is pending: the task is pushed back next
        if s.drain.syncStartPending = 0 then s'.surrender t [x] .drain else s'
    else none
  | .handle t =>
    if s.Free c t ∧ s.hand t = [] ∧ s.claimed t = [] then
      (s.drain.step c.drain (.handle t)).map fun drain => { s with drain := drain }
    else none
  | .drainGo t => s.drainGo c t
  | .poll t idle =>
    if s.Free c t then
      (s.drain.step c.drain (.poll t idle)).map fun drain => { s with drain := drain }
    else none

/-! ## Where tasks and blocks are -/

end Dispatcher

/-- The places of tasks that are lists. -/
def Place.Held : Place → Prop
  | .hand _ | .buffer _ _ | .queue _ => True
  | .unready | .drain | .done | .dropped => False

/-- Where a block is. -/
inductive BlockPlace
  | unclaimed
  | claimed (t : Nat)
  | dispatched

def BlockPlace.Held : BlockPlace → Prop
  | .claimed _ | .dispatched => True
  | .unclaimed => False

variable {q : Shape} {call : Call} {queue : ReadyQueue TaskId}

namespace Dispatcher

variable {c : DispatchConfig} {s s' : Dispatcher} {t : Nat} {x : TaskId} {items : List TaskId}
  {a b p : Place}

def tasksAt (s : Dispatcher) : Place → List TaskId
  | .hand t => s.hand t
  | .buffer t q => s.buffer t q
  | .queue q => (s.queues q).contents
  | .unready | .drain | .done | .dropped => []

/-- All blocks dispatched so far. -/
def log (s : Dispatcher) : List (TaskId × Nat) :=
  s.dispatched ++ s.drain.dispatched.map fun e => (e.1, e.2.1)

def blocks (s : Dispatcher) : BlockPlace → List (TaskId × Nat)
  | .claimed t => s.claimed t
  | .dispatched => s.log
  | .unclaimed => []

/-- The task is in the drain slot, or a thread is about to put it there. -/
def InDrain (s : Dispatcher) (x : TaskId) : Prop :=
  s.drain.pendingTask = some x ∨ ∃ t, s.drain.thread t = .enterTask x

/-- How many blocks of a task are claimed, for each place it may be at. -/
def TaskOk (c : DispatchConfig) (s : Dispatcher) (x : TaskId) : Place → Prop
  | .unready => s.drain.nextBlockIdx x = 0
  | .hand _ | .buffer _ _ | .queue _ =>
    c.shape x ≠ .dummy → s.drain.nextBlockIdx x < c.drain.blockNum x
  | .done => c.shape x ≠ .dummy → s.drain.nextBlockIdx x = c.drain.blockNum x
  | .drain | .dropped => True

/-- Every block is unclaimed, with one thread, or dispatched. -/
def BlocksOk (s : Dispatcher) : Prop :=
  ∃ label, Placed BlockPlace.Held s.blocks label ∧
    ∀ x b, label (x, b) = .unclaimed ↔ s.drain.nextBlockIdx x ≤ b

/-- A thread that is in a queue operation has what it pushes in its hands until the positions are
claimed. -/
structure Calls (s : Dispatcher) : Prop where
  pending : ∀ t q p, ((s.queues q).thread t).pending = some p →
    ∃ call, s.call t = some call ∧ call.queue = q ∧ call.pending = some p ∧ p.2.Nodup ∧
      ∀ i ∈ p.2, i ∈ s.hand t
  refused : ∀ t q x, s.call t = some (.push q x) →
    (s.queues q).thread t = .idle (.pushed false) → x ∈ s.hand t

structure Inv (c : DispatchConfig) (s : Dispatcher) : Prop where
  control : Drain.Control c.drain s.drain
  drain : Drain.Blocks c.drain s.drain
  queues : ∀ q, ReadyQueue.Inv readyQueueSize (s.queues q)
  pushed : ∀ q, (s.queues q).pushed.length < 2 ^ 62
  calls : Calls s
  placed : Placed Place.Held s.tasksAt s.place
  slot : ∀ x, s.place x = .drain ↔ s.InDrain x
  tasks : ∀ x, TaskOk c s x (s.place x)
  blocks : s.BlocksOk
  le : ∀ x, s.drain.nextBlockIdx x ≤ c.drain.blockNum x

theorem inv_init (idle : Nat → Nat) : Inv c (init idle) where
  control := Drain.control_init c.threads_pos idle
  drain := Drain.blocks_init idle
  queues _ := ReadyQueue.inv_init
  pushed _ := Nat.two_pow_pos 62
  calls := ⟨fun _ _ _ h => (by cases h), fun _ _ _ h => (by cases h)⟩
  placed := by
    refine ⟨?_, ?_⟩
    · intro p hp
      cases p with
      | hand | buffer | queue => exact .nil
      | _ => exact hp.elim
    · intro p hp x
      cases p with
      | hand | buffer | queue => exact iff_of_false not_mem_nil nofun
      | _ => exact hp.elim
  slot x := iff_of_false nofun (by rintro (h | ⟨t, h⟩) <;> cases h)
  tasks _ := rfl
  blocks := by
    refine ⟨fun _ => .unclaimed, ⟨?_, ?_⟩, ?_⟩
    · intro p hp
      cases p with
      | claimed | dispatched => exact .nil
      | unclaimed => exact hp.elim
    · intro p hp x
      cases p with
      | claimed | dispatched => exact iff_of_false not_mem_nil nofun
      | unclaimed => exact hp.elim
    · intro x b
      exact iff_of_true rfl (Nat.zero_le b)
  le _ := Nat.zero_le _

/-! ## Moves -/

/-- Some tasks go from `a` to `b`. -/
structure Move (s s' : Dispatcher) (items : List TaskId) (a b : Place) : Prop where
  label : ∀ i ∈ items, s.place i = a
  nodup : items.Nodup
  ne : a ≠ b
  place : s'.place = relabel s.place items b
  source : a.Held → (s'.tasksAt a).Nodup ∧ ∀ i, i ∈ s'.tasksAt a ↔ i ∈ s.tasksAt a ∧ i ∉ items
  target : b.Held → (s'.tasksAt b).Perm (s.tasksAt b ++ items)
  rest : ∀ p, p.Held → p ≠ a → p ≠ b → s'.tasksAt p = s.tasksAt p

/-- Nothing moves. -/
theorem Move.stay (hplace : s'.place = s.place)
    (htasks : ∀ p, p.Held → s'.tasksAt p = s.tasksAt p) : Move s s' [] .unready .done where
  label _ h := by cases h
  nodup := .nil
  ne := nofun
  place := by rw [relabel_nil, hplace]
  source h := h.elim
  target h := h.elim
  rest p hp _ _ := htasks p hp

/-- Items change their place together. -/
theorem Move.placed (h : Move s s' items a b) (hs : Placed Place.Held s.tasksAt s.place) :
    Placed Place.Held s'.tasksAt s'.place := by
  rw [h.place]
  exact hs.move h.label h.nodup h.ne h.source h.target h.rest

/-- The place of a task after a move. -/
theorem Move.place_eq (h : Move s s' items a b) (x : TaskId) :
    x ∈ items ∧ s.place x = a ∧ s'.place x = b ∨ x ∉ items ∧ s'.place x = s.place x := by
  rw [h.place]
  by_cases hx : x ∈ items
  · exact .inl ⟨hx, h.label x hx, relabel_of_mem hx⟩
  · exact .inr ⟨hx, relabel_of_not_mem hx⟩

theorem mem_hand_iff (h : Inv c s) : x ∈ s.hand t ↔ s.place x = .hand t :=
  h.placed.mem_iff (.hand t) trivial x

/-- The items of a list place, after everything but that place and the hands is unchanged. -/
theorem tasksAt_congr (hhand : ∀ t', p = .hand t' → s'.hand t' = s.hand t')
    (hbuffer : ∀ t' q, p = .buffer t' q → s'.buffer t' q = s.buffer t' q)
    (hqueue : ∀ q, p = .queue q → (s'.queues q).contents = (s.queues q).contents) :
    s'.tasksAt p = s.tasksAt p := by
  cases p with
  | hand t' => exact hhand t' rfl
  | buffer t' q => exact hbuffer t' q rfl
  | queue q => exact hqueue q rfl
  | _ => rfl

/-- Tasks come into the hands of a thread. -/
theorem move_acquire (hlabel : ∀ i ∈ items, s.place i = a) (hnodup : items.Nodup)
    (hne : a ≠ .hand t) (hplace : s'.place = relabel s.place items (.hand t))
    (hhand : s'.hand = update s.hand t (s.hand t ++ items))
    (hsource : a.Held → (s'.tasksAt a).Nodup ∧ ∀ i, i ∈ s'.tasksAt a ↔ i ∈ s.tasksAt a ∧ i ∉ items)
    (hbuffer : ∀ t' q, a ≠ .buffer t' q → s'.buffer t' q = s.buffer t' q)
    (hqueue : ∀ q, a ≠ .queue q → (s'.queues q).contents = (s.queues q).contents) :
    Move s s' items a (.hand t) where
  label := hlabel
  nodup := hnodup
  ne := hne
  place := hplace
  source := hsource
  target _ := by
    show (s'.hand t).Perm (s.hand t ++ items)
    rw [hhand, update_self]
  rest p _ hp hp' := by
    refine tasksAt_congr ?_ ?_ ?_
    · rintro t' rfl
      rw [hhand, update_of_ne fun he => hp' (congrArg Place.hand he)]
    · rintro t' q rfl
      exact hbuffer t' q hp.symm
    · rintro q rfl
      exact hqueue q hp.symm

/-- Tasks leave the hands of a thread. -/
theorem move_surrender (hs : Placed Place.Held s.tasksAt s.place) (hmem : ∀ i ∈ items, i ∈ s.hand t)
    (hnodup : items.Nodup) (hne : b ≠ .hand t) (hplace : s'.place = relabel s.place items b)
    (hhand : s'.hand = update s.hand t ((s.hand t).filter (· ∉ items)))
    (htarget : b.Held → (s'.tasksAt b).Perm (s.tasksAt b ++ items))
    (hbuffer : ∀ t' q, b ≠ .buffer t' q → s'.buffer t' q = s.buffer t' q)
    (hqueue : ∀ q, b ≠ .queue q → (s'.queues q).contents = (s.queues q).contents) :
    Move s s' items (.hand t) b where
  label i hi := (hs.mem_iff (.hand t) trivial i).mp (hmem i hi)
  nodup := hnodup
  ne := hne.symm
  place := hplace
  source _ := by
    show (s'.hand t).Nodup ∧ ∀ i, i ∈ s'.hand t ↔ i ∈ s.hand t ∧ i ∉ items
    rw [hhand, update_self]
    refine ⟨(hs.nodup (.hand t) trivial).filter _, ?_⟩
    intro i
    rw [mem_filter, decide_eq_true_iff]
  target := htarget
  rest p _ hp hp' := by
    refine tasksAt_congr ?_ ?_ ?_
    · rintro t' rfl
      rw [hhand, update_of_ne fun he => hp (congrArg Place.hand he)]
    · rintro t' q rfl
      exact hbuffer t' q hp'.symm
    · rintro q rfl
      exact hqueue q hp'.symm

theorem TaskOk.congr (h : TaskOk c s x p)
    (hnext : s'.drain.nextBlockIdx x = s.drain.nextBlockIdx x) :
    TaskOk c s' x p := by
  cases p <;> simp only [TaskOk, hnext] at h ⊢ <;> exact h

theorem BlocksOk.congr (h : s.BlocksOk) (hdrain : s'.drain = s.drain)
    (hclaimed : s'.claimed = s.claimed) (hdispatched : s'.dispatched = s.dispatched) :
    s'.BlocksOk := by
  have hblocks : s'.blocks = s.blocks := funext fun p => by
    cases p <;> simp only [blocks, log, hdrain, hclaimed, hdispatched]
  rw [BlocksOk, hblocks, hdrain]
  exact h

/-- The labels of the drain slot after a move that has nothing to do with it. -/
theorem Move.slot (hm : Move s s' items a b) (h : ∀ x, s.place x = .drain ↔ s.InDrain x)
    (ha : a ≠ .drain) (hb : b ≠ .drain) (hdrain : ∀ x, s'.InDrain x ↔ s.InDrain x) (x : TaskId) :
    s'.place x = .drain ↔ s'.InDrain x := by
  rw [hdrain, ← h]
  rcases hm.place_eq x with ⟨-, hold, hnew⟩ | ⟨-, hsame⟩
  · rw [hold, hnew]
    exact iff_of_false hb ha
  · rw [hsame]

/-- The moved tasks are right at their new place. -/
theorem Move.tasks (hm : Move s s' items a b) (h : ∀ x, TaskOk c s x (s.place x))
    (hmoved : ∀ x ∈ items, TaskOk c s' x b)
    (hnext : ∀ x ∉ items, s'.drain.nextBlockIdx x = s.drain.nextBlockIdx x) (x : TaskId) :
    TaskOk c s' x (s'.place x) := by
  rcases hm.place_eq x with ⟨hx, -, hnew⟩ | ⟨hx, hsame⟩
  · rw [hnew]
    exact hmoved x hx
  · rw [hsame]
    exact (h x).congr (hnext x hx)

/-- A step that moves tasks around and leaves the drain and the blocks alone. -/
theorem Inv.shift (h : Inv c s) (hm : Move s s' items a b) (ha : a ≠ .drain) (hb : b ≠ .drain)
    (hdrain : s'.drain = s.drain) (hqueues : ∀ q, ReadyQueue.Inv readyQueueSize (s'.queues q))
    (hpushed : ∀ q, (s'.queues q).pushed.length < 2 ^ 62) (hcalls : Calls s')
    (hclaimed : s'.claimed = s.claimed) (hdispatched : s'.dispatched = s.dispatched)
    (htask : ∀ x ∈ items, TaskOk c s x b) : Inv c s' where
  control := hdrain ▸ h.control
  drain := hdrain ▸ h.drain
  queues := hqueues
  pushed := hpushed
  calls := hcalls
  placed := hm.placed h.placed
  slot := hm.slot h.slot ha hb fun _ => by rw [InDrain, InDrain, hdrain]
  tasks := hm.tasks h.tasks (fun x hx => (htask x hx).congr (by rw [hdrain]))
    fun x _ => by rw [hdrain]
  blocks := h.blocks.congr hdrain hclaimed hdispatched
  le := hdrain ▸ h.le

/-! ## Queue operations -/

/-- The hands of one thread change that is in no operation. -/
theorem Calls.hand (h : Calls s) (hidle : s.call t = none) (hqueues : s'.queues = s.queues)
    (hcall : s'.call = s.call) {l : List TaskId} (hhand : s'.hand = update s.hand t l) :
    Calls s' := by
  have hother {t' : Nat} {call : Call} (hc : s.call t' = some call) : s'.hand t' = s.hand t' := by
    rw [hhand, update_of_ne]
    rintro rfl
    cases hidle.symm.trans hc
  refine ⟨?_, ?_⟩ <;> rw [hqueues, hcall]
  · intro t q p hp
    obtain ⟨call, hc, hrest⟩ := h.pending t q p hp
    rw [hother hc]
    exact ⟨call, hc, hrest⟩
  · intro t q x hc hrefused
    rw [hother hc]
    exact h.refused t q x hc hrefused

/-- One thread moves on in one queue. -/
theorem Calls.move (h : Calls s) {pc : QueuePc TaskId} (hcall : s'.call t = some call)
    (hq : call.queue = q) (hcalls : ∀ t', t' ≠ t → s'.call t' = s.call t')
    (hold : ∀ call', s.call t = some call' → call' = call)
    (hthread : (s'.queues q).thread = update (s.queues q).thread t pc)
    (hqueues : ∀ q', q' ≠ q → s'.queues q' = s.queues q')
    (hhand : ∀ t', t' ≠ t → s'.hand t' = s.hand t') (hpending : ∀ p, pc.pending = some p →
      call.pending = some p ∧ p.2.Nodup ∧ ∀ i ∈ p.2, i ∈ s'.hand t)
    (hrefused : pc = .idle (.pushed false) → ∀ x, call = .push q x → x ∈ s'.hand t) : Calls s' := by
  -- the other threads, and the other queues
  have hother {t' : Nat} {q' : Shape} (hne : ¬ (t' = t ∧ q' = q)) :
      (s'.queues q').thread t' = (s.queues q').thread t' := by
    by_cases hq' : q' = q
    · subst hq'
      rw [hthread, update_of_ne fun ht => hne ⟨ht, rfl⟩]
    · rw [hqueues q' hq']
  have hself : (s'.queues q).thread t = pc := by rw [hthread, update_self]
  refine ⟨?_, ?_⟩
  · intro t' q' p hp
    by_cases hhere : t' = t ∧ q' = q
    · obtain ⟨rfl, rfl⟩ := hhere
      rw [hself] at hp
      exact ⟨call, hcall, hq, hpending p hp⟩
    · rw [hother hhere] at hp
      obtain ⟨call', hc, hq', hrest⟩ := h.pending t' q' p hp
      by_cases ht : t' = t
      · subst ht
        exact absurd ⟨rfl, hq'.symm.trans (hold call' hc ▸ hq)⟩ hhere
      · rw [hcalls t' ht, hhand t' ht]
        exact ⟨call', hc, hq', hrest⟩
  · intro t' q' x hc hidle
    by_cases ht : t' = t
    · subst ht
      cases hcall.symm.trans hc
      subst hq
      exact hrefused (hself.symm.trans hidle) x rfl
    · rw [hother fun hh => ht hh.1] at hidle
      rw [hcalls t' ht] at hc
      rw [hhand t' ht]
      exact h.refused t' q' x hc hidle

/-- What a call does first. -/
theorem start_spec (hst : s.start t call = some s') :
    ∃ pc : QueuePc TaskId, s' = (s.setQueue call.queue ((s.queues call.queue).setPc t pc)).setCall t
        (some call) ∧
      ReadyQueue.step readyQueueSize (s.queues call.queue) (call.act t) =
        some ((s.queues call.queue).setPc t pc) ∧
      (pc.pending = none ∨ pc.pending = call.pending) ∧ pc ≠ .idle (.pushed false) := by
  obtain ⟨queue, hqueue, rfl⟩ := map_eq_some_iff.mp hst
  have hcall {pc : QueuePc TaskId} (h : (s.queues call.queue).call t pc = some queue) :
      queue = (s.queues call.queue).setPc t pc := by
    unfold ReadyQueue.call at h
    split at h <;> cases h
    rfl
  obtain ⟨pc, rfl, hpending, hne⟩ : ∃ pc, queue = (s.queues call.queue).setPc t pc ∧
      (pc.pending = none ∨ pc.pending = call.pending) ∧ pc ≠ .idle (.pushed false) := by
    cases call with
    | push q x => exact ⟨.pushLoad false [x], hcall hqueue, .inr rfl, nofun⟩
    | pushBatch q items =>
      refine ⟨_, hcall (ite_none_right_eq_some.mp hqueue).2, ?_, ?_⟩ <;> split
      · exact .inl rfl
      · exact .inr rfl
      · exact nofun
      · exact nofun
    | popBatch q maxCount =>
      exact ⟨.popLoad maxCount, hcall (ite_none_right_eq_some.mp hqueue).2, .inl rfl, nofun⟩
  exact ⟨pc, rfl, hqueue, hpending, hne⟩

theorem setQueue_self :
    (s.setQueue q queue).queues q = queue := update_self ..

theorem setQueue_setQueue {queue' : ReadyQueue TaskId} :
    (s.setQueue q queue).setQueue q queue' = s.setQueue q queue' := by
  simp only [setQueue, update_idem]

theorem setCall_self {call : Option Call} : (s.setCall t call).call t = call :=
  update_self ..

theorem contents_setQueue {q' : Shape} (hq : queue.contents = (s.queues q).contents) :
    ((s.setQueue q queue).queues q').contents = (s.queues q').contents := by
  show (update s.queues q queue q').contents = _
  obtain rfl | he := eq_or_ne q' q
  · rw [update_self, hq]
  · rw [update_of_ne he]

theorem forall_setQueue {P : ReadyQueue TaskId → Prop} (h : ∀ q, P (s.queues q)) (hnew : P queue)
    (q' : Shape) : P ((s.setQueue q queue).queues q') :=
  (forall_update_iff s.queues fun _ => P).mpr ⟨hnew, fun q _ => h q⟩ q'

/-- An operation is called. -/
theorem Inv.start (h : Inv c s) (hidle : s.call t = none) (hst : s.start t call = some s')
    (hpending : ∀ p, call.pending = some p → p.2.Nodup ∧ ∀ i ∈ p.2, i ∈ s.hand t) : Inv c s' := by
  obtain ⟨pc, rfl, hstep, hpc, hne⟩ := start_spec hst
  refine h.shift (.stay rfl ?_) nofun nofun rfl ?_ ?_ ?_ rfl rfl fun _ hx => (by cases hx)
  · intro p _
    exact tasksAt_congr (fun _ _ => rfl) (fun _ _ _ => rfl) fun q' _ => contents_setQueue rfl
  · exact forall_setQueue h.queues ((h.queues _).step (by decide) hstep (h.pushed _))
  · exact forall_setQueue (P := fun queue => queue.pushed.length < 2 ^ 62) h.pushed (h.pushed _)
  · refine h.calls.move (update_self ..) rfl (fun t' ht' => update_of_ne ht' ..)
      (fun call' hc => absurd (hidle.symm.trans hc) nofun) ?_ (fun q' hq' => update_of_ne hq' ..)
      (fun _ _ => rfl) (fun p hp => ?_) (fun he => absurd he hne)
    · show (update s.queues _ _ _).thread = _
      rw [update_self]
      rfl
    · rcases hpc with hnone | hsome
      · rw [hnone] at hp
        cases hp
      · rw [hsome] at hp
        exact ⟨hp, hpending p hp⟩

@[simp] theorem acquire_nil : s.acquire t [] = s := by
  simp [acquire]

@[simp] theorem surrender_nil : s.surrender t [] p = s := by
  simp [surrender]

theorem mem_drop_iff {α : Type} {l : List α} (h : l.Nodup) (n : Nat) (i : α) :
    i ∈ l.drop n ↔ i ∈ l ∧ i ∉ l.take n := by
  rw [← take_append_drop n l, nodup_append] at h
  constructor
  · intro hi
    exact ⟨mem_of_mem_drop hi, fun hi' => h.2.2 i hi' i hi rfl⟩
  · rintro ⟨hi, hi'⟩
    rw [← take_append_drop n l, mem_append] at hi
    exact hi.resolve_left hi'

/-- A step of the operation that a thread is in. -/
theorem Inv.go (h : Inv c s) {spurious : Bool} (hst : s.go t spurious = some s')
    (hops : ∀ call, s.call t = some call → (s.queues call.queue).pushed.length + 2 ^ 31 ≤ 2 ^ 62) :
    Inv c s' := by
  unfold Dispatcher.go at hst
  split at hst
  · cases hst
  rename_i call hcall
  obtain ⟨queue, hqueue, rfl⟩ := map_eq_some_iff.mp hst
  have hroom := hops call hcall
  have hold : ∀ call', s.call t = some call' → call' = call := by
    intro call' hc
    exact some.inj (hc.symm.trans hcall)
  have hother {q' : Shape} (hq' : q' ≠ call.queue) :
      (s.setQueue call.queue queue).queues q' = s.queues q' := update_of_ne hq' ..
  have hself : (s.setQueue call.queue queue).queues call.queue = queue := update_self ..
  -- the queues, once the new length is known to be small
  have hgood (hlen : queue.pushed.length < 2 ^ 62) :
      (∀ q', ReadyQueue.Inv readyQueueSize ((s.setQueue call.queue queue).queues q')) ∧
        ∀ q', ((s.setQueue call.queue queue).queues q').pushed.length < 2 ^ 62 :=
    ⟨forall_setQueue h.queues ((h.queues _).go (by decide) hqueue hlen),
      forall_setQueue (P := fun queue => queue.pushed.length < 2 ^ 62) h.pushed hlen⟩
  cases ReadyQueue.go_effect hqueue with
  | quiet pc hthread hpushed hdequeue hleft hpending hrefused =>
    obtain ⟨hinv, hlen⟩ := hgood (by rw [hpushed]; exact h.pushed _)
    simp only [hpushed, hleft, drop_length, Nat.sub_self, take_zero, surrender_nil,
      acquire_nil]
    refine h.shift (.stay rfl ?_) (by simp) (by simp) rfl hinv hlen ?_ rfl rfl
      fun _ hx => (by cases hx)
    · intro p _
      refine tasksAt_congr (fun _ _ => rfl) (fun _ _ _ => rfl) fun q' _ => contents_setQueue ?_
      rw [ReadyQueue.contents, ReadyQueue.contents, hpushed, hdequeue]
    · refine h.calls.move hcall rfl (fun _ _ => rfl) hold (by rw [hself, hthread])
        (fun q' => hother) (fun _ _ => rfl) ?_ ?_
      · intro p hp
        rcases hpending with hnone | hsame
        · rw [hnone] at hp
          cases hp
        · obtain ⟨call', hc, -, hpend, hrest⟩ := h.calls.pending t call.queue p (hsame ▸ hp)
          exact ⟨hold call' hc ▸ hpend, hrest⟩
      · -- what is refused is still in hand
        intro hpc x hpush
        have hr := hrefused hpc
        unfold ReadyQueue.refuses at hr
        split at hr
        · rename_i items pos i hseq
          obtain ⟨call', hc, -, hpend, -, hmem⟩ :=
            h.calls.pending t call.queue (false, items) (by rw [hseq]; rfl)
          rw [hold call' hc, hpush] at hpend
          cases hpend
          exact hmem x mem_cons_self
        · cases hr
  | claim batch items pos hpc hpos =>
    obtain ⟨call', hc, -, -, hnodup, hmem⟩ :=
      h.calls.pending t call.queue (batch, items) (by rw [hpc]; rfl)
    have hshort : items.length < 2 ^ 31 := by
      have hok := (h.queues call.queue).threads t
      rw [hpc] at hok
      exact hok.2.1
    obtain ⟨hinv, hlen⟩ := hgood (by
      show ((s.queues call.queue).pushed ++ items).length < 2 ^ 62
      rw [length_append]
      omega)
    have hentered : ((s.queues call.queue).claim t items pos).pushed.drop
        (s.queues call.queue).pushed.length = items := drop_left
    have htaken : ((s.queues call.queue).claim t items pos).left.length -
        (s.queues call.queue).left.length = 0 := Nat.sub_self _
    simp only [hentered, htaken, take_zero, acquire_nil]
    have hthread : ((s.setQueue call.queue ((s.queues call.queue).claim t items pos)).queues
        call.queue).thread =
          update (s.queues call.queue).thread t (.pushWrite items pos 0) := by
      rw [hself]
      rfl
    refine h.shift
      (move_surrender (b := .queue call.queue) h.placed hmem hnodup (by simp) rfl rfl ?_
      (fun _ _ _ => rfl) ?_) (by simp) (by simp) rfl hinv hlen ?_ rfl rfl ?_
    · intro _
      show (((s.setQueue call.queue _).queues call.queue).contents).Perm _
      rw [hself, ReadyQueue.contents_claim (h.queues call.queue)]
      rfl
    · intro q' hq'
      show ((s.setQueue call.queue _).queues q').contents = _
      rw [hother fun he => hq' (he ▸ rfl)]
    · exact h.calls.move hcall rfl (fun _ _ => rfl) hold hthread (fun q' => hother)
        (fun t' ht' => update_of_ne ht' ..) (fun _ h => by cases h) (by rintro ⟨⟩)
    · intro x hx
      have := h.tasks x
      rwa [(mem_hand_iff h).mp (hmem x hx)] at this
  | take maxCount pos count hpc hpos =>
    obtain ⟨hinv, hlen⟩ := hgood (h.pushed call.queue)
    have hentered : ((s.queues call.queue).take t pos count).pushed.drop
        (s.queues call.queue).pushed.length = [] := drop_length
    have htaken : ((s.queues call.queue).take t pos count).left.length -
        (s.queues call.queue).left.length = count := by
      show ((s.queues call.queue).left ++ range' pos count).length - _ = _
      rw [length_append, length_range']
      omega
    have hnodup := h.placed.nodup (.queue call.queue) trivial
    have hlabel (i : TaskId) (hi : i ∈ (s.queues call.queue).contents.take count) :
        s.place i = .queue call.queue :=
      (h.placed.mem_iff (.queue call.queue) trivial i).mp (mem_of_mem_take hi)
    have hthread : ((s.setQueue call.queue ((s.queues call.queue).take t pos count)).queues
        call.queue).thread =
          update (s.queues call.queue).thread t (.popRead pos count 0 []) := by
      rw [hself]
      rfl
    simp only [hentered, htaken, surrender_nil]
    refine h.shift (move_acquire hlabel (List.Nodup.sublist (take_sublist _ _) hnodup) (by simp) rfl
      rfl ?_ (fun _ _ _ => rfl) ?_) (by simp) (by simp) rfl hinv hlen ?_ rfl rfl ?_
    · intro _
      show (((s.setQueue call.queue _).queues call.queue).contents).Nodup ∧
        ∀ i, i ∈ ((s.setQueue call.queue _).queues call.queue).contents ↔ _
      have hinv' := hinv call.queue
      rw [hself] at hinv'
      rw [hself, ReadyQueue.contents_take (h.queues call.queue) hinv']
      exact ⟨List.Nodup.sublist (drop_sublist _ _) hnodup, mem_drop_iff hnodup count⟩
    · intro q' hq'
      show ((s.setQueue call.queue _).queues q').contents = _
      rw [hother fun he => hq' (he ▸ rfl)]
    · exact h.calls.move hcall rfl (fun _ _ => rfl) hold hthread (fun q' => hother)
        (fun t' ht' => update_of_ne ht' ..) (fun _ h => by cases h) (by rintro ⟨⟩)
    · intro x hx
      have := h.tasks x
      rwa [hlabel x hx] at this

/-- An operation of a thread is over. -/
theorem Calls.clear (h : Calls s) {r : Returned TaskId} (hcall : s.call t = some call)
    (hidle : (s.queues call.queue).thread t = .idle r) (hqueues : s'.queues = s.queues)
    (hcalls : s'.call = update s.call t none)
    (hhand : ∀ t', t' ≠ t → s'.hand t' = s.hand t') : Calls s' := by
  refine ⟨?_, ?_⟩
  · intro t' q p hp
    rw [hqueues] at hp
    obtain ⟨call', hc, hq, hrest⟩ := h.pending t' q p hp
    have ht : t' ≠ t := by
      rintro rfl
      cases hcall.symm.trans hc
      rw [← hq, hidle] at hp
      cases hp
    rw [hcalls, update_of_ne ht, hhand t' ht]
    exact ⟨call', hc, hq, hrest⟩
  · intro t' q x hc hidle'
    rw [hcalls, update_apply] at hc
    split_ifs at hc with ht
    rw [hhand t' ht]
    exact h.refused t' q x hc (hqueues ▸ hidle')

/-- A queue call returns. -/
theorem Inv.ret (h : Inv c s) (hst : s.ret t = some s') : Inv c s' := by
  unfold Dispatcher.ret at hst
  split at hst
  · cases hst
  rename_i call hcall
  split at hst <;> cases hst
  · rename_i q x hidle
    have hmem (i : TaskId) (hi : i ∈ [x]) : i ∈ s.hand t := by
      rw [mem_singleton.mp hi]
      exact h.calls.refused t q x hcall hidle
    refine h.shift (move_surrender (b := .dropped) h.placed hmem (pairwise_singleton _ _) nofun
      rfl rfl nofun (fun _ _ _ => rfl) fun _ _ => rfl) nofun nofun rfl h.queues h.pushed ?_ rfl rfl
      fun _ _ => trivial
    exact h.calls.clear hcall hidle rfl rfl fun t' ht' => update_of_ne ht' ..
  · rename_i r hno hidle
    exact h.shift (.stay rfl fun _ _ => rfl) nofun nofun rfl h.queues h.pushed
      (h.calls.clear hcall hidle rfl rfl fun _ _ => rfl) rfl rfl fun _ hx => (by cases hx)

end Dispatcher

end PtoRuntime.Tmrb
