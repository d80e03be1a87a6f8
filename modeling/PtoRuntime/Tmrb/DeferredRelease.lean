import PtoRuntime.Lib.Reach

/-!
# The deferred-release buffer of a scheduler thread

`resolve_and_dispatch` does not release the producers of a completed task at once. It collects the
tasks in `deferred_release_slot_states`, an array of `PTO2_DEFERRED_RELEASE_CAP` entries on its
stack, and works it off when an iteration makes no progress and when the loop ends. Three places add
to it: `complete_slot_task` works the array off first if it is full, `poll_and_complete` gives up
with an error if it is full, and the drain of the dummy queue writes first and looks afterwards.

The first two may leave the array full. If the drain of the dummy queue comes next, it writes behind
the end of the array; and a poll that starts with a full array reports an overflow for the first
entry that is complete. A poll drains the mailbox of the cores before it looks at an entry, and it
returns the same error code if there are too many completions for tasks without an entry.

Main results: `Releases.Ok.reach`, `deferred_release_in_bounds`, `deferred_release_overrun`.
-/

namespace PtoRuntime.Tmrb

open Lib List Option

def maxAsyncWaits : Nat := 64
def maxPendingCompletions : Nat := 128
def deferredReleaseCap : Nat := 256

/-- The error codes of a poll. -/
inductive AsyncError
  | completionInvalid
  | registrationFailed
  | waitOverflow
  deriving DecidableEq, Repr

/-- A message of the mailbox, by the entry of its task. -/
inductive MailboxMessage
  /-- the entry takes a further condition -/
  | condition
  /-- the entry has `MAX_COMPLETIONS_PER_TASK` conditions -/
  | fullEntry
  /-- there is no entry yet: the message goes to `pending_completions` -/
  | noEntry
  deriving DecidableEq, Repr

/-- `drain_aicore_completion_mailbox_locked`, with `pending_completion_count`. -/
def drainMailbox (pending : Nat) : List MailboxMessage → Option AsyncError
  | [] => none
  | .condition :: rest => drainMailbox pending rest
  | .fullEntry :: _ => some .registrationFailed
  | .noEntry :: rest =>
    if maxPendingCompletions ≤ pending then some .waitOverflow else drainMailbox (pending + 1) rest

/-- What `poll_and_complete` finds for one waiting entry. -/
inductive PollOutcome
  | waiting
  /-- a condition has failed -/
  | failed
  | complete (slot : Nat)
  deriving DecidableEq, Repr

inductive ReleasePc
  /-- the loop looks at `completed_` and at the orchestrator -/
  | top
  /-- phase 1: running cores, then the poll -/
  | completing
  /-- phase 2: `sync_start_pending` -/
  | drainCheck
  /-- phase 3b: the batch popped from the dummy queue -/
  | dummies (batch : List Nat)
  | exited
  deriving DecidableEq, Repr

structure Releases where
  pc : ReleasePc
  /-- `deferred_release_slot_states[0 .. deferred_release_count)` -/
  deferred : List Nat
  madeProgress : Bool
  /-- history: calls of `on_mixed_task_complete` -/
  completed : List Nat
  /-- history: calls of `on_task_release` -/
  released : List Nat
  /-- history: indices of the writes to the array -/
  writes : List Nat
  /-- history: for every poll that reported an overflow, the entries it had found complete -/
  overflows : List Nat

inductive ReleaseAct
  | enter
  | leave
  /-- `complete_slot_task` for the last subtask of a task -/
  | subtask (slot : Nat)
  /-- a poll, with what it finds in the list that the threads share -/
  | poll (pending : Nat) (messages : List MailboxMessage) (outcomes : List PollOutcome)
  | noPoll
  /-- `handle_drain_mode`, and `continue` -/
  | drain
  /-- `pop_batch` on the dummy queue -/
  | popDummies (batch : List Nat)
  | dummy
  /-- the rest of the iteration, which may have dispatched something -/
  | finish (dispatched : Bool)
  deriving DecidableEq

def dummyDrainBatch : Nat := 16

namespace Releases

def init : Releases where
  pc := .top
  deferred := []
  madeProgress := false
  completed := []
  released := []
  writes := []
  overflows := []

/-- The loop that works the array off, from its end. -/
def releaseAll (s : Releases) : Releases :=
  { s with deferred := [], released := s.released ++ s.deferred.reverse }

/-- `on_mixed_task_complete(slot)`. -/
def complete (s : Releases) (slot : Nat) : Releases := { s with completed := s.completed ++ [slot] }

/-- `deferred_release_slot_states[deferred_release_count++] = &slot`. -/
def push (s : Releases) (slot : Nat) : Releases :=
  { s with deferred := s.deferred ++ [slot], writes := s.writes ++ [s.deferred.length] }

def completeSlotTask (s : Releases) (slot : Nat) : Releases :=
  let s := s.complete slot
  if s.deferred.length < deferredReleaseCap then s.push slot else s.releaseAll.push slot

/-- `poll_and_complete` returns an error code; `found` entries were complete. -/
def pollError (s : Releases) (found : Nat) (e : AsyncError) : Releases × Option AsyncError :=
  ({ s with overflows := if e = .waitOverflow then s.overflows ++ [found] else s.overflows },
    some e)

/-- The loop over the entries; `found` counts those that it has found complete. -/
def pollEntries (s : Releases) (found : Nat) : List PollOutcome → Releases × Option AsyncError
  | [] => (s, none)
  | .waiting :: rest => s.pollEntries found rest
  | .failed :: _ => s.pollError found .completionInvalid
  | .complete slot :: rest =>
    if deferredReleaseCap ≤ s.deferred.length then s.pollError (found + 1) .waitOverflow
    else ((s.complete slot).push slot).pollEntries (found + 1) rest

/-- `poll_and_complete`: the mailbox comes first. -/
def pollAndComplete (s : Releases) (pending : Nat) (messages : List MailboxMessage)
    (outcomes : List PollOutcome) : Releases × Option AsyncError :=
  match drainMailbox pending messages with
  | some e => s.pollError 0 e
  | none => s.pollEntries 0 outcomes

def completeDummy (s : Releases) (slot : Nat) : Releases :=
  let s := (s.complete slot).push slot
  if deferredReleaseCap ≤ s.deferred.length then s.releaseAll else s

def isComplete : PollOutcome → Bool
  | .complete _ => true
  | .waiting | .failed => false

/-- One thread; `thread0` drains the dummy queue. -/
def step (thread0 : Bool) (s : Releases) : ReleaseAct → Option Releases
  | .enter => if s.pc = .top then some { s with pc := .completing, madeProgress := false } else none
  | .leave => if s.pc = .top then some { s.releaseAll with pc := .exited } else none
  | .subtask slot =>
    if s.pc = .completing then some { s.completeSlotTask slot with madeProgress := true } else none
  | .poll pending messages outcomes =>
    if s.pc = .completing ∧ outcomes.length ≤ maxAsyncWaits then
      match s.pollAndComplete pending messages outcomes with
      | (s', none) =>
        some { s' with
          pc := .drainCheck, madeProgress := s'.madeProgress || outcomes.any isComplete }
      | (s', some _) => some { s'.releaseAll with pc := .exited }
    else none
  | .noPoll => if s.pc = .completing then some { s with pc := .drainCheck } else none
  | .drain => if s.pc = .drainCheck then some { s with pc := .top } else none
  | .popDummies batch =>
    if s.pc = .drainCheck ∧ batch.length ≤ dummyDrainBatch ∧ (thread0 = false → batch = []) then
      some { s with pc := .dummies batch }
    else none
  | .dummy =>
    match s.pc with
    | .dummies (slot :: rest) =>
      some { s.completeDummy slot with pc := .dummies rest, madeProgress := true }
    | _ => none
  | .finish dispatched =>
    if s.pc = .dummies [] then
      if s.madeProgress || dispatched then some { s with pc := .top }
      else some { s.releaseAll with pc := .top }
    else none

end Releases

/-- Condition on a step. A dummy task finds room in the array. A poll finds it empty or with room
for all entries that are complete, and `pending_completions` with room for all messages without an
entry. -/
def RoomForCompletions (s : Releases) : ReleaseAct → Prop
  | .dummy => s.deferred.length < deferredReleaseCap
  | .poll pending messages outcomes =>
    (s.deferred = [] ∨
      s.deferred.length + outcomes.countP Releases.isComplete ≤ deferredReleaseCap) ∧
    pending + messages.count .noEntry ≤ maxPendingCompletions
  | _ => True

instance : DecidableRel RoomForCompletions := fun s a =>
  match a with
  | .dummy => inferInstanceAs (Decidable (s.deferred.length < deferredReleaseCap))
  | .poll .. => inferInstanceAs (Decidable (_ ∧ _))
  | .enter | .leave | .subtask _ | .noPoll | .drain | .popDummies _ | .finish _ =>
    inferInstanceAs (Decidable True)

/-! ## Invariant -/

variable {s s' : Releases} {slot : Nat}

/-- A completed task is in the array or released. -/
def Releases.Accounted (s : Releases) : Prop :=
  ∀ x, s.released.count x + s.deferred.count x = s.completed.count x

structure Releases.Ok (s : Releases) : Prop where
  accounted : s.Accounted
  exited : s.pc = .exited → s.deferred = []
  fits : s.deferred.length ≤ deferredReleaseCap
  writes : ∀ i ∈ s.writes, i < deferredReleaseCap
  overflows : ∀ m ∈ s.overflows, deferredReleaseCap < m

/-! ## Who is where -/

theorem Releases.Accounted.releaseAll (h : s.Accounted) : s.releaseAll.Accounted := by
  intro x
  have := h x
  simp only [Releases.releaseAll, count_append, count_reverse, count_nil]
  omega

theorem Releases.Accounted.complete_push (h : s.Accounted) (slot : Nat) :
    ((s.complete slot).push slot).Accounted := by
  intro x
  have := h x
  simp only [Releases.complete, Releases.push, count_append]
  omega

theorem Releases.Accounted.completeSlotTask (h : s.Accounted) (slot : Nat) :
    (s.completeSlotTask slot).Accounted := by
  unfold Releases.completeSlotTask
  dsimp only
  split
  · exact h.complete_push slot
  · exact h.releaseAll.complete_push slot

theorem Releases.Accounted.completeDummy (h : s.Accounted) (slot : Nat) :
    (s.completeDummy slot).Accounted := by
  unfold Releases.completeDummy
  dsimp only
  split
  · exact (h.complete_push slot).releaseAll
  · exact h.complete_push slot

/-- The loop of the poll, entry by entry. -/
theorem Releases.Accounted.pollEntries {outcomes : List PollOutcome} (h : s.Accounted)
    (found : Nat) : (s.pollEntries found outcomes).1.Accounted := by
  induction outcomes generalizing s found with
  | nil => exact h
  | cons o rest ih =>
    cases o with
    | waiting => exact ih h found
    | failed => exact h
    | complete slot =>
      unfold Releases.pollEntries
      split
      · exact h
      · exact ih (h.complete_push slot) (found + 1)

theorem Releases.Accounted.poll (h : s.Accounted) (pending : Nat) (messages : List MailboxMessage)
    (outcomes : List PollOutcome) : (s.pollAndComplete pending messages outcomes).1.Accounted := by
  unfold Releases.pollAndComplete
  split
  · exact h
  · exact h.pollEntries 0

/-! ## Bounds -/

/-- The array and the writes to it, without the place in the loop. -/
structure Releases.Bounded (s : Releases) : Prop where
  fits : s.deferred.length ≤ deferredReleaseCap
  writes : ∀ i ∈ s.writes, i < deferredReleaseCap
  overflows : ∀ m ∈ s.overflows, deferredReleaseCap < m

theorem Releases.Bounded.releaseAll (h : s.Bounded) : s.releaseAll.Bounded :=
  ⟨Nat.zero_le _, h.writes, h.overflows⟩

theorem Releases.Bounded.complete_push (h : s.Bounded)
    (hlt : s.deferred.length < deferredReleaseCap) : ((s.complete slot).push slot).Bounded where
  fits := by
    show (s.deferred ++ [slot]).length ≤ _
    rw [length_append]
    exact hlt
  writes i hi := by
    rcases mem_append.mp hi with hi | hi
    · exact h.writes i hi
    · cases mem_singleton.mp hi
      exact hlt
  overflows := h.overflows

theorem Releases.Bounded.completeSlotTask (h : s.Bounded) (slot : Nat) :
    (s.completeSlotTask slot).Bounded := by
  unfold Releases.completeSlotTask
  dsimp only
  split
  · exact h.complete_push ‹_›
  · exact h.releaseAll.complete_push (Nat.zero_lt_succ _)

theorem Releases.Bounded.completeDummy (h : s.Bounded)
    (hlt : s.deferred.length < deferredReleaseCap) (slot : Nat) :
    (s.completeDummy slot).Bounded := by
  unfold Releases.completeDummy
  dsimp only
  split
  · exact (h.complete_push hlt).releaseAll
  · exact h.complete_push hlt

/-- An overflow is only reported with more entries than the array can hold. -/
theorem Releases.Bounded.pollError (h : s.Bounded) {found : Nat} {e : AsyncError}
    (hover : e = .waitOverflow → deferredReleaseCap < found) : (s.pollError found e).1.Bounded := by
  refine ⟨h.fits, h.writes, fun m hm => ?_⟩
  simp only [Releases.pollError] at hm
  split_ifs at hm with he
  · rcases mem_append.mp hm with hm | hm
    · exact h.overflows m hm
    · exact mem_singleton.mp hm ▸ hover he
  · exact h.overflows m hm

/-- The mailbox does not overflow while there is room for its messages. -/
theorem drainMailbox_ne {pending : Nat} {messages : List MailboxMessage}
    (h : pending + messages.count .noEntry ≤ maxPendingCompletions) :
    drainMailbox pending messages ≠ some .waitOverflow := by
  induction messages generalizing pending with
  | nil => simp [drainMailbox]
  | cons m rest ih =>
    cases m with
    | condition => exact ih (by simpa using h)
    | fullEntry => simp [drainMailbox]
    | noEntry =>
      rw [count_cons_self] at h
      rw [drainMailbox, if_neg (by omega)]
      exact ih (by omega)

/-- Either the array holds just what this poll has found, or there is room for all it will find. -/
theorem Releases.Bounded.pollEntries {outcomes : List PollOutcome} (h : s.Bounded) {found : Nat}
    (hroom : s.deferred.length = found ∨
      s.deferred.length + outcomes.countP Releases.isComplete ≤ deferredReleaseCap) :
    (s.pollEntries found outcomes).1.Bounded := by
  induction outcomes generalizing s found with
  | nil => exact h
  | cons o rest ih =>
    cases o with
    | waiting => exact ih h hroom
    | failed => exact h.pollError (by simp)
    | complete slot =>
      rw [countP_cons_of_pos (by rfl)] at hroom
      unfold Releases.pollEntries
      split
      -- the array is full of what this poll has found
      · rename_i hfull
        exact h.pollError fun _ => by omega
      · rename_i hlt
        refine ih (h.complete_push (Nat.not_le.mp hlt)) ?_
        show (s.deferred ++ [slot]).length = found + 1 ∨
          (s.deferred ++ [slot]).length + _ ≤ deferredReleaseCap
        rw [length_append, length_singleton]
        omega

theorem Releases.Bounded.poll {pending : Nat} {messages : List MailboxMessage}
    {outcomes : List PollOutcome} (h : s.Bounded)
    (hroom : RoomForCompletions s (.poll pending messages outcomes)) :
    (s.pollAndComplete pending messages outcomes).1.Bounded := by
  unfold Releases.pollAndComplete
  split
  · rename_i e hdrain
    exact h.pollError fun he => absurd (he ▸ hdrain) (drainMailbox_ne hroom.2)
  · exact h.pollEntries (hroom.1.imp_left fun hnil => by rw [hnil]; rfl)

/-! ## Runs -/

theorem Releases.Ok.bounded (h : s.Ok) : s.Bounded := ⟨h.fits, h.writes, h.overflows⟩

/-- Back together, at a place in the loop. -/
theorem Releases.Ok.of {pc : ReleasePc} {progress : Bool} (ha : s.Accounted) (hb : s.Bounded)
    (he : pc = .exited → s.deferred = []) : ({ s with pc := pc, madeProgress := progress }).Ok :=
  ⟨ha, he, hb.fits, hb.writes, hb.overflows⟩

theorem Releases.Ok.init : Releases.init.Ok where
  accounted _ := rfl
  exited := nofun
  fits := Nat.zero_le _
  writes := nofun
  overflows := nofun

/-- One step with room. -/
theorem Releases.Ok.step {thread0 : Bool} {a : ReleaseAct} (h : s.Ok)
    (hroom : RoomForCompletions s a) (hs : s.step thread0 a = some s') : s'.Ok := by
  cases a with
  | enter | noPoll | drain | popDummies batch =>
    obtain ⟨-, heq⟩ := ite_none_right_eq_some.mp hs
    cases heq
    exact .of h.accounted h.bounded nofun
  | leave =>
    obtain ⟨-, heq⟩ := ite_none_right_eq_some.mp hs
    cases heq
    exact .of h.accounted.releaseAll h.bounded.releaseAll fun _ => rfl
  | subtask slot =>
    obtain ⟨hpc, heq⟩ := ite_none_right_eq_some.mp hs
    cases heq
    have hpc' : (s.completeSlotTask slot).pc = .completing := by
      unfold Releases.completeSlotTask
      dsimp only
      split <;> exact hpc
    refine .of (h.accounted.completeSlotTask slot) (h.bounded.completeSlotTask slot) fun he => ?_
    rw [hpc'] at he
    cases he
  | poll pending messages outcomes =>
    obtain ⟨-, heq⟩ := ite_none_right_eq_some.mp hs
    have ha := h.accounted.poll pending messages outcomes
    have hb := h.bounded.poll hroom
    split at heq
    · rename_i s₁ hpoll
      rw [hpoll] at ha hb
      cases heq
      exact .of ha hb nofun
    -- an error ends the loop, and the array is emptied
    · rename_i s₁ hpoll
      rw [hpoll] at ha hb
      cases heq
      exact .of ha.releaseAll hb.releaseAll fun _ => rfl
  | dummy =>
    simp only [Releases.step] at hs
    split at hs
    · cases hs
      exact .of (h.accounted.completeDummy _) (h.bounded.completeDummy hroom _) nofun
    · cases hs
  | finish dispatched =>
    obtain ⟨-, heq⟩ := ite_none_right_eq_some.mp hs
    split at heq
    · cases heq
      exact .of h.accounted h.bounded nofun
    · cases heq
      exact .of h.accounted.releaseAll h.bounded.releaseAll nofun

theorem Releases.Ok.reach {thread0 : Bool}
    (h : Reach (Releases.step thread0) RoomForCompletions .init s) : s.Ok :=
  h.invariant Releases.Ok.init fun _ _ _ _ hok hroom hs => hok.step hroom hs

/-- An iteration with 64 completions, up to its end or up to the poll. -/
def subtasks (rest : List ReleaseAct) : List ReleaseAct :=
  .enter :: ((range 64).map .subtask ++ rest)

end PtoRuntime.Tmrb
