import PtoRuntime.Lib.Reach

/-!
# The drain of a sync_start task

A task with `require_sync_start` starts all its blocks together. When a scheduler thread has not
enough idle cores for it, it enters drain mode: the task is put into `pending_task` and its block
count into `sync_start_pending`, and every scheduler thread comes to `handle_drain_mode` after its
next round of completions. There they meet at an ack barrier and elect a worker. The worker counts
the idle cores of all threads. If there are enough it dispatches all blocks and clears the drain;
otherwise it resets barrier and election, and everybody goes back to completions.

Every atomic operation is a step of its own. The idle cores of a thread's tracker are a number: it
grows when the thread finds completions in its loop, and shrinks when it dispatches, which it does
only in an iteration in which it has found no drain pending.

Main results: `drain_exclusive`, `drain_two_rounds`.
-/

namespace PtoRuntime.Tmrb

open Lib Function List Option

structure DrainConfig (τ : Type) where
  activeSchedThreads : Nat
  blockNum : τ → Nat            -- `logical_block_num`
  blockNum_pos : ∀ x, 0 < blockNum x

/-- Where a scheduler thread is. -/
inductive DrainPc (τ : Type)
  | loop                                  -- the scheduling loop, outside of the drain
  -- `enter_drain_mode`, after its compare-and-swap
  | enterTask (x : τ)
  | enterAck (x : τ)
  | enterElected (x : τ)
  | enterPending (x : τ)
  -- `handle_drain_mode`
  | spin
  | ack (n : Nat)
  | wait (n : Nat)
  | elect (n : Nat)
  | check (n : Nat)
  | followPending
  | followElected
  -- the elected thread
  | task (n : Nat)
  | count (n i available : Nat)
  | resetAck
  | resetElected
  -- `drain_worker_dispatch`
  | worker (n : Nat)
  | tracker (n : Nat) (x : τ) (i : Nat)
  | block (n : Nat) (x : τ) (i valid : Nat)
  | clearTask
  | clearAck
  | clearElected
  | clearPending
  | fault                                 -- a null `pending_task` was dereferenced
  deriving DecidableEq

/-- `SyncStartDrainState`, with what the drain reads and writes of the scheduler. -/
structure Drain (τ : Type) where
  syncStartPending : Int
  drainWorkerElected : Nat
  drainAckMask : Nat → Bool
  pendingTask : Option τ
  nextBlockIdx : τ → Nat
  idle : Nat → Nat                        -- idle cores in a thread's tracker
  passed : Nat → Bool                     -- found no drain pending in this iteration
  thread : Nat → DrainPc τ
  -- history
  round : Nat                             -- elections won so far
  dispatched : List (τ × Nat × Nat)       -- task, block and round

namespace Drain

variable {τ : Type}

def init (idle : Nat → Nat) : Drain τ where
  syncStartPending := 0
  drainWorkerElected := 0
  drainAckMask _ := false
  pendingTask := none
  nextBlockIdx _ := 0
  idle := idle
  passed _ := false
  thread _ := .loop
  round := 0
  dispatched := []

inductive Act (τ : Type)
  | enter (t : Nat) (x : τ)      -- `enter_drain_mode`
  | handle (t : Nat)             -- `handle_drain_mode`
  | go (t : Nat)
  | poll (t idle : Nat)          -- completions and dispatches of a thread in its loop
  | claim (x : τ) (k : Nat)      -- the dispatch of `k` blocks outside of the drain

def setPc (s : Drain τ) (t : Nat) (pc : DrainPc τ) : Drain τ :=
  { s with thread := update s.thread t pc, passed := update s.passed t false }

/-- `(ack & all_acked) == all_acked`. -/
def AllAcked (c : DrainConfig τ) (s : Drain τ) : Prop :=
  ∀ i < c.activeSchedThreads, s.drainAckMask i = true

instance (c : DrainConfig τ) (s : Drain τ) : Decidable (s.AllAcked c) :=
  inferInstanceAs (Decidable (∀ i < _, _))

variable [DecidableEq τ] (c : DrainConfig τ)

/-- `dispatch_block` of the next block of `x` to a core of tracker `i`. -/
def dispatchBlock (s : Drain τ) (x : τ) (i : Nat) : Drain τ :=
  { s with
    nextBlockIdx := update s.nextBlockIdx x (s.nextBlockIdx x + 1)
    idle := update s.idle i (s.idle i - 1)
    dispatched := (x, s.nextBlockIdx x, s.round) :: s.dispatched }

def go (s : Drain τ) (t : Nat) : Option (Drain τ) :=
  match s.thread t with
  | .loop | .fault => none
  | .enterTask x => some { s.setPc t (.enterAck x) with pendingTask := some x }
  | .enterAck x => some { s.setPc t (.enterElected x) with drainAckMask := fun _ => false }
  | .enterElected x => some { s.setPc t (.enterPending x) with drainWorkerElected := 0 }
  | .enterPending x => some { s.setPc t .loop with syncStartPending := c.blockNum x }
  | .spin =>
    some (if s.syncStartPending < 0 then s
      else s.setPc t (if s.syncStartPending = 0 then .loop else .ack s.syncStartPending.toNat))
  | .ack n =>
    some { s.setPc t (.wait n) with drainAckMask := update s.drainAckMask t true }
  | .wait n =>
    some (if s.AllAcked c then s.setPc t (.elect n)
      else if s.drainAckMask t = false then s.setPc t .loop else s)
  | .elect n =>
    some (if s.drainWorkerElected = 0 then
        { s.setPc t (.check n) with drainWorkerElected := t + 1, round := s.round + 1 }
      else s.setPc t (.check n))
  | .check n => some (s.setPc t (if s.drainWorkerElected = t + 1 then .task n else .followPending))
  | .followPending => some (s.setPc t (if s.syncStartPending = 0 then .loop else .followElected))
  | .followElected =>
    some (s.setPc t (if s.drainWorkerElected = 0 then .loop else .followPending))
  | .task n => some (s.setPc t (if s.pendingTask.isNone then .fault else .count n 0 0))
  | .count n i available =>
    some (s.setPc t (if i < c.activeSchedThreads then .count n (i + 1) (available + s.idle i)
      else if available < n then .resetAck else .worker n))
  | .resetAck => some { s.setPc t .resetElected with drainAckMask := fun _ => false }
  | .resetElected => some { s.setPc t .loop with drainWorkerElected := 0 }
  | .worker n =>
    some (match s.pendingTask with
      | none => { s.setPc t .loop with syncStartPending := 0 }
      | some x => s.setPc t (.tracker n x 0))
  | .tracker n x i =>
    some (s.setPc t (if i < c.activeSchedThreads ∧ s.nextBlockIdx x < n then .block n x i (s.idle i)
      else .clearTask))
  | .block n x i valid =>
    some (if 0 < valid ∧ s.nextBlockIdx x < n then
        (s.dispatchBlock x i).setPc t (.block n x i (valid - 1))
      else s.setPc t (.tracker n x (i + 1)))
  | .clearTask => some { s.setPc t .clearAck with pendingTask := none }
  | .clearAck => some { s.setPc t .clearElected with drainAckMask := fun _ => false }
  | .clearElected => some { s.setPc t .clearPending with drainWorkerElected := 0 }
  | .clearPending => some { s.setPc t .loop with syncStartPending := 0 }

/-- No drain of `x` is under way. -/
def Undrained (s : Drain τ) (x : τ) : Prop :=
  s.pendingTask ≠ some x ∧ ∀ t < c.activeSchedThreads, s.thread t ≠ .enterTask x

instance (s : Drain τ) (x : τ) : Decidable (s.Undrained c x) := inferInstanceAs (Decidable (_ ∧ _))

/-- A sync_start task is dispatched all at once or entered into the drain, so none of its blocks
has been dispatched when `enter_drain_mode` is called. -/
def step (s : Drain τ) : Act τ → Option (Drain τ)
  | .enter t x =>
    if t < c.activeSchedThreads ∧ s.thread t = .loop ∧ s.nextBlockIdx x = 0 then
      some (if s.syncStartPending = 0 then { s.setPc t (.enterTask x) with syncStartPending := -1 }
        else s)
    else none
  | .handle t =>
    if t < c.activeSchedThreads ∧ s.thread t = .loop ∧ s.syncStartPending ≠ 0 then
      some (s.setPc t .spin) else none
  | .go t => s.go c t
  | .poll t idle =>
    if t < c.activeSchedThreads ∧ s.thread t = .loop ∧ (s.idle t ≤ idle ∨ s.passed t = true) then
      -- completions begin an iteration, and the test of `sync_start_pending` comes next
      some { s with
        idle := update s.idle t idle
        passed := update s.passed t
          (s.syncStartPending = 0 || s.passed t && decide (idle ≤ s.idle t)) }
    else none
  | .claim x k =>
    if s.Undrained c x ∧ s.nextBlockIdx x + k ≤ c.blockNum x then
      some { s with nextBlockIdx := update s.nextBlockIdx x (s.nextBlockIdx x + k) }
    else none

end Drain

/-! ## Threads -/

namespace DrainPc

variable {τ : Type}

/-- The thread is inside `handle_drain_mode`. -/
def Inside : DrainPc τ → Prop
  | .loop | .enterTask _ | .enterAck _ | .enterElected _ | .enterPending _ => False
  | _ => True

/-- The thread counts free cores or dispatches the drained task. -/
def Working : DrainPc τ → Prop
  | .task _ | .count _ _ _ | .worker _ | .tracker _ _ _ | .block _ _ _ _ => True
  | _ => False

/-- The thread is inside `enter_drain_mode` and owns the drain slot. -/
def Entering : DrainPc τ → Prop
  | .enterTask _ | .enterAck _ | .enterElected _ | .enterPending _ => True
  | _ => False

end DrainPc

namespace Drain

variable {τ : Type} {c : DrainConfig τ} {s s' : Drain τ} {t t' : Nat} {pc : DrainPc τ}
variable {idle : Nat → Nat} {i : Nat} {x : τ}

/-- What is known of a thread from where it is. A bit in the ack mask is set only while its
thread is inside, and once the thread has seen all bits set they stay set as long as its own
does. -/
def Ok (c : DrainConfig τ) (s : Drain τ) (t : Nat) : DrainPc τ → Prop
  | .loop | .spin | .ack _ => s.drainAckMask t = false ∧ s.drainWorkerElected ≠ t + 1
  | .enterTask _ | .enterAck _ | .enterElected _ | .enterPending _ =>
    s.drainAckMask t = false ∧ s.drainWorkerElected ≠ t + 1 ∧ s.syncStartPending = -1
  | .wait _ => s.drainWorkerElected ≠ t + 1
  | .elect _ => s.drainWorkerElected ≠ t + 1 ∧ (s.drainAckMask t = true → s.AllAcked c)
  | .check n =>
    (s.drainWorkerElected = t + 1 → s.AllAcked c ∧ s.syncStartPending = n) ∧
      (s.drainAckMask t = true → s.AllAcked c ∧ s.drainWorkerElected ≠ 0)
  | .followPending | .followElected =>
    s.drainWorkerElected ≠ t + 1 ∧
      (s.drainAckMask t = true → s.AllAcked c ∧ s.drainWorkerElected ≠ 0)
  | .task n | .count n _ _ | .worker n | .tracker n _ _ | .block n _ _ _ =>
    s.drainWorkerElected = t + 1 ∧ s.AllAcked c ∧ s.syncStartPending = n
  | .resetAck | .clearTask | .clearAck =>
    s.drainWorkerElected = t + 1 ∧ s.AllAcked c ∧ 0 < s.syncStartPending
  | .resetElected | .clearElected =>
    s.drainWorkerElected = t + 1 ∧ s.drainAckMask t = false ∧ 0 < s.syncStartPending
  | .clearPending =>
    s.drainWorkerElected = 0 ∧ s.drainAckMask t = false ∧ 0 < s.syncStartPending
  | .fault => False

structure Control (c : DrainConfig τ) (s : Drain τ) : Prop where
  ok : ∀ t < c.activeSchedThreads, Ok c s t (s.thread t)
  outside : ∀ t, c.activeSchedThreads ≤ t → s.thread t = .loop ∧ s.drainWorkerElected ≠ t + 1
  -- without a drain somebody is still to come to the barrier
  missing : s.syncStartPending ≤ 0 →
    ∃ w < c.activeSchedThreads, s.drainAckMask w = false ∧ ∀ n, s.thread w ≠ .ack n
  elected : s.drainWorkerElected ≠ 0 → 0 < s.syncStartPending
  entering : ∀ t t', (s.thread t).Entering → (s.thread t').Entering → t = t'
  clearing : ∀ t t', s.thread t = .clearPending → s.thread t' = .clearPending → t = t'

/-! ## What the others do -/

/-- Another thread sets its ack bit. -/
theorem Ok.setAck (h : Ok c s t' pc) (hne : t' ≠ t) :
    Ok c { s with drainAckMask := update s.drainAckMask t true } t' pc := by
  have hbit : update s.drainAckMask t true t' = s.drainAckMask t' :=
    update_of_ne hne ..
  have hall (ha : s.AllAcked c) :
      AllAcked c { s with drainAckMask := update s.drainAckMask t true } :=
    (forall_update_iff s.drainAckMask fun i bit => i < c.activeSchedThreads → bit = true).mpr
      ⟨fun _ => rfl, fun i _ => ha i⟩
  cases pc <;> simp only [Ok, hbit] at h ⊢ <;> grind -ring -linarith

/-- The ack mask is cleared by the elected thread, or before there is one. -/
theorem Ok.clearMask (h : Ok c s t' pc) (hne : s.drainWorkerElected ≠ t' + 1) :
    Ok c { s with drainAckMask := fun _ => false } t' pc := by
  cases pc <;> simp only [Ok] at h ⊢ <;> grind -ring -linarith

/-- Another thread wins the election. -/
theorem Ok.setElected (h : Ok c s t' pc) (ht' : t' < c.activeSchedThreads) (hne : t' ≠ t)
    (hzero : s.drainWorkerElected = 0) (hall : s.AllAcked c) :
    Ok c { s with drainWorkerElected := t + 1 } t' pc := by
  have hbit : s.drainAckMask t' = true := hall t' ht'
  have hall' : AllAcked c { s with drainWorkerElected := t + 1 } := hall
  cases pc <;> simp only [Ok] at h ⊢ <;> grind -ring -linarith

/-- The election is reset by a thread whose ack bit is not set. -/
theorem Ok.clearElected (h : Ok c s t' pc) (ht : t < c.activeSchedThreads)
    (hbit : s.drainAckMask t = false) (hne : s.drainWorkerElected ≠ t' + 1) :
    Ok c { s with drainWorkerElected := 0 } t' pc := by
  have hnot : ¬ s.AllAcked c := fun ha => by
    rw [ha t ht] at hbit
    cases hbit
  cases pc <;> simp only [Ok] at h ⊢ <;> grind -ring -linarith

/-- `sync_start_pending` is written while no worker is elected. -/
theorem Ok.setPending (h : Ok c s t' pc) {n : Int} (hzero : s.drainWorkerElected = 0)
    (henter : ¬ pc.Entering) (hclear : pc ≠ .clearPending) :
    Ok c { s with syncStartPending := n } t' pc := by
  have hall : AllAcked c { s with syncStartPending := n } ↔ s.AllAcked c := .rfl
  cases pc <;> simp only [Ok, hall, DrainPc.Entering] at h henter ⊢ <;> grind -ring -linarith

/-- One thread moves on, and the shared words may change. -/
theorem Control.turn (h : Control c s) (hthread : s'.thread = update s.thread t pc)
    (ht : t < c.activeSchedThreads) (hself : Ok c s' t pc)
    (hother : ∀ t' < c.activeSchedThreads, t' ≠ t → Ok c s t' (s.thread t') →
      Ok c s' t' (s.thread t'))
    (helected : s'.drainWorkerElected = s.drainWorkerElected ∨ s'.drainWorkerElected = 0 ∨
      s'.drainWorkerElected = t + 1)
    (hmissing : s'.syncStartPending ≤ 0 → s'.drainAckMask t = false ∧ (∀ n, pc ≠ .ack n) ∨
      s.syncStartPending ≤ 0 ∧ (∀ w, w ≠ t → s.drainAckMask w = false → s'.drainAckMask w = false) ∧
        ((∃ n, s.thread t = .ack n) ∨ s.drainAckMask t = true))
    (hpending : s'.drainWorkerElected ≠ 0 → 0 < s'.syncStartPending)
    (hentering : pc.Entering → (s.thread t).Entering ∨ ∀ t', ¬ (s.thread t').Entering)
    (hclearing : pc = .clearPending → ∀ t', s.thread t' ≠ .clearPending) : Control c s' := by
  refine ⟨fun t' ht' => ?_, fun t' ht' => ?_, fun hp => ?_, hpending, fun t₁ t₂ h₁ h₂ => ?_,
    fun t₁ t₂ h₁ h₂ => ?_⟩
  · rw [hthread, update_apply]
    split
    · rename_i he
      exact he ▸ hself
    · rename_i hne
      exact hother t' ht' hne (h.ok t' ht')
  · have hne : t' ≠ t := by omega
    rw [hthread, update_of_ne hne]
    obtain ⟨hloop, hel⟩ := h.outside t' ht'
    refine ⟨hloop, ?_⟩
    rcases helected with he | he | he <;> omega
  · -- the missing thread is the one that moves, or the one from before
    rcases hmissing hp with ⟨hbit, hack⟩ | ⟨hp', hmask, hpc⟩
    · exact ⟨t, ht, hbit, by rw [hthread, update_self]; exact hack⟩
    · obtain ⟨w, hw, hbit, hack⟩ := h.missing hp'
      have hne : w ≠ t := by
        rintro rfl
        rcases hpc with ⟨n, hn⟩ | htrue
        · exact hack n hn
        · rw [htrue] at hbit
          cases hbit
      exact ⟨w, hw, hmask w hne hbit, by rw [hthread, update_of_ne hne]; exact hack⟩
  · rw [hthread, update_apply] at h₁ h₂
    have := h.entering
    grind -ring -linarith
  · rw [hthread, update_apply] at h₁ h₂
    have := h.clearing
    grind -ring -linarith

/-- A thread takes part in an election only while its ack bit is set and the block count it has
loaded is the one of the pending task. -/
def DrainGuard (s : Drain τ) : Act τ → Prop
  | .go t => ∀ n, s.thread t = .elect n → s.drainAckMask t = true ∧ s.syncStartPending = n
  | .enter _ _ | .handle _ | .poll _ _ | .claim _ _ => True

namespace Control

/-- A step that moves a thread on and touches nothing shared. -/
theorem setPc (h : Control c s) (ht : t < c.activeSchedThreads) (hself : Ok c s t pc)
    (hack : s.syncStartPending ≤ 0 → ∀ n, pc ≠ .ack n) (hentering : ¬ pc.Entering)
    (hclearing : pc ≠ .clearPending) : Control c (s.setPc t pc) := by
  refine h.turn rfl ht hself (fun _ _ _ => id) (.inl rfl)
    (fun hp => ?_) h.elected (fun he => absurd he hentering) fun he => absurd he hclearing
  cases hbit : s.drainAckMask t with
  | false => exact .inl ⟨hbit, hack hp⟩
  | true => exact .inr ⟨hp, fun _ _ => id, .inr rfl⟩

theorem lt_of_ne_loop (h : Control c s) (hne : s.thread t ≠ .loop) : t < c.activeSchedThreads := by
  by_contra hge
  exact hne (h.outside t (by omega)).1

/-- All bits set means that a drain is pending. -/
theorem pending_of_allAcked (h : Control c s) (hall : s.AllAcked c) : 0 < s.syncStartPending := by
  by_contra hle
  obtain ⟨w, hw, hbit, -⟩ := h.missing (by omega)
  rw [hall w hw] at hbit
  cases hbit

/-- Without a pending drain nobody is elected. -/
theorem elected_of_pending (h : Control c s) (hp : s.syncStartPending ≤ 0) :
    s.drainWorkerElected = 0 := by
  by_contra hne
  exact absurd (h.elected hne) (Int.not_lt.mpr hp)

theorem pending_of_entering (h : Control c s) (he : (s.thread t).Entering) :
    s.syncStartPending = -1 := by
  have hne : s.thread t ≠ .loop := fun hl => by
    rw [hl] at he
    exact he
  have hok := h.ok t (h.lt_of_ne_loop hne)
  cases hpc : s.thread t <;> simp only [hpc, DrainPc.Entering, Ok] at he hok
  all_goals exact hok.2.2

theorem not_entering (h : Control c s) (hp : 0 < s.syncStartPending) (t' : Nat) :
    ¬ (s.thread t').Entering := fun he => by
  have := h.pending_of_entering he
  omega

theorem not_clearing (h : Control c s) (hne : s.drainWorkerElected ≠ 0) (t' : Nat) :
    s.thread t' ≠ .clearPending := fun hpc => by
  have hok := h.ok t' (h.lt_of_ne_loop (by rw [hpc]; nofun))
  rw [hpc] at hok
  exact hne hok.1

/-- A clearing thread has a drain pending, too. -/
theorem not_clearing_of_pending (h : Control c s) (hp : s.syncStartPending ≤ 0) (t' : Nat) :
    s.thread t' ≠ .clearPending := fun hpc => by
  have hok := h.ok t' (h.lt_of_ne_loop (by rw [hpc]; nofun))
  rw [hpc] at hok
  exact absurd hok.2.2 (Int.not_lt.mpr hp)

/-- The worker is the elected thread, all have acked. -/
theorem working (h : Control c s) (hw : (s.thread t).Working) :
    s.drainWorkerElected = t + 1 ∧ s.AllAcked c := by
  have hne : s.thread t ≠ .loop := fun hl => by
    rw [hl] at hw
    exact hw
  have hok := h.ok t (h.lt_of_ne_loop hne)
  cases hpc : s.thread t <;> simp only [hpc, DrainPc.Working, Ok] at hw hok
  all_goals exact ⟨hok.1, hok.2.1⟩

end Control

/-- The thread at its place, and what is known of it there. -/
theorem Control.at (h : Control c s) (hpc : s.thread t = pc) (hne : pc ≠ .loop) :
    t < c.activeSchedThreads ∧ Ok c s t pc := by
  have ht := h.lt_of_ne_loop (t := t) (by rw [hpc]; exact hne)
  exact ⟨ht, hpc ▸ h.ok t ht⟩

section Steps

variable [DecidableEq τ]

/-- A thread goes on. -/
theorem Control.go (h : Control c s) (hok : DrainGuard s (.go t))
    (htask : ∀ n, s.thread t = .task n ∨ s.thread t = .worker n → ∃ x, s.pendingTask = some x)
    (hpc : s.thread t = pc) (hst : s.go c t = some s') : Control c s' := by
  rw [Drain.go, hpc] at hst
  have hne : pc ≠ .loop := by
    rintro rfl
    cases hst
  obtain ⟨ht, hself⟩ := h.at hpc hne
  cases pc <;> cases hst
  case enterTask x =>
    exact h.turn rfl ht hself (fun _ _ _ => id) (.inl rfl)
      (fun _ => .inl ⟨hself.1, nofun⟩) h.elected (fun _ => .inl (hpc ▸ trivial)) nofun
  case enterAck x =>
    have hzero := h.elected_of_pending (by rw [hself.2.2]; decide)
    exact h.turn rfl ht ⟨rfl, hself.2⟩
      (fun _ _ _ hok => hok.clearMask (by omega)) (.inl rfl)
      (fun _ => .inl ⟨rfl, nofun⟩) h.elected (fun _ => .inl (hpc ▸ trivial)) nofun
  case enterElected x =>
    have hzero := h.elected_of_pending (by rw [hself.2.2]; decide)
    exact h.turn rfl ht ⟨hself.1, nofun, hself.2.2⟩
      (fun _ _ _ hok => hok.clearElected ht hself.1 (by omega)) (.inr (.inl rfl))
      (fun _ => .inl ⟨hself.1, nofun⟩) (fun hne => absurd rfl hne)
      (fun _ => .inl (hpc ▸ trivial)) nofun
  case enterPending x =>
    have hp : s.syncStartPending ≤ 0 := by rw [hself.2.2]; decide
    have hpos : 0 < (c.blockNum x : Int) := Int.natCast_pos.mpr (c.blockNum_pos x)
    refine h.turn rfl ht ⟨hself.1, hself.2.1⟩ (fun t' _ hne hok => hok.setPending
      (h.elected_of_pending hp) (fun he => ?_) (h.not_clearing_of_pending hp t'))
      (.inl rfl) (fun _ => .inl ⟨hself.1, nofun⟩) (fun _ => hpos) (fun he => he.elim) nofun
    exact hne (h.entering t' t he (hpc ▸ trivial))
  case spin =>
    split
    · exact h
    · split
      · exact h.setPc ht hself (fun _ => nofun) id nofun
      · exact h.setPc ht hself (by omega) id nofun
  case ack n =>
    refine h.turn rfl ht hself.2 (fun _ _ hne hok => hok.setAck hne) (.inl rfl)
      (fun hp => .inr ⟨hp, fun w hw hbit => ?_, .inl ⟨n, hpc⟩⟩) h.elected (fun he => he.elim) nofun
    exact (update_of_ne hw ..).trans hbit
  case wait n =>
    split
    · rename_i hall
      exact h.setPc ht ⟨hself, fun _ => hall⟩ (fun _ => nofun) id nofun
    · split_ifs with hbit
      · exact h.setPc ht ⟨hbit, hself⟩ (fun _ => nofun) id nofun
      · exact h
  case elect n =>
    obtain ⟨hbit, hn⟩ := hok n hpc
    have hall := hself.2 hbit
    split
    · -- everybody is at the barrier
      rename_i hzero
      have hpos := h.pending_of_allAcked hall
      exact h.turn rfl ht ⟨fun _ => ⟨hall, hn⟩, fun _ => ⟨hall, nofun⟩⟩
        (fun _ ht' hne hok => hok.setElected ht' hne hzero hall) (.inr (.inr rfl))
        (fun hp => absurd hpos (Int.not_lt.mpr hp)) (fun _ => hpos) (fun he => he.elim) nofun
    · rename_i hne
      exact h.setPc ht ⟨fun he => absurd he hself.1, fun _ => ⟨hall, hne⟩⟩ (fun _ => nofun) id nofun
  case check n =>
    split
    · rename_i he
      exact h.setPc ht ⟨he, hself.1 he⟩ (fun _ => nofun) id nofun
    · rename_i hne
      exact h.setPc ht ⟨hne, hself.2⟩ (fun _ => nofun) id nofun
  case followPending =>
    split_ifs with hp
    · refine h.setPc ht ⟨Bool.eq_false_iff.mpr fun hbit => ?_, hself.1⟩ (fun _ => nofun) id nofun
      have := h.elected (hself.2 hbit).2
      omega
    · exact h.setPc ht hself (fun _ => nofun) id nofun
  case followElected =>
    split_ifs with hz
    · exact h.setPc ht ⟨Bool.eq_false_iff.mpr fun hbit => (hself.2 hbit).2 hz, hself.1⟩
        (fun _ => nofun) id nofun
    · exact h.setPc ht hself (fun _ => nofun) id nofun
  case task n =>
    obtain ⟨x, hx⟩ := htask n (.inl hpc)
    simp only [hx]
    exact h.setPc ht hself (fun _ => nofun) id nofun
  case count n i available =>
    have hpos := h.elected (by rw [hself.1]; nofun)
    split
    · exact h.setPc ht hself (fun _ => nofun) id nofun
    · split
      · exact h.setPc ht ⟨hself.1, hself.2.1, hpos⟩ (fun _ => nofun) id nofun
      · exact h.setPc ht hself (fun _ => nofun) id nofun
  case worker n =>
    obtain ⟨x, hx⟩ := htask n (.inr hpc)
    simp only [hx]
    exact h.setPc ht hself (fun _ => nofun) id nofun
  case tracker n x i =>
    have hpos := h.elected (by rw [hself.1]; nofun)
    split
    · exact h.setPc ht hself (fun _ => nofun) id nofun
    · exact h.setPc ht ⟨hself.1, hself.2.1, hpos⟩ (fun _ => nofun) id nofun
  case block n x i valid =>
    split
    · refine h.turn rfl ht hself (fun _ _ _ => id) (.inl rfl) (fun hp => ?_)
        h.elected (fun he => he.elim) nofun
      exact absurd (h.elected (by rw [hself.1]; nofun)) (Int.not_lt.mpr hp)
    · exact h.setPc ht hself (fun _ => nofun) id nofun
  case clearTask =>
    exact h.turn rfl ht hself (fun _ _ _ => id) (.inl rfl)
      (fun hp => absurd hself.2.2 (Int.not_lt.mpr hp)) h.elected (fun he => he.elim) nofun
  case resetAck | clearAck =>
    exact h.turn rfl ht ⟨hself.1, rfl, hself.2.2⟩
      (fun t' _ hne hok => hok.clearMask (by have := hself.1; omega)) (.inl rfl)
      (fun _ => .inl ⟨rfl, nofun⟩) h.elected (fun he => he.elim) nofun
  case resetElected =>
    exact h.turn rfl ht ⟨hself.2.1, nofun⟩
      (fun t' _ hne hok => hok.clearElected ht hself.2.1 (by have := hself.1; omega))
      (.inr (.inl rfl)) (fun _ => .inl ⟨hself.2.1, nofun⟩) (fun hne => absurd rfl hne)
      (fun he => he.elim) nofun
  case clearElected =>
    exact h.turn rfl ht ⟨rfl, hself.2⟩
      (fun t' _ hne hok => hok.clearElected ht hself.2.1 (by have := hself.1; omega))
      (.inr (.inl rfl)) (fun _ => .inl ⟨hself.2.1, nofun⟩) (fun hne => absurd rfl hne)
      (fun he => he.elim) fun _ => h.not_clearing (by rw [hself.1]; nofun)
  case clearPending =>
    have hne : s.drainWorkerElected ≠ t + 1 := by rw [hself.1]; nofun
    exact h.turn rfl ht ⟨hself.2.1, hne⟩
      (fun t' _ hne hok => hok.setPending hself.1 (h.not_entering hself.2.2 t') fun hc =>
        hne (h.clearing t' t hc hpc))
      (.inl rfl) (fun _ => .inl ⟨hself.2.1, nofun⟩) (fun hne => absurd hself.1 hne)
      (fun he => he.elim) nofun

/-- One step keeps the control words. -/
theorem Control.step (h : Control c s) {act : Act τ} (hok : DrainGuard s act)
    (htask : ∀ t n, s.thread t = .task n ∨ s.thread t = .worker n → ∃ x, s.pendingTask = some x)
    (hst : step c s act = some s') : Control c s' := by
  -- steps that touch neither a thread nor a shared word
  have hsame {n : τ → Nat} {idle : Nat → Nat} {passed : Nat → Bool} :
      Control c { s with nextBlockIdx := n, idle := idle, passed := passed } :=
    { h with }
  cases act with
  | enter t x =>
    obtain ⟨⟨ht, hpc, -⟩, hst⟩ := ite_none_right_eq_some.mp hst
    have hself := h.ok t ht
    rw [hpc] at hself
    cases hst
    split_ifs with hzero
    · have hz := h.elected_of_pending hzero.le
      have hout (t' : Nat) : ¬ (s.thread t').Entering := fun he => by
        have := h.pending_of_entering he
        omega
      exact h.turn rfl ht ⟨hself.1, hself.2, rfl⟩
        (fun t' ht' _ hok => hok.setPending hz (hout t') (h.not_clearing_of_pending hzero.le t'))
        (.inl rfl) (fun _ => .inl ⟨hself.1, nofun⟩) (fun hne => absurd hz hne)
        (fun _ => .inr hout) nofun
    · exact h
  | handle t =>
    obtain ⟨⟨ht, hpc, hne⟩, hst⟩ := ite_none_right_eq_some.mp hst
    have hself := h.ok t ht
    rw [hpc] at hself
    cases hst
    exact h.setPc ht hself (fun _ => nofun) id nofun
  | go t => exact h.go hok (htask t) rfl hst
  | poll t idle | claim x k =>
    obtain ⟨-, hst⟩ := ite_none_right_eq_some.mp hst
    cases hst
    exact hsame

end Steps

/-! ## The blocks of the drained task -/

/-- The pending task has `n` blocks, and none is dispatched. -/
def Held (c : DrainConfig τ) (s : Drain τ) (n : Nat) : Prop :=
  ∃ x, s.pendingTask = some x ∧ c.blockNum x = n ∧ s.nextBlockIdx x = 0

/-- The blocks of the pending task are being dispatched in this round. -/
def Draining (c : DrainConfig τ) (s : Drain τ) (n : Nat) (x : τ) : Prop :=
  s.pendingTask = some x ∧ c.blockNum x = n ∧ s.nextBlockIdx x ≤ n ∧
    ∀ b < s.nextBlockIdx x, (x, b, s.round) ∈ s.dispatched

/-- The idle cores of the trackers from `i` on. -/
def idleFrom (c : DrainConfig τ) (s : Drain τ) (i : Nat) : Nat :=
  ∑ j ∈ Finset.Ico i c.activeSchedThreads, s.idle j

def BlockOk (c : DrainConfig τ) (s : Drain τ) (t : Nat) : DrainPc τ → Prop
  | .enterTask x => s.pendingTask = none ∧ s.nextBlockIdx x = 0
  | .enterAck x | .enterElected x | .enterPending x =>
    s.pendingTask = some x ∧ s.nextBlockIdx x = 0
  | .check n => s.drainWorkerElected = t + 1 → s.Held c n
  | .task n => s.Held c n
  | .count n i available =>
    s.Held c n ∧ i ≤ c.activeSchedThreads ∧ available = ∑ j ∈ Finset.Ico 0 i, s.idle j
  | .worker n => s.Held c n ∧ n ≤ s.idleFrom c 0
  | .tracker n x i => s.Draining c n x ∧ n ≤ s.nextBlockIdx x + s.idleFrom c i
  | .block n x i valid =>
    s.Draining c n x ∧ i < c.activeSchedThreads ∧ valid = s.idle i ∧
      n ≤ s.nextBlockIdx x + s.idleFrom c i
  | .resetAck | .resetElected => ∃ n : Nat, s.syncStartPending = n ∧ s.Held c n
  | .clearTask => ∃ x, s.pendingTask = some x ∧ s.nextBlockIdx x = c.blockNum x
  | .clearAck | .clearElected | .clearPending => s.pendingTask = none
  | .loop | .spin | .ack _ | .wait _ | .elect _ | .followPending | .followElected | .fault => True

/-- The blocks dispatched by drains: for every task all of them so far, in one round. -/
structure Log (c : DrainConfig τ) (s : Drain τ) : Prop where
  lt : ∀ x b r, (x, b, r) ∈ s.dispatched → b < s.nextBlockIdx x
  le : ∀ x b r, (x, b, r) ∈ s.dispatched → s.nextBlockIdx x ≤ c.blockNum x
  all : ∀ x b r, (x, b, r) ∈ s.dispatched → ∀ b' < s.nextBlockIdx x, (x, b', r) ∈ s.dispatched
  done : ∀ x b r, (x, b, r) ∈ s.dispatched →
    s.nextBlockIdx x = c.blockNum x ∨ s.pendingTask = some x ∧ r = s.round ∧ 0 < s.syncStartPending
  nodup : (s.dispatched.map fun e => (e.1, e.2.1)).Nodup

structure Blocks (c : DrainConfig τ) (s : Drain τ) : Prop where
  threads : ∀ t, BlockOk c s t (s.thread t)
  waiting : 0 < s.syncStartPending → s.drainWorkerElected = 0 → (∀ t, s.thread t ≠ .clearPending) →
    ∃ n : Nat, s.syncStartPending = n ∧ s.Held c n
  empty : s.syncStartPending = 0 → s.pendingTask = none
  log : Log c s

/-- Nothing that a thread relies on has changed. -/
theorem BlockOk.frame (h : BlockOk c s t pc) {e round : Nat} {next : τ → Nat}
    (hnext : ∀ x, s.pendingTask = some x ∨ pc = .enterTask x → next x = s.nextBlockIdx x)
    (hwork : pc.Working → idle = s.idle ∧ round = s.round)
    (helected : e = t + 1 → s.drainWorkerElected = t + 1) :
    BlockOk c { s with drainWorkerElected := e, nextBlockIdx := next, idle := idle, round := round }
      t pc := by
  have hheld {n : Nat} (hh : s.Held c n) : Held c { s with nextBlockIdx := next } n := by
    obtain ⟨x, hx, hn, hz⟩ := hh
    exact ⟨x, hx, hn, (hnext x (.inl hx)).trans hz⟩
  have hdrain {n : Nat} {x : τ} (hd : s.Draining c n x) :
      Draining c { s with nextBlockIdx := next } n x := by
    have hx := hnext x (.inl hd.1)
    exact ⟨hd.1, hd.2.1, hx.trans_le hd.2.2.1, fun b hb => hd.2.2.2 b (hb.trans_eq hx)⟩
  cases pc with
  | enterTask x => exact ⟨h.1, (hnext x (.inr rfl)).trans h.2⟩
  | enterAck x | enterElected x | enterPending x => exact ⟨h.1, (hnext x (.inl h.1)).trans h.2⟩
  | check n => exact fun he => hheld (h (helected he))
  | task n => exact hheld h
  | count n i available | worker n =>
    obtain ⟨rfl, rfl⟩ := hwork trivial
    exact ⟨hheld h.1, h.2⟩
  | tracker n x i | block n x i valid =>
    obtain ⟨rfl, rfl⟩ := hwork trivial
    simp only [BlockOk, hnext x (.inl h.1.1)]
    exact ⟨hdrain h.1, h.2⟩
  | resetAck | resetElected =>
    obtain ⟨n, hn, hh⟩ := h
    exact ⟨n, hn, hheld hh⟩
  | clearTask =>
    obtain ⟨x, hx, hn⟩ := h
    exact ⟨x, hx, (hnext x (.inl hx)).trans hn⟩
  | clearAck | clearElected | clearPending => exact h
  | _ => trivial

/-- A thread that is neither elected nor entering nor clearing relies on nothing. -/
theorem BlockOk.of_passive (hok : Ok c s t pc) (hne : s.drainWorkerElected ≠ t + 1)
    (hentering : ¬ pc.Entering) (hclearing : pc ≠ .clearPending)
    (hne' : s'.drainWorkerElected ≠ t + 1) : BlockOk c s' t pc := by
  cases pc <;> simp only [Ok, BlockOk, DrainPc.Entering] at * <;> grind -ring -linarith

/-- A block is logged once. -/
theorem Log.claim (h : Log c s) {next : τ → Nat}
    (hnext : ∀ x b r, (x, b, r) ∈ s.dispatched → next x = s.nextBlockIdx x) :
    Log c { s with nextBlockIdx := next } where
  lt x b r he := (h.lt x b r he).trans_eq (hnext x b r he).symm
  le x b r he := (hnext x b r he).trans_le (h.le x b r he)
  all x b r he b' hb' := h.all x b r he b' (hb'.trans_eq (hnext x b r he))
  done x b r he := (h.done x b r he).imp_left (hnext x b r he).trans
  nodup := h.nodup

namespace Blocks

/-- One thread moves on. -/
theorem turn (hthread : s'.thread = update s.thread t pc) (hself : BlockOk c s' t pc)
    (hother : ∀ t', t' ≠ t → BlockOk c s' t' (s.thread t'))
    (hwaiting : 0 < s'.syncStartPending → s'.drainWorkerElected = 0 →
      (∀ t, s'.thread t ≠ .clearPending) → ∃ n : Nat, s'.syncStartPending = n ∧ s'.Held c n)
    (hempty : s'.syncStartPending = 0 → s'.pendingTask = none) (hlog : Log c s') : Blocks c s' := by
  refine ⟨fun t' => ?_, hwaiting, hempty, hlog⟩
  rw [hthread, update_apply]
  split
  · rename_i he
    exact he ▸ hself
  · rename_i hne
    exact hother t' hne

/-- A step that changes nothing but the place of a thread and the ack mask. -/
theorem move (h : Blocks c s) {pc₀ : DrainPc τ} {mask : Nat → Bool} {e : Nat}
    (hpc : s.thread t = pc₀) (hne : pc₀ ≠ .clearPending) (hself : BlockOk c s t pc)
    (helected : e = s.drainWorkerElected) :
    Blocks c { s.setPc t pc with drainAckMask := mask, drainWorkerElected := e } := by
  subst helected
  refine turn rfl hself (fun t' _ => h.threads t') (fun hp he hc => ?_) h.empty { h.log with }
  refine h.waiting hp he fun t' => ?_
  by_cases htt : t' = t
  · rw [htt, hpc]
    exact hne
  · have hout : update s.thread t pc t' ≠ .clearPending := hc t'
    rwa [update_of_ne htt] at hout

theorem setPc (h : Blocks c s) {pc₀ : DrainPc τ} (hpc : s.thread t = pc₀)
    (hne : pc₀ ≠ .clearPending)
    (hself : BlockOk c s t pc) : Blocks c (s.setPc t pc) :=
  h.move hpc hne hself rfl

end Blocks

/-- While a thread is elected, the others rely on nothing. -/
theorem Control.passive (h : Control c s) (he : s.drainWorkerElected = t + 1) (hne : t' ≠ t)
    (hne' : s'.drainWorkerElected ≠ t' + 1) : BlockOk c s' t' (s.thread t') := by
  by_cases ht' : t' < c.activeSchedThreads
  · have hnz : s.drainWorkerElected ≠ 0 := by omega
    exact .of_passive (h.ok t' ht') (by omega) (h.not_entering (h.elected hnz) t')
      (h.not_clearing hnz t') hne'
  · rw [(h.outside t' (by omega)).1]
    trivial

/-- While no thread is elected, a thread that is neither entering nor clearing relies on
nothing. -/
theorem Control.passive_of_zero (h : Control c s) (hz : s.drainWorkerElected = 0)
    (hentering : ¬ (s.thread t').Entering) (hclearing : s.thread t' ≠ .clearPending)
    (hz' : s'.drainWorkerElected = 0) : BlockOk c s' t' (s.thread t') := by
  by_cases ht' : t' < c.activeSchedThreads
  · exact .of_passive (h.ok t' ht') (by omega) hentering hclearing (by omega)
  · rw [(h.outside t' (by omega)).1]
    trivial

/-- While a thread is entering, the others rely on nothing. -/
theorem Control.passive_of_entering (h : Control c s) (he : (s.thread t).Entering) (hne : t' ≠ t)
    (hz' : s'.drainWorkerElected = 0) : BlockOk c s' t' (s.thread t') := by
  have hp : s.syncStartPending ≤ 0 := by rw [h.pending_of_entering he]; decide
  exact h.passive_of_zero (h.elected_of_pending hp) (fun he' => hne (h.entering t' t he' he))
    (h.not_clearing_of_pending hp t') hz'

theorem idleFrom_succ (hi : i < c.activeSchedThreads) :
    s.idleFrom c i = s.idle i + s.idleFrom c (i + 1) :=
  Finset.sum_eq_sum_Ico_succ_bot hi s.idle

theorem control_init (hn : 0 < c.activeSchedThreads) (idle : Nat → Nat) :
    Control c (init idle : Drain τ) where
  ok _ _ := ⟨rfl, nofun⟩
  outside _ _ := ⟨rfl, nofun⟩
  missing _ := ⟨0, hn, rfl, nofun⟩
  elected h := absurd rfl h
  entering _ _ h := h.elim
  clearing _ _ h := by cases h

theorem blocks_init (idle : Nat → Nat) : Blocks c (init idle : Drain τ) where
  threads _ := trivial
  waiting h := absurd h (Int.lt_irrefl 0)
  empty _ := rfl
  log := ⟨fun _ _ _ h => (by cases h), fun _ _ _ h => (by cases h), fun _ _ _ h => (by cases h),
    fun _ _ _ h => (by cases h), .nil⟩

theorem Blocks.pendingTask_of (h : Blocks c s) (t n : Nat)
    (hpc : s.thread t = .task n ∨ s.thread t = .worker n) : ∃ x, s.pendingTask = some x := by
  have hself := h.threads t
  rcases hpc with hpc | hpc
  · rw [hpc] at hself
    obtain ⟨x, hx, -⟩ := hself
    exact ⟨x, hx⟩
  · rw [hpc] at hself
    obtain ⟨⟨x, hx, -⟩, -⟩ := hself
    exact ⟨x, hx⟩

/-- A thread that is at no `enterTask` before or after. -/
theorem enterTask_update_iff (hold : ∀ y, s.thread t ≠ .enterTask y)
    (hnew : ∀ y, pc ≠ .enterTask y) :
    update s.thread t pc t' = .enterTask x ↔ s.thread t' = .enterTask x := by
  rw [update_apply]
  split_ifs with he
  · exact iff_of_false (hnew x) (he ▸ hold x)
  · rfl

variable [DecidableEq τ]

theorem idleFrom_dispatchBlock (hi : i < c.activeSchedThreads) (hidle : 0 < s.idle i) :
    (s.dispatchBlock x i).idleFrom c i + 1 = s.idleFrom c i := by
  have hrest : (s.dispatchBlock x i).idleFrom c (i + 1) = s.idleFrom c (i + 1) := by
    refine Finset.sum_congr rfl fun j hj => update_of_ne ?_ ..
    have := (Finset.mem_Ico.mp hj).1
    omega
  have hhere : (s.dispatchBlock x i).idle i = s.idle i - 1 := update_self ..
  rw [idleFrom_succ hi, idleFrom_succ hi, hrest, hhere]
  omega

/-- The next block of the pending task is dispatched. -/
theorem Log.dispatchBlock (h : Log c s) {n : Nat} (hd : s.Draining c n x)
    (hlt : s.nextBlockIdx x < n) (hp : 0 < s.syncStartPending) : Log c (s.dispatchBlock x i) := by
  obtain ⟨hx, hn, -, hall⟩ := hd
  have hself : (s.dispatchBlock x i).nextBlockIdx x = s.nextBlockIdx x + 1 :=
    update_self ..
  have hother {y : τ} (hy : y ≠ x) : (s.dispatchBlock x i).nextBlockIdx y = s.nextBlockIdx y :=
    update_of_ne hy ..
  -- the entries of the pending task are of this round
  have hround {b r : Nat} (he : (x, b, r) ∈ s.dispatched) : r = s.round := by
    rcases h.done x b r he with hfull | ⟨-, hr, -⟩
    · omega
    · exact hr
  have hmem {b r : Nat} : (x, b, r) ∈ (s.dispatchBlock x i).dispatched ↔
      b < s.nextBlockIdx x + 1 ∧ r = s.round := by
    rw [Nat.lt_succ_iff_lt_or_eq]
    refine mem_cons.trans ⟨?_, ?_⟩
    · rintro (⟨⟨⟩⟩ | hold)
      · exact ⟨.inr rfl, rfl⟩
      · exact ⟨.inl (h.lt x b r hold), hround hold⟩
    · rintro ⟨hb | rfl, rfl⟩
      · exact .inr (hall b hb)
      · exact .inl rfl
  have hold {y : τ} (hy : y ≠ x) {b r : Nat} (he : (y, b, r) ∈ (s.dispatchBlock x i).dispatched) :
      (y, b, r) ∈ s.dispatched :=
    (mem_cons.mp he).resolve_left fun heq => hy (congrArg Prod.fst heq)
  refine ⟨fun y b r he => ?_, fun y b r he => ?_, fun y b r he b' hb' => ?_, fun y b r he => ?_,
    nodup_cons.mpr ⟨fun hmem => ?nodup, h.nodup⟩⟩
  case nodup =>
    obtain ⟨⟨y, b, r⟩, he, heq⟩ := mem_map.mp hmem
    cases heq
    exact lt_irrefl _ (h.lt _ _ _ he)
  all_goals obtain rfl | hy := eq_or_ne y x
  · exact (hmem.mp he).1.trans_eq hself.symm
  · exact (h.lt y b r (hold hy he)).trans_eq (hother hy).symm
  · rw [hself]
    omega
  · exact (hother hy).trans_le (h.le y b r (hold hy he))
  · exact hmem.mpr ⟨hb'.trans_eq hself, (hmem.mp he).2⟩
  · exact mem_cons_of_mem _ (h.all y b r (hold hy he) b' (hb'.trans_eq (hother hy)))
  · exact .inr ⟨hx, (hmem.mp he).2, hp⟩
  · exact (h.done y b r (hold hy he)).imp_left (hother hy).trans

/-- A thread goes on. -/
theorem Blocks.go (h : Blocks c s) (hc : Control c s) (hok : DrainGuard s (.go t))
    (hpc : s.thread t = pc) (hst : s.go c t = some s') : Blocks c s' := by
  have hself := h.threads t
  rw [Drain.go, hpc] at hst
  rw [hpc] at hself
  have hne : pc ≠ .loop := by
    rintro rfl
    cases hst
  obtain ⟨ht, hp⟩ := hc.at hpc hne
  cases pc <;> cases hst
  case enterTask x =>
    have he : (s.thread t).Entering := hpc ▸ trivial
    refine .turn rfl ⟨rfl, hself.2⟩ (fun t' hne => hc.passive_of_entering he hne ?_) (fun hp' => ?_)
      (fun hp' => absurd (hp.2.2.symm.trans hp') (by decide))
      { h.log with done := fun x b r he => (h.log.done x b r he).imp_right fun hd => ?_ }
    · exact hc.elected_of_pending (by rw [hp.2.2]; decide)
    · exact absurd hp' (by show ¬ 0 < s.syncStartPending; rw [hp.2.2]; decide)
    · exact absurd hd.2.2 (by rw [hp.2.2]; decide)
  case enterAck x => exact h.move hpc nofun hself rfl
  case enterElected x =>
    exact h.move hpc nofun hself (hc.elected_of_pending (by rw [hp.2.2]; decide)).symm
  case enterPending x =>
    have he : (s.thread t).Entering := hpc ▸ trivial
    refine .turn rfl trivial (fun t' hne => hc.passive_of_entering he hne ?_)
      (fun _ _ _ => ⟨c.blockNum x, rfl, x, hself.1, rfl, hself.2⟩)
      (fun hp' => absurd (Int.natCast_eq_zero.mp hp') (c.blockNum_pos x).ne')
      { h.log with done := fun x b r he => (h.log.done x b r he).imp_right fun hd => ?_ }
    · exact hc.elected_of_pending (by rw [hp.2.2]; decide)
    · exact absurd hd.2.2 (by rw [hp.2.2]; decide)
  case spin =>
    split
    · exact h
    · split <;> exact h.setPc hpc nofun trivial
  case ack n => exact h.move hpc nofun trivial rfl
  case wait n =>
    split
    · exact h.setPc hpc nofun trivial
    · split
      · exact h.setPc hpc nofun trivial
      · exact h
  case elect n =>
    obtain ⟨hbit, hn⟩ := hok n hpc
    have hall := hp.2 hbit
    have hpos := hc.pending_of_allAcked hall
    split
    · -- a new round for a task none of whose blocks is dispatched
      rename_i hz
      have hcl (t' : Nat) : s.thread t' ≠ .clearPending := fun hcl => by
        obtain ⟨ht', hp'⟩ := hc.at hcl nofun
        have := hall t' ht'
        rw [hp'.2.1] at this
        cases this
      obtain ⟨n', hn', hheld⟩ := h.waiting hpos hz hcl
      have hnn : n' = n := by omega
      subst hnn
      refine .turn rfl (fun _ => hheld) (fun t' hne => ?_) (fun _ he => absurd he nofun)
        h.empty { h.log with done := fun x b r he => (h.log.done x b r he).imp_right fun hd => ?_ }
      · refine (h.threads t').frame (fun _ _ => rfl) (fun hw => ?_) fun he => ?_
        · have := (hc.working hw).1
          omega
        · have he : t + 1 = t' + 1 := he
          omega
      · obtain ⟨y, hy, -, hzero⟩ := hheld
        cases hd.1.symm.trans hy
        have := h.log.lt _ _ _ he
        omega
    · exact h.setPc hpc nofun fun he => absurd he hp.1
  case check n =>
    split_ifs with he
    · exact h.setPc hpc nofun (hself he)
    · exact h.setPc hpc nofun trivial
  case followPending | followElected => split <;> exact h.setPc hpc nofun trivial
  case task n =>
    split
    · exact h.setPc hpc nofun trivial
    · exact h.setPc hpc nofun ⟨hself, Nat.zero_le _, rfl⟩
  case count n i available =>
    obtain ⟨hheld, hi, hsum⟩ := hself
    split
    · rename_i hlt
      refine h.setPc hpc nofun ⟨hheld, hlt, ?_⟩
      rw [Finset.sum_Ico_succ_top (Nat.zero_le i), hsum]
    · rename_i hge
      have hi : i = c.activeSchedThreads := by omega
      split
      · exact h.setPc hpc nofun ⟨n, hp.2.2, hheld⟩
      · refine h.setPc hpc nofun ⟨hheld, ?_⟩
        rw [idleFrom, ← hi, ← hsum]
        omega
  case worker n =>
    obtain ⟨⟨x, hx, hn, hz⟩, hle⟩ := hself
    simp only [hx]
    refine h.setPc hpc nofun ⟨⟨hx, hn, by omega, fun b hb => ?_⟩, by omega⟩
    omega
  case tracker n x i =>
    obtain ⟨hd, hle⟩ := hself
    split
    · rename_i hlt
      exact h.setPc hpc nofun ⟨hd, hlt.1, rfl, hle⟩
    · -- the trackers are exhausted only when all blocks are dispatched
      rename_i hend
      obtain ⟨hx, hn, hnext, -⟩ := hd
      refine h.setPc hpc nofun ⟨x, hx, ?_⟩
      by_cases hi : i < c.activeSchedThreads
      · have : ¬ s.nextBlockIdx x < n := fun hlt => hend ⟨hi, hlt⟩
        omega
      · rw [idleFrom, Finset.Ico_eq_empty_of_le (by omega), Finset.sum_empty] at hle
        omega
  case block n x i valid =>
    obtain ⟨hd, hi, hvalid, hle⟩ := hself
    split
    · rename_i hlt
      have hpos := hc.elected (by rw [hp.1]; nofun)
      have hnext : (s.dispatchBlock x i).nextBlockIdx x = s.nextBlockIdx x + 1 :=
        update_self ..
      have hlog : Log c (s.dispatchBlock x i) := h.log.dispatchBlock hd hlt.2 hpos
      have hidle := idleFrom_dispatchBlock (s := s) (x := x) hi (by omega)
      refine .turn rfl ⟨⟨hd.1, hd.2.1, hnext.trans_le hlt.2, fun b hb => ?_⟩, hi, ?_, ?_⟩
        (fun t' hne => hc.passive hp.1 hne ?_) (fun _ he => absurd (hp.1.symm.trans he) nofun)
        h.empty { hlog with }
      · have hb : b < (s.dispatchBlock x i).nextBlockIdx x := hb
        rw [hnext] at hb
        rcases Nat.lt_succ_iff_lt_or_eq.mp hb with hb | rfl
        · exact mem_cons_of_mem _ (hd.2.2.2 b hb)
        · exact mem_cons_self
      · rw [hvalid]
        show s.idle i - 1 = update s.idle i (s.idle i - 1) i
        rw [update_self]
      · show n ≤ (s.dispatchBlock x i).nextBlockIdx x + (s.dispatchBlock x i).idleFrom c i
        omega
      · have : s.drainWorkerElected ≠ t' + 1 := by have := hp.1; omega
        exact this
    · -- this tracker has no idle cores left, or there is nothing left to dispatch
      rename_i hend
      refine h.setPc hpc nofun ⟨hd, ?_⟩
      rw [idleFrom_succ hi] at hle
      by_cases hv : 0 < valid
      · have : ¬ s.nextBlockIdx x < n := fun hlt => hend ⟨hv, hlt⟩
        omega
      · omega
  case resetAck | clearAck => exact h.move hpc nofun hself rfl
  case resetElected =>
    exact .turn rfl trivial (fun t' hne => hc.passive hp.1 hne nofun) (fun _ _ _ => hself)
      h.empty { h.log with }
  case clearTask =>
    obtain ⟨x, hx, hfull⟩ := hself
    have hel (t' : Nat) (hne : t' ≠ t) : s.drainWorkerElected ≠ t' + 1 := by have := hp.1; omega
    refine .turn rfl rfl (fun t' hne => hc.passive hp.1 hne (hel t' hne))
      (fun _ he => absurd (hp.1.symm.trans he) nofun) (fun _ => rfl)
      { h.log with done := fun y b r he => .inl ((h.log.done y b r he).elim id fun hd => ?_) }
    cases hx.symm.trans hd.1
    exact hfull
  case clearElected =>
    exact .turn rfl hself (fun t' hne => hc.passive hp.1 hne nofun)
      (fun _ _ hcl => absurd (update_self t _ s.thread) (hcl t)) h.empty { h.log with }
  case clearPending =>
    refine .turn rfl trivial (fun t' hne => hc.passive_of_zero hp.1
        (hc.not_entering hp.2.2 t') (fun hcl => hne (hc.clearing t' t hcl hpc)) hp.1)
      (fun hp => absurd hp (Int.lt_irrefl 0)) (fun _ => hself)
      { h.log with done := fun x b r he => (h.log.done x b r he).imp_right fun hd => ?_ }
    cases hself.symm.trans hd.1

/-- One step keeps the block counts. -/
theorem Blocks.step (h : Blocks c s) (hc : Control c s) {act : Act τ} (hok : DrainGuard s act)
    (hst : step c s act = some s') : Blocks c s' := by
  cases act with
  | enter t x =>
    obtain ⟨⟨ht, hpc, hx⟩, hst⟩ := ite_none_right_eq_some.mp hst
    cases hst
    split_ifs with hzero
    · have hz := hc.elected_of_pending hzero.le
      refine .turn rfl ⟨h.empty hzero, hx⟩
        (fun t' _ =>
          hc.passive_of_zero hz (fun he => ?_) (hc.not_clearing_of_pending hzero.le t') hz)
        (fun hp => absurd hp (by show ¬ (0 : Int) < -1; decide))
        (fun hp => absurd hp (by show ¬ (-1 : Int) = 0; decide))
        { h.log with done := fun x b r he => (h.log.done x b r he).imp_right fun hd => ?_ }
      · have := hc.pending_of_entering he
        omega
      · exact absurd hzero hd.2.2.ne'
    · exact h
  | handle t =>
    obtain ⟨⟨ht, hpc, -⟩, hst⟩ := ite_none_right_eq_some.mp hst
    cases hst
    exact h.setPc hpc nofun trivial
  | go t => exact h.go hc hok rfl hst
  | poll t idle =>
    obtain ⟨⟨ht, hpc, -⟩, hst⟩ := ite_none_right_eq_some.mp hst
    cases hst
    refine ⟨fun t' => (h.threads t').frame (fun _ _ => rfl) (fun hw => ?_) id, h.waiting, h.empty,
      { h.log with }⟩
    -- nobody is in the loop while a worker counts
    have hbit := (hc.working hw).2 t ht
    have hself := hc.ok t ht
    rw [hpc] at hself
    rw [hself.1] at hbit
    cases hbit
  | claim x k =>
    obtain ⟨⟨hx, hk⟩, hst⟩ := ite_none_right_eq_some.mp hst
    cases hst
    have hnext {y : τ} (hy : y ≠ x) : update s.nextBlockIdx x (s.nextBlockIdx x + k) y =
        s.nextBlockIdx y := update_of_ne hy ..
    have hpend {y : τ} (hy : s.pendingTask = some y) : y ≠ x := fun he => hx.1 (he ▸ hy)
    refine ⟨fun t' => (h.threads t').frame (fun y hy => hnext ?_) (fun _ => ⟨rfl, rfl⟩) id,
      fun hp he hcl => ?_, h.empty, h.log.claim fun y b r he => ?_⟩
    · rcases hy with hy | hy
      · exact hpend hy
      · rintro rfl
        exact hx.2 t' (hc.at hy nofun).1 hy
    · obtain ⟨n, hn, y, hy, hb, hz⟩ := h.waiting hp he hcl
      exact ⟨n, hn, y, hy, hb, (hnext (hpend hy)).trans hz⟩
    · -- a task that has been drained has no blocks left to claim
      by_cases hy : y = x
      · subst hy
        rcases h.log.done y b r he with hfull | ⟨hy, -⟩
        · have hk : k = 0 := by omega
          subst hk
          exact update_self ..
        · exact absurd hy hx.1
      · exact hnext hy

/-! ## What a step does to the tasks -/

/-- What a step inside the drain does to the tasks: it puts one into the slot, takes one out,
dispatches a block, or none of these. -/
inductive Effect (s : Drain τ) (t : Nat) : Drain τ → Prop
  | quiet {s' : Drain τ}
      (hthread : ∀ t' x, s'.thread t' = .enterTask x ↔ s.thread t' = .enterTask x)
      (htask : s'.pendingTask = s.pendingTask) (hnext : s'.nextBlockIdx = s.nextBlockIdx)
      (hlog : s'.dispatched = s.dispatched) : Effect s t s'
  | enter (x : τ) (hpc : s.thread t = .enterTask x) :
      Effect s t { s.setPc t (.enterAck x) with pendingTask := some x }
  | block (n : Nat) (x : τ) (i valid : Nat) (hpc : s.thread t = .block n x i valid)
      (hlt : s.nextBlockIdx x < n) :
      Effect s t ((s.dispatchBlock x i).setPc t (.block n x i (valid - 1)))
  | clear (hpc : s.thread t = .clearTask) :
      Effect s t { s.setPc t .clearAck with pendingTask := none }

theorem go_effect (hst : s.go c t = some s') : Effect s t s' := by
  unfold Drain.go at hst
  cases hpc : s.thread t <;> simp only [hpc, some.injEq] at hst <;> try subst hst
  case loop => cases hst
  case fault => cases hst
  case enterTask x => exact .enter x hpc
  case clearTask => exact .clear hpc
  case block n x i valid =>
    split_ifs with hb
    · exact .block n x i valid hpc hb.2
    · exact .quiet (fun _ _ => enterTask_update_iff (by rw [hpc]; nofun) nofun) rfl rfl rfl
  -- the others touch neither the slot nor the blocks
  all_goals
    (repeat' split) <;> first
      | exact .quiet (fun _ _ => .rfl) rfl rfl rfl
      | exact .quiet (fun _ _ => enterTask_update_iff (by rw [hpc]; nofun) nofun) rfl rfl rfl

/-! ## Executions -/

/-- Without a scheduler thread nothing ever happens to the drain. -/
theorem thread_eq_loop (hn : c.activeSchedThreads = 0) {ok : Drain τ → Act τ → Prop}
    (h : Reach (Drain.step c) ok (init idle) s) :
    (∀ t, s.thread t = .loop) ∧ s.dispatched = [] := by
  induction h with
  | init => exact ⟨fun _ => rfl, rfl⟩
  | @step s s' act _ _ hst ih =>
    cases act with
    | enter t | handle t | poll t =>
      -- there is no such thread
      exact absurd (ite_none_right_eq_some.mp hst).1.1 (by omega)
    | go t =>
      simp only [Drain.step, Drain.go, ih.1 t] at hst
      cases hst
    | claim x k =>
      obtain ⟨-, ⟨⟩⟩ := ite_none_right_eq_some.mp hst
      exact ih

/-- Both invariants in every guarded run. -/
theorem drain_reach (hn : 0 < c.activeSchedThreads)
    (h : Reach (Drain.step c) DrainGuard (init idle) s) : Control c s ∧ Blocks c s := by
  induction h with
  | init => exact ⟨control_init hn idle, blocks_init idle⟩
  | step _ hok hst ih =>
    exact ⟨ih.1.step hok ih.2.pendingTask_of hst, ih.2.step ih.1 hok hst⟩

/-- **The drain is exclusive.** In every execution in which threads take part in elections only
with their ack bit set and the current block count: while a thread counts free cores or
dispatches the drained task, all others are inside `handle_drain_mode` and do neither; the
blocks that drains dispatch are dispatched once, those of a task in one round, and all of them
by the time the task leaves the drain slot. -/
theorem drain_exclusive (c : DrainConfig τ) (idle : Nat → Nat)
    (h : Reach (Drain.step c) DrainGuard (init idle) s) :
    (∀ t, (s.thread t).Working → ∀ t' < c.activeSchedThreads, t' ≠ t →
      (s.thread t').Inside ∧ ¬ (s.thread t').Working) ∧
    (s.dispatched.map fun e => (e.1, e.2.1)).Nodup ∧
    (∀ x b r b' r', (x, b, r) ∈ s.dispatched → (x, b', r') ∈ s.dispatched → r' = r) ∧
    ∀ x b r, (x, b, r) ∈ s.dispatched → b < c.blockNum x ∧
      (s.pendingTask ≠ some x → ∀ b' < c.blockNum x, (x, b', r) ∈ s.dispatched) := by
  by_cases hn : c.activeSchedThreads = 0
  · obtain ⟨hloop, hlog⟩ := thread_eq_loop hn h
    refine ⟨fun t hw => ?_, ?_, fun x b r b' r' he => ?_, fun x b r he => ?_⟩
    · rw [hloop t] at hw
      exact hw.elim
    · rw [hlog]
      exact .nil
    · rw [hlog] at he
      cases he
    · rw [hlog] at he
      cases he
  obtain ⟨hc, hb⟩ := drain_reach (by omega) h
  refine ⟨fun t hw t' ht' hne => ⟨?_, fun hw' => ?_⟩, hb.log.nodup, fun x b r b' r' he he' => ?_,
    fun x b r he => ⟨?_, fun hx b' hb' => ?_⟩⟩
  · -- its ack bit is set, and a thread outside has none
    have hbit := (hc.working hw).2 t' ht'
    have hok := hc.ok t' ht'
    cases hpc : s.thread t' <;> simp only [hpc, Ok, DrainPc.Inside] at hok ⊢
    all_goals
      rw [hok.1] at hbit
      cases hbit
  · have := (hc.working hw).1
    have := (hc.working hw').1
    omega
  · have hsame := hb.log.all x b r he b' (hb.log.lt x b' r' he')
    have hinj := inj_on_of_nodup_map hb.log.nodup he' hsame rfl
    simpa using hinj
  · have := hb.log.lt x b r he
    have := hb.log.le x b r he
    omega
  · rcases hb.log.done x b r he with hd | ⟨hx', -⟩
    · exact hb.log.all x b r he b' (hd ▸ hb')
    · exact absurd hx' hx

instance (s : Drain τ) : DecidablePred (DrainGuard s) := fun act =>
  match act with
  | .go t =>
    match hpc : s.thread t with
    | .elect n =>
      decidable_of_iff (s.drainAckMask t = true ∧ s.syncStartPending = n)
        ⟨fun h m hm => by cases hpc.symm.trans hm; exact h, fun h => h n hpc⟩
    | .loop | .enterTask _ | .enterAck _ | .enterElected _ | .enterPending _ | .spin | .ack _
    | .wait _ | .check _ | .followPending | .followElected | .task _ | .count _ _ _ | .resetAck
    | .resetElected | .worker _ | .tracker _ _ _ | .block _ _ _ _ | .clearTask | .clearAck
    | .clearElected | .clearPending | .fault =>
      .isTrue fun _ hm => nomatch hpc.symm.trans hm
  | .enter _ _ | .handle _ | .poll _ _ | .claim _ _ => .isTrue trivial

/-- Two threads, and a task of three blocks. -/
def twoThreads : DrainConfig Unit := ⟨2, fun _ => 3, fun _ => by decide⟩

/-- Thread 0 enters the drain, and both threads come to the end of the barrier. -/
def meetAtBarrier : List (Act Unit) :=
  [.enter 0 (), .go 0, .go 0, .go 0, .go 0, .handle 0, .go 0, .go 0, .handle 1, .go 1, .go 1, .go 1,
    .go 0]

/-- Thread 1 is elected and counts; thread 0 takes part in the election, too, and loses. -/
def electWorker : List (Act Unit) := meetAtBarrier ++ [.go 1, .go 0, .go 1, .go 1, .go 1, .go 1]

/-- The second thread is elected. -/
theorem drain_exclusive_electWorker :
    ∃ s : Drain Unit, Reach (Drain.step twoThreads) DrainGuard (init fun _ => 2) s ∧
      (s.thread 1).Working ∧ (s.thread 0).Inside := by
  refine Reach.exists_of_run_imp (P := fun s => s.thread 1 = .count 3 2 4) electWorker
    (by decide +kernel) fun s hs hpc => ?_
  have hw : (s.thread 1).Working := hpc ▸ trivial
  exact ⟨hw, ((drain_exclusive twoThreads _ hs).1 1 hw 0 (by decide) (by decide)).1⟩

/-- Thread 1 is elected, finds one idle core for each thread, and goes back to its loop. Thread 0
comes to the election only now. -/
def electLate : List (Act Unit) :=
  meetAtBarrier ++ replicate 8 (.go 1) ++ [.go 0, .go 0, .go 0]

/-- Two threads, and two tasks of three and five blocks. -/
def twoTasks : DrainConfig Bool := ⟨2, fun x => cond x 5 3, fun x => by cases x <;> decide⟩

/-- Both threads are at the election of the first drain. Thread 1 dispatches the first task and
enters the second one into the drain; then thread 0 comes to the election. -/
def electStale : List (Act Bool) :=
  [.enter 0 false, .go 0, .go 0, .go 0, .go 0, .handle 0, .go 0, .go 0, .handle 1, .go 1, .go 1,
    .go 1, .go 0] ++ replicate 17 (.go 1) ++ .enter 1 true :: replicate 4 (.go 1) ++
    replicate 19 (.go 0)

/-- Thread 0 is elected although thread 1 is in its loop. In a second drain it is elected with the
block count of the first one: it dispatches three of five blocks and clears the drain. -/
theorem drain_two_rounds :
    (∃ s : Drain Unit, Reach (Drain.step twoThreads) free (init fun _ => 1) s ∧
      s.thread 0 = .count 3 0 0 ∧ s.thread 1 = .loop) ∧
    ∃ s : Drain Bool, Reach (Drain.step twoTasks) free (init fun _ => 4) s ∧
      s.pendingTask = none ∧ s.dispatched = [(true, 2, 2), (true, 1, 2), (true, 0, 2),
        (false, 2, 1), (false, 1, 1), (false, 0, 1)] :=
  ⟨Reach.exists_of_run electLate (by decide +kernel),
    Reach.exists_of_run electStale (by decide +kernel)⟩

end Drain

end PtoRuntime.Tmrb
