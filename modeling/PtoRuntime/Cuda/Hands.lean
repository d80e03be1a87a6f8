import PtoRuntime.Lib.Sole
import PtoRuntime.Cuda.NoFalseError

/-!
# Persistent CUDA executor — in whose hands the tasks are

A task that is neither unready nor counted lies in one of the queues or is in the hands of a block.
This module follows the tickets and the tasks from hand to hand, for one scheduler block: a task in
the ready queue has its flag up or is still with the scheduler block that pushes it; its ticket is a
worker's or yet to be drawn; a reported task has its flag up or is still with the worker that
reports it; and a task that is running, being reported or being processed is where its block is.

Main results: `Busy`, `InOrder.reach`.
-/

namespace PtoRuntime.Cuda

open Lib Function List Option

/-! ## In whose hands -/

/-- The block has drawn this ready ticket and not published it. -/
def SchedPc.Flies : SchedPc → Nat → Prop
  | .push (.wait _ i) _, j | .push (.publish _ i) _, j => i = j
  | _, _ => False

/-- The block has claimed this completion ticket and not taken the task. -/
def SchedPc.Awaits : SchedPc → Nat → Prop
  | .pop _ (.wait i), j | .pop _ (.error i), j | .pop _ (.take i), j => i = j
  | _, _ => False

/-- The block processes the completion of this task. -/
def SchedPc.Has (reported : List Nat) : SchedPc → Nat → Prop
  | .pop _ (.wait i), u | .pop _ (.error i), u | .pop _ (.take i), u => reported[i]? = some u
  | .process u', u | .rangeError u', u | .dependent u' _, u | .dependentError _ u' _, u
  | .readFanin u' _, u | .casFanin u' _ _, u | .push _ (.dependent u' _), u
  | .processedCount u', u | .processedByBlock u', u | .completedCount u', u => u' = u
  | _, _ => False

/-- The block has drawn this completion ticket and not published it. -/
def WorkPc.Flies : WorkPc → Nat → Prop
  | .report (.wait _ i), j | .report (.publish _ i), j => i = j
  | _, _ => False

/-- The block runs this task or is about to report it. -/
def WorkPc.Has : WorkPc → Nat → Prop
  | .run t', t | .fail t', t | .report (.ticket t'), t => t' = t
  | _, _ => False

variable {c : Dag} {s s' s₁ : State} {t u w i : Nat}
variable {p : Phase} {pc : WorkPc} {x : Nat} {k : PushReturn} {late : Bool}

/-- A ready ticket for which a worker may wait, or will. -/
def ReadyDue (s : State) (i : Nat) : Prop := ∃ t, s.pushed[i]? = some t ∧ s.phase t = .queued

/-- A completion ticket that the scheduler block awaits, or will. -/
def CompletionDue (s : State) (i : Nat) : Prop :=
  i < s.reported.length ∧ (s.completion.head ≤ i ∨ (s.sched 0).Awaits i)

def Reporting (s : State) (i : Nat) : Prop := ∃ w, (s.work w).Flies i

/-- Nothing gets lost between the blocks, if block 0 is the only scheduler and there is no error. -/
structure Busy (c : Dag) (s : State) : Prop where
  ready : s.ready.InFlight c.queueCapacity (s.sched 0).Flies (ReadyDue s)
  completion : s.completion.InFlight c.queueCapacity (Reporting s) (CompletionDue s)
  reports : Sole WorkPc.Flies s.work
  drawn : ∀ i < s.ready.head, i < c.taskCount →
    (∃ w, (s.work w).drawn? = some i) ∨ ∃ t, s.pushed[i]? = some t ∧ 3 ≤ (s.phase t).rank
  left : ∀ w, s.work w = .done → c.taskCount < s.ready.head
  seats : ∀ w, c.workerBlocks ≤ w → s.work w = .ticket
  head_le : s.completion.head ≤ s.reported.length
  claimed : ∀ i t, s.reported[i]? = some t → i < s.completion.head → 6 ≤ (s.phase t).rank
  working : ∀ t w, s.phase t = .running w ∨ s.phase t = .reporting w →
    (s.work w).Has t
  processing : ∀ t b, s.phase t = .processing b → (s.sched 0).Has s.reported t

/-- Nobody has anything at the launch. -/
theorem Busy.launch (c : Dag) : Busy c (State.init c) where
  ready := ⟨fun _ h => h.elim, nofun, fun _ h => h.elim, nofun⟩
  completion := ⟨nofun, nofun, nofun, nofun⟩
  reports := .of_none fun _ _ => id
  drawn _ h := nomatch h
  left _ h := nomatch h
  seats _ _ := rfl
  head_le := le_refl 0
  claimed _ _ h := nomatch h
  working _ _ h := h.elim nofun nofun
  processing _ _ h := nomatch h

/-- A flag is up only for a ticket that has been drawn. -/
theorem flags_tail {q : TicketQueue Nat} {entries : List Nat} {cap : Nat}
    (h : q.Carries cap entries) (hlt : q.tail < cap) : q.flags q.tail = 0 := by
  by_contra hne
  have hwrote := (h.flagged q.tail hlt hne).2
  have := (List.getElem?_eq_some_iff.mp hwrote).1
  have := h.tail
  omega

/-! ## The scheduler block -/

/-- Whatever the block had in hand it still has. -/
structure SchedPc.Follows (reported : List Nat) (pc pc' : SchedPc) : Prop where
  flies : ∀ i, pc'.Flies i ↔ pc.Flies i
  awaits : ∀ i, pc'.Awaits i → pc.Awaits i
  has : ∀ u, pc.Has reported u → pc'.Has reported u

/-- A step of block 0 that leaves the queues alone; a task may come to be ready. -/
structure Quiet (s s₁ : State) : Prop where
  ready : s₁.ready = s.ready
  completion : s₁.completion = s.completion
  pushed : s₁.pushed = s.pushed
  reported : s₁.reported = s.reported
  work : s₁.work = s.work
  phase : ∀ t, s₁.phase t = s.phase t ∨ s.phase t = .unready ∧ ∃ b, s₁.phase t = .pushing b
  sched : (s.sched 0).Follows s.reported (s₁.sched 0)

/-- Phases of tasks that have been queued are the same. -/
theorem Quiet.phase_eq (h : Quiet s s₁) (hp : 2 ≤ p.rank) : s₁.phase t = p ↔ s.phase t = p := by
  rcases h.phase t with heq | ⟨hun, b, hpush⟩
  · rw [heq]
  · rw [hun, hpush]
    constructor <;> rintro rfl <;> simp at hp

/-- Quiet steps keep who has what. -/
theorem Busy.quiet (h : Busy c s) (hq : Quiet s s₁) : Busy c s₁ where
  ready := by
    rw [hq.ready]
    refine h.ready.congr rfl hq.sched.flies ?_
    rintro i ⟨t, hi, hph⟩
    exact ⟨t, hq.pushed ▸ hi, (hq.phase_eq (by simp)).mp hph⟩
  completion := by
    rw [hq.completion]
    refine h.completion.congr rfl (fun i => by rw [Reporting, hq.work]; rfl) ?_
    rintro i ⟨hlt, hdue⟩
    rw [hq.reported] at hlt
    rw [hq.completion] at hdue
    exact ⟨hlt, hdue.imp_right (hq.sched.awaits i)⟩
  reports := hq.work ▸ h.reports
  drawn i hi ht := by
    rw [hq.ready] at hi
    rw [hq.work, hq.pushed]
    refine (h.drawn i hi ht).imp_right ?_
    rintro ⟨t, hpushed, hrank⟩
    have hsame : s₁.phase t = s.phase t := (hq.phase_eq (by omega)).mpr rfl
    exact ⟨t, hpushed, hsame ▸ hrank⟩
  left w hw := by
    rw [hq.ready]
    exact h.left w (hq.work ▸ hw)
  seats w hw := hq.work ▸ h.seats w hw
  head_le := by
    rw [hq.completion, hq.reported]
    exact h.head_le
  claimed i t hi hlt := by
    rw [hq.reported] at hi
    rw [hq.completion] at hlt
    have hrank := h.claimed i t hi hlt
    have hsame : s₁.phase t = s.phase t := (hq.phase_eq (by omega)).mpr rfl
    exact hsame ▸ hrank
  working t w hph := by
    rw [hq.phase_eq (by simp), hq.phase_eq (by simp)] at hph
    exact hq.work ▸ h.working t w hph
  processing t b hph := by
    rw [hq.phase_eq (by simp)] at hph
    rw [hq.reported]
    exact hq.sched.has t (h.processing t b hph)

theorem Quiet.turn {pc : SchedPc} (h : (s.sched 0).Follows s.reported pc) :
    Quiet s (s.setSched 0 pc) :=
  ⟨rfl, rfl, rfl, rfl, rfl, fun _ => .inl rfl, (update_self 0 pc s.sched).symm ▸ h⟩

theorem sched_setSched (s : State) (b : Nat) (pc : SchedPc) : (s.setSched b pc).sched b = pc := by
  show update s.sched b pc b = pc
  exact update_self ..

/-- The other tasks are where they were. -/
theorem phase_of_moved {q : Phase} (hphase : s₁.phase = update s.phase t p) (hpq : p ≠ q)
    (hx : s₁.phase x = q) : s.phase x = q := by
  rw [hphase, update_apply] at hx
  split at hx
  · exact absurd hx hpq
  · exact hx

/-- No phase goes back. -/
theorem rank_of_moved {r : Nat} (hphase : s₁.phase = update s.phase t p)
    (hp : (s.phase t).rank ≤ p.rank) (hx : r ≤ (s.phase x).rank) : r ≤ (s₁.phase x).rank := by
  rw [hphase, update_apply]
  split_ifs with heq
  · exact hx.trans (heq ▸ hp)
  · exact hx

/-- One task moves forward, on the hands of block 0. -/
structure Carried (s s₁ : State) (t : Nat) (p : Phase) : Prop where
  phase : s₁.phase = update s.phase t p
  rank : (s.phase t).rank ≤ p.rank
  idle : ∀ w, p ≠ .running w ∧ p ≠ .reporting w
  readyHead : s₁.ready.head = s.ready.head
  pushed : ∀ i x : Nat, s.pushed[i]? = some x → s₁.pushed[i]? = some x
  work : s₁.work = s.work
  reported : s₁.reported = s.reported

/-- What the step of block 0 does to the queues and to its own hands is left to show. -/
theorem Busy.carried (h : Busy c s) (hm : Carried s s₁ t p)
    (hready : s₁.ready.InFlight c.queueCapacity (s₁.sched 0).Flies (ReadyDue s₁))
    (hcompletion : s₁.completion.InFlight c.queueCapacity (Reporting s) (CompletionDue s₁))
    (hhead : s₁.completion.head ≤ s.reported.length)
    (hclaimed : ∀ i x, s.reported[i]? = some x → s.completion.head ≤ i → i < s₁.completion.head →
      6 ≤ (s₁.phase x).rank)
    (hprocessing : ∀ x b, s₁.phase x = .processing b → (s₁.sched 0).Has s.reported x) :
    Busy c s₁ where
  ready := hready
  completion := by
    rw [show Reporting s₁ = Reporting s by unfold Reporting; rw [hm.work]]
    exact hcompletion
  reports := hm.work ▸ h.reports
  drawn i hi ht := by
    rw [hm.readyHead] at hi
    rw [hm.work]
    refine (h.drawn i hi ht).imp_right ?_
    rintro ⟨x, hx, hrank⟩
    exact ⟨x, hm.pushed i x hx, rank_of_moved hm.phase hm.rank hrank⟩
  left w hw := by
    rw [hm.readyHead]
    exact h.left w (hm.work ▸ hw)
  seats w hw := hm.work ▸ h.seats w hw
  head_le := by
    rw [hm.reported]
    exact hhead
  claimed i x hi hlt := by
    rw [hm.reported] at hi
    rcases lt_or_ge i s.completion.head with hlt' | hge
    · exact rank_of_moved hm.phase hm.rank (h.claimed i x hi hlt')
    · exact hclaimed i x hi hge hlt
  working x w hx := by
    rw [hm.work]
    exact h.working x w (hx.imp (phase_of_moved hm.phase (hm.idle w).1)
      (phase_of_moved hm.phase (hm.idle w).2))
  processing x b hx := by
    rw [hm.reported]
    exact hprocessing x b hx

/-- The scheduler draws a ready ticket. -/
theorem Busy.drawReady (h : Busy c s) (hinv : Inv c s) (hpc : s.sched 0 = .push (.ticket t) k)
    (hph : s.phase t = .pushing 0) :
    Busy c ((s.drawReady t).setSched 0 (.push (.wait t s.ready.tail) k)) := by
  have hroom : s.ready.tail < c.queueCapacity := by
    have hroom' := (hinv.ledger.drawReady hph).ready.room
    rw [show (s.drawReady t).pushed = s.pushed ++ [t] from rfl, length_append] at hroom'
    have := hinv.ledger.ready.tail
    exact lt_of_lt_of_le (this ▸ Nat.lt_succ_self _) hroom'
  have hcarried :
      Carried s ((s.drawReady t).setSched 0 (.push (.wait t s.ready.tail) k)) t .queued :=
    ⟨rfl, by simp [hph], fun _ => ⟨nofun, nofun⟩, rfl, fun _ _ => getElem?_concat_of_some, rfl, rfl⟩
  have hnew := sched_setSched (s.drawReady t) 0 (.push (.wait t s.ready.tail) k)
  refine h.carried hcarried ?_ ?_ h.head_le (fun i x _ hge hlt => absurd hlt (not_lt.mpr hge)) ?_
  · refine h.ready.draw hroom (flags_tail hinv.ledger.ready hroom) rfl ?_ ?_
    · intro i
      rw [hnew, hpc]
      exact ⟨fun hi => .inr hi.symm, fun hi => hi.elim False.elim Eq.symm⟩
    · rintro i ⟨x, hi, hx⟩
      rcases getElem?_concat_cases hi with hold | ⟨rfl, -⟩
      · refine .inl ⟨x, hold, ?_⟩
        have hne : x ≠ t := by
          rintro rfl
          have hrank := (hinv.ledger.pushed.mem_iff x).mp (mem_of_getElem? hold)
          rw [hph] at hrank
          simp at hrank
        rw [hcarried.phase, update_of_ne hne] at hx
        exact hx
      · exact .inr hinv.ledger.ready.tail.symm
  · refine h.completion.congr rfl (fun _ => .rfl) ?_
    rintro i ⟨hlt, hdue⟩
    rw [hnew] at hdue
    exact ⟨hlt, .inl (hdue.resolve_right id)⟩
  · intro x b hx
    have hold := h.processing x b (phase_of_moved hcarried.phase nofun hx)
    rw [hnew]
    rw [hpc] at hold
    cases k with
    | init idx => exact hold
    | dependent u idx => exact hold

/-- The cell now has the task. -/
theorem Busy.publishReady (h : Busy c s) (hpc : s.sched 0 = .push (.publish t i) k) :
    Busy c ((s.publishReady c t i).setSched 0 k.pc) := by
  have hnew := sched_setSched (s.publishReady c t i) 0 k.pc
  have hflies : (s.sched 0).Flies i := by rw [hpc]; exact rfl
  refine { h with ready := ?_, completion := ?_, processing := ?_ }
  · refine h.ready.publish (h.ready.flying_lt i hflies) ?_ fun _ hdue => hdue
    intro j
    rw [hnew, hpc]
    constructor
    · intro hj
      cases k with
      | init idx => exact hj.elim
      | dependent u idx => exact hj.elim
    · rintro ⟨rfl, hne⟩
      exact absurd rfl hne
  · refine h.completion.congr rfl (fun _ => .rfl) ?_
    rintro j ⟨hj, hdue⟩
    rw [hnew] at hdue
    refine ⟨hj, .inl (hdue.resolve_right fun hj => ?_)⟩
    cases k with
    | init idx => exact hj.elim
    | dependent u idx => exact hj.elim
  · intro x b hx
    have hold := h.processing x b hx
    rw [hnew]
    rw [hpc] at hold
    cases k with
    | init idx => exact hold
    | dependent u idx => exact hold

/-- The scheduler takes over a report. -/
theorem Busy.claim (h : Busy c s) (hinv : Inv c s) (hpc : s.sched 0 = .pop late (.cas i))
    (hhead : s.completion.head = i) (hi : s.reported[i]? = some t) :
    Busy c ((s.claim 0 i).setSched 0 (.pop late (.wait i))) := by
  have hph : s.phase t = .finished := hinv.ledger.unclaimed i t (by omega) hi
  have hnew := sched_setSched (s.claim 0 i) 0 (.pop late (.wait i))
  have hcarried : Carried s ((s.claim 0 i).setSched 0 (.pop late (.wait i))) t (.processing 0) := by
    rw [claim_eq hi]
    exact ⟨rfl, by simp [hph], fun _ => ⟨nofun, nofun⟩, rfl, fun _ _ => id, rfl, rfl⟩
  refine h.carried hcarried ?_ ?_ (List.getElem?_eq_some_iff.mp hi).1 ?_ ?_
  · refine h.ready.congr rfl ?_ ?_
    · intro j
      rw [hnew, hpc]
      exact .rfl
    · rintro j ⟨x, hj, hx⟩
      exact ⟨x, hj, phase_of_moved hcarried.phase nofun hx⟩
  · refine h.completion.congr rfl (fun _ => .rfl) ?_
    rintro j ⟨hj, hdue⟩
    refine ⟨hj, .inl ?_⟩
    rw [hnew] at hdue
    rcases hdue with hle | heq
    · have hle : i + 1 ≤ j := hle
      omega
    · have heq : i = j := heq
      omega
  · intro j x hj hge hlt
    have hlt : j < i + 1 := hlt
    have hji : j = i := by omega
    subst hji
    cases hi.symm.trans hj
    rw [hcarried.phase, update_self]
    simp
  · intro x b hx
    rw [hnew]
    by_cases heq : x = t
    · exact heq ▸ hi
    · -- the block had nothing in hand before
      rw [hcarried.phase, update_of_ne heq] at hx
      have hold := h.processing x b hx
      rw [hpc] at hold
      exact hold.elim

/-- The scheduler reads the reported task. -/
theorem Busy.takeCompletion (h : Busy c s) (hinv : Inv c s) (hpc : s.sched 0 = .pop late (.take i))
    (hclaimed : Claimed s 0 i) (hwrote : s.completion.Wrote c.queueCapacity s.reported i) :
    Busy c ({ s with completion := s.completion.clear c.queueCapacity i }.setSched 0
      (.process (s.completion.cells (i % c.queueCapacity)))) := by
  have hlt : i < s.reported.length := (List.getElem?_eq_some_iff.mp hwrote).1
  have hhead : i < s.completion.head := by
    obtain ⟨u, hu, hph⟩ := hclaimed
    by_contra hge
    rw [hinv.ledger.unclaimed i u (not_lt.mp hge) hu] at hph
    cases hph
  have hnew := sched_setSched { s with completion := s.completion.clear c.queueCapacity i } 0
    (.process (s.completion.cells (i % c.queueCapacity)))
  refine { h with ready := ?_, completion := ?_, processing := ?_ }
  · refine h.ready.congr rfl ?_ fun _ hdue => hdue
    intro j
    rw [hnew, hpc]
    exact .rfl
  · refine h.completion.clear (lt_of_lt_of_le hlt hinv.ledger.completion.room)
      (fun _ => .rfl) ?_
    rintro j ⟨hj, hdue⟩
    rw [hnew] at hdue
    have hle : s.completion.head ≤ j := hdue.resolve_right id
    exact ⟨⟨hj, .inl hle⟩, by omega⟩
  · intro x b hx
    have hold := h.processing x b hx
    rw [hnew]
    rw [hpc] at hold
    have hold : s.reported[i]? = some x := hold
    exact some.inj (hwrote.symm.trans hold)

/-- The task leaves the scheduler. -/
theorem Busy.countCompleted (h : Busy c s) (hpc : s.sched 0 = .completedCount u)
    (hph : s.phase u = .processing 0) : Busy c ((s.countCompleted u).setSched 0 .loop) := by
  have hnew := sched_setSched (s.countCompleted u) 0 .loop
  have hcarried : Carried s ((s.countCompleted u).setSched 0 .loop) u .completed :=
    ⟨rfl, by simp [hph], fun _ => ⟨nofun, nofun⟩, rfl, fun _ _ => id, rfl, rfl⟩
  refine h.carried hcarried ?_ ?_ h.head_le (fun i x _ hge hlt => absurd hlt (not_lt.mpr hge)) ?_
  · refine h.ready.congr rfl ?_ ?_
    · intro j
      rw [hnew, hpc]
      exact .rfl
    · rintro j ⟨x, hj, hx⟩
      exact ⟨x, hj, phase_of_moved hcarried.phase nofun hx⟩
  · refine h.completion.congr rfl (fun _ => .rfl) ?_
    rintro j ⟨hj, hdue⟩
    rw [hnew] at hdue
    exact ⟨hj, .inl (hdue.resolve_right id)⟩
  · intro x b hx
    -- the task was the only one in hand
    have hold := h.processing x b (phase_of_moved hcarried.phase nofun hx)
    rw [hpc] at hold
    cases hold
    rw [hcarried.phase, update_self] at hx
    cases hx

/-- Moves between places where a block has nothing in hand. -/
theorem SchedPc.Follows.empty {reported : List Nat} {pc pc' : SchedPc}
    (h : ∀ i, ¬ pc.Flies i ∧ ¬ pc.Has reported i) (h' : ∀ i, ¬ pc'.Flies i ∧ ¬ pc'.Awaits i) :
    pc.Follows reported pc' :=
  ⟨fun i => iff_of_false (h' i).1 (h i).1, fun i hi => absurd hi (h' i).2,
    fun i hi => absurd hi (h i).2⟩

theorem Busy.pop {pc : PopPc} (h : Busy c s) (hinv : Inv c s) (hok : PopOk c s 0 pc)
    (herr : s.errorCount = 0) (hpc : s.sched 0 = .pop late pc)
    (hs : s.popStep c 0 late pc = some s') : Busy c s' := by
  have hfail : ∀ i, ¬ (popFailed 0 late).Flies i ∧ ¬ (popFailed 0 late).Awaits i := by
    intro i
    cases late <;> exact ⟨id, id⟩
  cases pc <;> dsimp only [State.popStep] at hs
  case head =>
    cases hs
    exact h.quiet (.turn (hpc ▸ .empty (fun _ => ⟨id, id⟩) fun _ => ⟨id, id⟩))
  case tail head =>
    split at hs <;> cases hs
    · exact h.quiet (.turn (hpc ▸ .empty (fun _ => ⟨id, id⟩) hfail))
    · exact h.quiet (.turn (hpc ▸ .empty (fun _ => ⟨id, id⟩) fun _ => ⟨id, id⟩))
  case cas head =>
    split at hs <;> cases hs
    · rename_i hhead
      exact h.claim hinv hpc hhead (getElem?_eq_getElem hok.2)
    · exact h.quiet (.turn (hpc ▸ .empty (fun _ => ⟨id, id⟩) fun _ => ⟨id, id⟩))
  case wait i =>
    split at hs <;> cases hs <;>
      exact h.quiet (.turn (hpc ▸ ⟨fun _ => .rfl, fun _ => id, fun _ => id⟩))
  case error i =>
    rw [if_neg (fun hne => hne herr)] at hs
    cases hs
    exact h.quiet (.turn (hpc ▸ ⟨fun _ => .rfl, fun _ => id, fun _ => id⟩))
  case take i =>
    cases hs
    exact h.takeCompletion hinv hpc hok.2.1 hok.2.2

theorem Busy.push {pc : PushPc} (h : Busy c s) (hinv : Inv c s) (hok : PushOk s 0 pc)
    (hpc : s.sched 0 = .push pc k) (hs : s.pushStep c 0 k pc = some s') :
    Busy c s' := by
  cases pc with
  | ticket t =>
    cases hs
    exact h.drawReady hinv hpc hok
  | wait t i =>
    obtain ⟨-, heq⟩ := ite_none_right_eq_some.mp hs
    cases heq
    refine h.quiet (.turn ?_)
    rw [hpc]
    cases k <;> exact ⟨fun _ => .rfl, fun _ => id, fun _ => id⟩
  | publish t i =>
    cases hs
    exact h.publishReady hpc

/-- The block makes a task ready and goes on to push it. -/
theorem Quiet.ready_task {pc : SchedPc} (hready : s₁.ready = s.ready)
    (hcompletion : s₁.completion = s.completion) (hpushed : s₁.pushed = s.pushed)
    (hreported : s₁.reported = s.reported) (hwork : s₁.work = s.work) (hun : s.phase t = .unready)
    (hphase : ∀ x, s₁.phase x = s.phase x ∨ x = t ∧ s₁.phase x = .pushing 0)
    (h : (s.sched 0).Follows s.reported pc) : Quiet s (s₁.setSched 0 pc) := by
  refine ⟨hready, hcompletion, hpushed, hreported, hwork, fun x => ?_, ?_⟩
  · rcases hphase x with heq | ⟨rfl, heq⟩
    · exact .inl heq
    · exact .inr ⟨hun, 0, heq⟩
  · rw [sched_setSched]
    exact h

theorem Busy.init {idx : Nat} (h : Busy c s) (hinv : Inv c s) (hpc : s.sched 0 = .init idx)
    (hs : s.schedStep c 0 = some s') : Busy c s' := by
  have hempty {pc : SchedPc} (hpc' : ∀ i, ¬ pc.Flies i ∧ ¬ pc.Awaits i) :
      (s.sched 0).Follows s.reported pc := hpc ▸ .empty (fun _ => ⟨id, id⟩) hpc'
  simp only [State.schedStep, hpc] at hs
  split at hs
  · split at hs
    · cases hs
      exact h.quiet (.turn (hempty fun _ => ⟨id, id⟩))
    · rename_i hfanin
      split at hs <;> cases hs
      · rename_i hroot
        have hun : s.phase idx = .unready :=
          hinv.root_unready (schedulers_pos c) hpc (by omega)
        refine h.quiet
          (.ready_task rfl rfl rfl rfl rfl hun (fun x => ?_) (hempty fun _ => ⟨id, id⟩))
        by_cases heq : x = idx
        · subst heq
          exact .inr ⟨rfl, update_self ..⟩
        · exact .inl (update_of_ne heq ..)
      · exact h.quiet (.turn (hempty fun _ => ⟨id, id⟩))
  · cases hs
    exact h.quiet (.turn (hempty fun _ => ⟨id, id⟩))

theorem Busy.casFanin {idx old : Nat} (h : Busy c s) (hinv : Inv c s)
    (hpc : s.sched 0 = .casFanin u idx old) (hold : old ≠ 0) (hs : s.schedStep c 0 = some s') :
    Busy c s' := by
  have hsame {pc : SchedPc} (hpc' : (SchedPc.casFanin u idx old).Follows s.reported pc) :
      (s.sched 0).Follows s.reported pc := hpc ▸ hpc'
  simp only [State.schedStep, hpc] at hs
  split at hs <;> cases hs
  · rename_i hfanin
    have hun : s.phase (c.dependentId u idx) = .unready :=
      hinv.ledger.unready_of_fanin (by rw [hfanin]; exact hold)
    refine h.quiet (.ready_task rfl rfl rfl rfl rfl hun (fun x => ?_) (hsame ?_))
    · rw [phase_decrement]
      split_ifs with heq
      · exact .inr ⟨heq.2, rfl⟩
      · exact .inl rfl
    · split <;> exact ⟨fun _ => .rfl, fun _ => id, fun _ => id⟩
  · exact h.quiet (.turn (hsame ⟨fun _ => .rfl, fun _ => id, fun _ => id⟩))

/-- A step of the scheduler block. -/
theorem Busy.schedStep (h : Busy c s) (hinv : Inv c s) (herr : s.errorCount = 0)
    (hplace : Place c s 0 (s.sched 0)) (herr' : s'.errorCount = 0)
    (hs : s.schedStep c 0 = some s') : Busy c s' := by
  have hok := hinv.sched 0 (schedulers_pos c)
  obtain ⟨pc, hpc⟩ : ∃ pc, s.sched 0 = pc := ⟨_, rfl⟩
  rw [hpc] at hok hplace
  have hmove {pc' : SchedPc} (hfollows : pc.Follows s.reported pc') : Busy c (s.setSched 0 pc') :=
    h.quiet (.turn (hpc ▸ hfollows))
  -- counters that nobody here looks at
  have hcount {s₁ : State} {pc' : SchedPc} (hready : s₁.ready = s.ready)
      (hcompletion : s₁.completion = s.completion) (hpushed : s₁.pushed = s.pushed)
      (hreported : s₁.reported = s.reported) (hwork : s₁.work = s.work)
      (hphase : s₁.phase = s.phase)
      (hfollows : pc.Follows s.reported pc') : Busy c (s₁.setSched 0 pc') := by
    refine h.quiet ⟨hready, hcompletion, hpushed, hreported, hwork, fun t => .inl ?_, ?_⟩
    · rw [← hphase]
      rfl
    · rw [sched_setSched, hpc]
      exact hfollows
  have hs₀ := hs
  rw [State.schedStep, hpc] at hs
  cases pc <;> dsimp only at hs
  case initError | tailError | rangeError | dependentError => exact hplace.elim
  case init idx => exact h.init hinv hpc hs₀
  case push pc k => exact h.push hinv hok.1 hpc hs
  case pop late pc => exact h.pop hinv hok herr hpc hs
  case casFanin u idx old => exact h.casFanin hinv hpc hok.2.2 hs₀
  case completedCount u =>
    cases hs
    exact h.countCompleted hpc hok.phase
  case initCount | loopCount | processedCount | processedByBlock =>
    cases hs
    exact hcount rfl rfl rfl rfl rfl rfl ⟨fun _ => .rfl, fun _ => id, fun _ => id⟩
  case barrierError =>
    rw [if_pos herr] at hs
    cases hs
    exact hmove ⟨fun _ => .rfl, fun _ => id, fun _ => id⟩
  case barrier =>
    split at hs <;> cases hs
    · exact hmove ⟨fun _ => .rfl, fun _ => id, fun _ => id⟩
    · refine hmove ?_
      unfold afterBarrier
      split <;> exact ⟨fun _ => .rfl, fun _ => id, fun _ => id⟩
  case checkTail | loop | loopError | process | readFanin | dependent | scan =>
    (repeat' split at hs) <;> cases hs <;> exact hmove ⟨fun _ => .rfl, fun _ => id, fun _ => id⟩
  case published | finished | claimed =>
    cases hs
    exact hmove ⟨fun _ => .rfl, fun _ => id, fun _ => id⟩
  case completed second published finished claimed =>
    split at hs <;> cases hs
    · cases second <;> exact hmove ⟨fun _ => .rfl, fun _ => id, fun _ => id⟩
    · exact hmove ⟨fun _ => .rfl, fun _ => id, fun _ => id⟩
  case cycleError idx =>
    cases hs
    exact absurd herr' (errorCount_recordError 7 idx)
  case done => cases hs

/-! ## The worker blocks -/

theorem work_setWork (s : State) (w : Nat) (pc : WorkPc) : (s.setWork w pc).work w = pc := by
  show update s.work w pc w = pc
  exact update_self ..

theorem work_setWork_of_ne (s : State) (pc : WorkPc) {w' : Nat} (hne : w' ≠ w) :
    (s.setWork w pc).work w' = s.work w' := by
  show update s.work w pc w' = s.work w'
  exact update_of_ne hne ..

/-- A worker moves on, with or without a task. What it does to the queues is left to show. -/
theorem Busy.ofWork (h : Busy c s) (hw : w < c.workerBlocks) (hwork : s₁.work = s.work)
    (hsched : s₁.sched = s.sched)
    (hready : s₁.ready.InFlight c.queueCapacity (s.sched 0).Flies (ReadyDue s₁))
    (hcompletion : s₁.completion.InFlight c.queueCapacity (Reporting (s₁.setWork w pc))
      (CompletionDue s₁))
    (hreports : ∀ i, pc.Flies i → (s.work w).Flies i ∨ ∀ v, ¬ (s.work v).Flies i)
    (hdrawn : ∀ i < s₁.ready.head, i < c.taskCount →
      (∃ v, ((s₁.setWork w pc).work v).drawn? = some i) ∨
        ∃ t, s₁.pushed[i]? = some t ∧ 3 ≤ (s₁.phase t).rank) (hhead : s.ready.head ≤ s₁.ready.head)
    (hleft : pc = .done → c.taskCount < s₁.ready.head)
    (hchead : s₁.completion.head = s.completion.head)
    (hreported : ∀ i x : Nat, s.reported[i]? = some x → s₁.reported[i]? = some x)
    (hclaimed : ∀ i x : Nat, s₁.reported[i]? = some x → i < s.completion.head →
      s.reported[i]? = some x ∧ s₁.phase x = s.phase x)
    (hworking : ∀ x v, s₁.phase x = .running v ∨ s₁.phase x = .reporting v →
      v = w ∧ pc.Has x ∨ v ≠ w ∧ (s.phase x = .running v ∨ s.phase x = .reporting v))
    (hprocessing : ∀ x b, s₁.phase x = .processing b → s.phase x = .processing b) :
    Busy c (s₁.setWork w pc) where
  ready := by
    rw [show (s₁.setWork w pc).sched = s.sched from hsched]
    exact hready
  completion := hcompletion
  reports := by
    show Sole _ (update s₁.work w pc)
    rw [hwork]
    exact h.reports.update hreports
  drawn := hdrawn
  left v hv := by
    by_cases heq : v = w
    · subst heq
      rw [work_setWork] at hv
      exact hleft hv
    · rw [work_setWork_of_ne s₁ pc heq, hwork] at hv
      exact lt_of_lt_of_le (h.left v hv) hhead
  seats v hv := by
    rw [work_setWork_of_ne s₁ pc (by omega), hwork]
    exact h.seats v hv
  head_le := by
    show s₁.completion.head ≤ s₁.reported.length
    rw [hchead]
    refine h.head_le.trans ?_
    by_contra hlt
    have hlt := not_le.mp hlt
    have hlast := hreported s₁.reported.length _ (getElem?_eq_getElem hlt)
    exact lt_irrefl _ (List.getElem?_eq_some_iff.mp hlast).1
  claimed i x hi hlt := by
    have hlt : i < s.completion.head := hchead ▸ hlt
    obtain ⟨hold, hphase⟩ := hclaimed i x hi hlt
    show 6 ≤ (s₁.phase x).rank
    rw [hphase]
    exact h.claimed i x hold hlt
  working x v hx := by
    rcases hworking x v hx with ⟨rfl, hhas⟩ | ⟨hne, hold⟩
    · rw [work_setWork]
      exact hhas
    · rw [work_setWork_of_ne s₁ pc hne, hwork]
      exact h.working x v hold
  processing x b hx := by
    have hold := h.processing x b (hprocessing x b hx)
    rw [show (s₁.setWork w pc).sched = s.sched from hsched]
    show (s.sched 0).Has s₁.reported x
    generalize s.sched 0 = pc' at hold
    cases pc' with
    | pop late pc' =>
      cases pc' with
      | wait i | error i | take i => exact hreported i x hold
      | head | tail | cas => exact hold
    | push pc' k => cases k <;> exact hold
    | _ => exact hold

/-- Who reports after a worker has moved. -/
theorem reporting_setWork (hwork : s₁.work = s.work) :
    Reporting (s₁.setWork w pc) i ↔ pc.Flies i ∨ ∃ v, v ≠ w ∧ (s.work v).Flies i := by
  constructor
  · rintro ⟨v, hv⟩
    by_cases heq : v = w
    · subst heq
      rw [work_setWork] at hv
      exact .inl hv
    · rw [work_setWork_of_ne s₁ pc heq, hwork] at hv
      exact .inr ⟨v, heq, hv⟩
  · rintro (hpc | ⟨v, hne, hv⟩)
    · exact ⟨w, by rwa [work_setWork]⟩
    · exact ⟨v, by rwa [work_setWork_of_ne s₁ pc hne, hwork]⟩

theorem reporting_congr (hwork : s₁.work = s.work) (hflies : pc.Flies i ↔ (s.work w).Flies i) :
    Reporting (s₁.setWork w pc) i ↔ Reporting s i := by
  rw [reporting_setWork hwork, hflies]
  constructor
  · rintro (hw | ⟨v, -, hv⟩)
    · exact ⟨w, hw⟩
    · exact ⟨v, hv⟩
  · rintro ⟨v, hv⟩
    by_cases heq : v = w
    · exact .inl (heq ▸ hv)
    · exact .inr ⟨v, heq, hv⟩

/-- Tickets in the hands of the other workers stay there. -/
theorem drawn_of_ne {v : Nat} (hwork : s₁.work = s.work) (hw : (s.work w).drawn? ≠ some i)
    (hv : (s.work v).drawn? = some i) :
    ((s₁.setWork w pc).work v).drawn? = some i := by
  have hne : v ≠ w := by
    rintro rfl
    exact hw hv
  rw [work_setWork_of_ne s₁ pc hne, hwork]
  exact hv

/-- A drawn ticket that the moving worker does not hold is accounted for as before. -/
theorem Busy.drawn_of_moved (h : Busy c s) (hwork : s₁.work = s.work)
    (hpushed : s₁.pushed = s.pushed)
    (hphase : s₁.phase = update s.phase t p) (hp : (s.phase t).rank ≤ p.rank)
    (hw : (s.work w).drawn? ≠ some i) (hi : i < s.ready.head) (ht : i < c.taskCount) :
    (∃ v, ((s₁.setWork w pc).work v).drawn? = some i) ∨
      ∃ t, s₁.pushed[i]? = some t ∧ 3 ≤ (s₁.phase t).rank :=
  (h.drawn i hi ht).imp (fun ⟨v, hv⟩ => ⟨v, drawn_of_ne hwork hw hv⟩)
    fun ⟨x, hx, hrank⟩ => ⟨x, hpushed ▸ hx, rank_of_moved hphase hp hrank⟩

/-- A task that is being worked on is in the hand of its worker only. -/
theorem Busy.ne_worker {v : Nat} (h : Busy c s) (hw : ¬ (s.work w).Has x)
    (hx : s.phase x = .running v ∨ s.phase x = .reporting v) : v ≠ w := by
  rintro rfl
  exact hw (h.working x v hx)

theorem Busy.workTurn (h : Busy c s) (hw : w < c.workerBlocks)
    (hflies : ∀ i, pc.Flies i ↔ (s.work w).Flies i) (hhas : ∀ t, (s.work w).Has t → pc.Has t)
    (hdrawn : pc.drawn? = (s.work w).drawn?) (hdone : pc ≠ .done) : Busy c (s.setWork w pc) := by
  refine h.ofWork hw rfl rfl h.ready ?_ (fun i hi => .inl ((hflies i).mp hi)) ?_ le_rfl
    (fun hd => absurd hd hdone) rfl (fun _ _ => id) (fun _ _ hi _ => ⟨hi, rfl⟩) ?_ fun _ _ => id
  · exact h.completion.congr rfl (fun i => reporting_congr rfl (hflies i)) fun _ => id
  · intro i hi ht
    refine (h.drawn i hi ht).imp_left ?_
    rintro ⟨v, hv⟩
    by_cases heq : v = w
    · exact ⟨w, by rw [work_setWork, hdrawn, ← heq, hv]⟩
    · exact ⟨v, by rw [work_setWork_of_ne s pc heq, hv]⟩
  · intro x v hx
    by_cases heq : v = w
    · exact .inl ⟨heq, hhas x (heq ▸ h.working x v hx)⟩
    · exact .inr ⟨heq, hx⟩

/-- A worker without a task draws a ready ticket. -/
theorem Busy.drawTicket {returned : List Nat} (h : Busy c s) (hw : w < c.workerBlocks)
    (hpc : s.work w = .ticket)
    (hnew : pc = .wait s.ready.head ∨ pc = .done ∧ c.taskCount ≤ s.ready.head) :
    Busy c ({ s with
      ready := { s.ready with head := s.ready.head + 1 }, returned := returned }.setWork w pc) := by
  have hempty (i : Nat) : pc.Flies i ↔ (s.work w).Flies i := by
    rw [hpc]
    rcases hnew with rfl | ⟨rfl, -⟩ <;> exact .rfl
  refine h.ofWork hw rfl rfl (h.ready.congr rfl (fun _ => .rfl) fun _ => id) ?_
    (fun i hi => .inl ((hempty i).mp hi)) ?_ (Nat.le_succ _) ?_ rfl (fun _ _ => id)
    (fun _ _ hi _ => ⟨hi, rfl⟩) ?_ fun _ _ => id
  · exact h.completion.congr rfl (fun i => reporting_congr rfl (hempty i)) fun _ => id
  · intro i hi ht
    have hi : i < s.ready.head + 1 := hi
    rcases Nat.lt_or_eq_of_le (Nat.le_of_lt_succ hi) with hlt | rfl
    · refine (h.drawn i hlt ht).imp_left ?_
      rintro ⟨v, hv⟩
      exact ⟨v, drawn_of_ne rfl (by rw [hpc]; nofun) hv⟩
    · rcases hnew with rfl | ⟨-, hle⟩
      · exact .inl ⟨w, by rw [work_setWork]; rfl⟩
      · omega
  · rintro rfl
    rcases hnew with hwait | ⟨-, hle⟩
    · cases hwait
    · exact Nat.lt_succ_of_le hle
  · intro x v hx
    -- the worker had no task
    exact .inr ⟨h.ne_worker (by rw [hpc]; exact id) hx, hx⟩

/-- Reported tasks that have been claimed are not the one in a worker's hands. -/
theorem Busy.claimed_ne (h : Busy c s) (hlow : (s.phase t).rank < 6) (hi : s.reported[i]? = some x)
    (hlt : i < s.completion.head) : x ≠ t := by
  rintro rfl
  have := h.claimed i x hi hlt
  omega

/-- A worker takes its task. -/
theorem Busy.startTask (h : Busy c s) (hinv : Inv c s) (hw : w < c.workerBlocks)
    (hpc : s.work w = .take i) (hi : s.pushed[i]? = some t) (hph : s.phase t = .queued) :
    Busy c ((s.startTask c w t i).setWork w (.run t)) := by
  have hphase : (s.startTask c w t i).phase = update s.phase t (.running w) := rfl
  have hlt : i < s.pushed.length := (List.getElem?_eq_some_iff.mp hi).1
  have hempty (j : Nat) : (WorkPc.run t).Flies j ↔ (s.work w).Flies j := by
    rw [hpc]
    exact .rfl
  refine h.ofWork hw rfl rfl ?_ ?_ (fun j hj => .inl ((hempty j).mp hj)) ?_ le_rfl nofun rfl
    (fun _ _ => id) ?_ ?_ fun x b hx => phase_of_moved hphase nofun hx
  · refine h.ready.clear (lt_of_lt_of_le hlt hinv.ledger.ready.room) (fun _ => .rfl) ?_
    rintro j ⟨x, hj, hx⟩
    refine ⟨⟨x, hj, phase_of_moved hphase nofun hx⟩, ?_⟩
    rintro rfl
    cases hi.symm.trans hj
    rw [hphase, update_self] at hx
    cases hx
  · exact h.completion.congr rfl (fun j => reporting_congr rfl (hempty j)) fun _ => id
  · intro j hj ht
    by_cases heq : j = i
    · subst heq
      refine .inr ⟨t, hi, ?_⟩
      rw [hphase, update_self]
      exact le_refl 3
    · refine h.drawn_of_moved rfl rfl hphase (by simp [hph]) ?_ hj ht
      rw [hpc]
      exact fun he => heq (some.inj he).symm
  · intro j x hj hlt
    refine ⟨hj, ?_⟩
    rw [hphase, update_of_ne (h.claimed_ne (by simp [hph]) hj hlt)]
  · intro x v hx
    by_cases heq : x = t
    · subst heq
      rw [hphase, update_self] at hx
      rcases hx with hx | hx <;> cases hx
      exact .inl ⟨rfl, rfl⟩
    · rw [hphase, update_of_ne heq] at hx
      exact .inr ⟨h.ne_worker (by rw [hpc]; exact id) hx, hx⟩

/-- The worker is to report the task. -/
theorem Busy.finishTask (h : Busy c s) (hw : w < c.workerBlocks) (hpc : s.work w = .run t)
    (hph : s.phase t = .running w) :
    Busy c ((s.finishTask w t).setWork w (.report (.ticket t))) := by
  have hphase : (s.finishTask w t).phase = update s.phase t (.reporting w) := rfl
  have hempty (j : Nat) : (WorkPc.report (.ticket t)).Flies j ↔ (s.work w).Flies j := by
    rw [hpc]
    exact .rfl
  refine h.ofWork hw rfl rfl ?_ ?_ (fun j hj => .inl ((hempty j).mp hj)) ?_ le_rfl nofun rfl
    (fun _ _ => id) ?_ ?_ fun x b hx => phase_of_moved hphase nofun hx
  · refine h.ready.congr rfl (fun _ => .rfl) ?_
    rintro j ⟨x, hj, hx⟩
    exact ⟨x, hj, phase_of_moved hphase nofun hx⟩
  · exact h.completion.congr rfl (fun j => reporting_congr rfl (hempty j)) fun _ => id
  · intro j
    exact h.drawn_of_moved rfl rfl hphase (by simp [hph]) (by rw [hpc]; nofun)
  · intro j x hj hlt
    refine ⟨hj, ?_⟩
    rw [hphase, update_of_ne (h.claimed_ne (by simp [hph]) hj hlt)]
  · intro x v hx
    by_cases heq : x = t
    · subst heq
      rw [hphase, update_self] at hx
      rcases hx with hx | hx <;> cases hx
      exact .inl ⟨rfl, rfl⟩
    · rw [hphase, update_of_ne heq] at hx
      exact .inr ⟨h.ne_worker (by rw [hpc]; exact fun hhas => heq (Eq.symm hhas)) hx, hx⟩

/-- A worker draws a completion ticket. -/
theorem Busy.drawCompletion (h : Busy c s) (hinv : Inv c s) (hw : w < c.workerBlocks)
    (hpc : s.work w = .report (.ticket t)) (hph : s.phase t = .reporting w) :
    Busy c ((s.drawCompletion t).setWork w (.report (.wait t s.completion.tail))) := by
  have hphase : (s.drawCompletion t).phase = update s.phase t .finished := rfl
  have htail : s.completion.tail = s.reported.length := hinv.ledger.completion.tail
  have hroom : s.completion.tail < c.queueCapacity := by
    have hroom' := (hinv.ledger.drawCompletion hph).completion.room
    rw [show (s.drawCompletion t).reported = s.reported ++ [t] from rfl, length_append] at hroom'
    exact lt_of_lt_of_le (htail ▸ Nat.lt_succ_self _) hroom'
  -- nobody else has the new ticket
  have hfresh (v : Nat) : ¬ (s.work v).Flies s.completion.tail := by
    intro hv
    have hlt : v < c.workerBlocks := by
      by_contra hge
      rw [h.seats v (not_lt.mp hge)] at hv
      exact hv
    have hok := hinv.work v hlt
    have hold : ∃ x, s.reported[s.completion.tail]? = some x := by
      generalize s.work v = pc at hv hok
      cases pc with
      | report pc =>
        cases pc with
        | ticket x => exact hv.elim
        | wait x i | publish x i =>
          cases hv
          exact ⟨x, hok⟩
      | _ => exact hv.elim
    obtain ⟨x, hx⟩ := hold
    have := (List.getElem?_eq_some_iff.mp hx).1
    omega
  refine h.ofWork hw rfl rfl ?_ ?_ ?_ ?_ le_rfl nofun rfl
    (fun _ _ => getElem?_concat_of_some) ?_ ?_ fun x b hx => phase_of_moved hphase nofun hx
  · refine h.ready.congr rfl (fun _ => .rfl) ?_
    rintro j ⟨x, hj, hx⟩
    exact ⟨x, hj, phase_of_moved hphase nofun hx⟩
  · refine h.completion.draw hroom (flags_tail hinv.ledger.completion hroom) rfl ?_ ?_
    · intro j
      rw [reporting_setWork (show (s.drawCompletion t).work = s.work from rfl)]
      constructor
      · rintro (hj | ⟨v, -, hv⟩)
        · exact .inr (Eq.symm hj)
        · exact .inl ⟨v, hv⟩
      · rintro (⟨v, hv⟩ | rfl)
        · refine .inr ⟨v, ?_, hv⟩
          rintro rfl
          rw [hpc] at hv
          exact hv
        · exact .inl rfl
    · rintro j ⟨hj, hdue⟩
      rw [show (s.drawCompletion t).reported = s.reported ++ [t] from rfl, length_append,
        length_singleton] at hj
      rcases Nat.lt_or_eq_of_le (Nat.le_of_lt_succ hj) with hlt | heq
      · exact .inl ⟨hlt, hdue⟩
      · exact .inr (heq.trans htail.symm)
  · intro j hj
    cases hj
    exact .inr hfresh
  · intro j
    exact h.drawn_of_moved rfl rfl hphase (by simp [hph]) (by rw [hpc]; nofun)
  · intro j x hj hlt
    rcases getElem?_concat_cases hj with hold | ⟨rfl, -⟩
    · refine ⟨hold, ?_⟩
      rw [hphase, update_of_ne (h.claimed_ne (by simp [hph]) hold hlt)]
    · exact absurd h.head_le (not_le.mpr hlt)
  · intro x v hx
    have hold : s.phase x = .running v ∨ s.phase x = .reporting v :=
      hx.imp (phase_of_moved hphase nofun) (phase_of_moved hphase nofun)
    refine .inr ⟨?_, hold⟩
    -- the worker's task was the one it has reported
    rintro rfl
    have hhas := h.working x v hold
    rw [hpc] at hhas
    cases hhas
    rw [hphase, update_self] at hx
    rcases hx with hx | hx <;> cases hx

/-- The report is in its cell. -/
theorem Busy.publishCompletion (h : Busy c s) (hw : w < c.workerBlocks)
    (hpc : s.work w = .report (.publish t i)) :
    Busy c ((s.publishCompletion c t i).setWork w .ticket) := by
  have hflies : (s.work w).Flies i := by rw [hpc]; exact rfl
  refine h.ofWork hw rfl rfl (h.ready.congr rfl (fun _ => .rfl) fun _ => id) ?_
    (fun _ hj => hj.elim)
    ?_ le_rfl nofun rfl (fun _ _ => id) (fun _ _ hi _ => ⟨hi, rfl⟩) ?_ fun _ _ => id
  · refine h.completion.publish (h.completion.flying_lt i ⟨w, hflies⟩) ?_ fun _ => id
    intro j
    rw [reporting_setWork (show (s.publishCompletion c t i).work = s.work from rfl)]
    constructor
    · rintro (hj | ⟨v, hne, hv⟩)
      · exact hj.elim
      · refine ⟨⟨v, hv⟩, ?_⟩
        rintro rfl
        exact h.reports.not_holds hflies hne hv
    · rintro ⟨⟨v, hv⟩, hne⟩
      refine .inr ⟨v, ?_, hv⟩
      rintro rfl
      rw [hpc] at hv
      exact hne (Eq.symm hv)
  · intro j hj ht
    refine (h.drawn j hj ht).imp_left ?_
    rintro ⟨v, hv⟩
    exact ⟨v, drawn_of_ne (s := s) rfl (by rw [hpc]; nofun) hv⟩
  · intro x v hx
    exact .inr ⟨h.ne_worker (by rw [hpc]; exact id) hx, hx⟩

/-- A step of a worker block. -/
theorem Busy.workStep (h : Busy c s) (hinv : Inv c s) (hfit : c.Fits) (herr : s.errorCount = 0)
    (herr' : s'.errorCount = 0) (hw : w < c.workerBlocks) (hs : s.workStep c w = some s') :
    Busy c s' := by
  have hok := hinv.work w hw
  obtain ⟨pc, hpc⟩ : ∃ pc, s.work w = pc := ⟨_, rfl⟩
  have hmove {pc' : WorkPc} (hflies : ∀ i, pc'.Flies i ↔ pc.Flies i)
      (hhas : ∀ t, pc.Has t → pc'.Has t) (hdrawn : pc'.drawn? = pc.drawn?) (hdone : pc' ≠ .done) :
      Busy c (s.setWork w pc') :=
    h.workTurn hw (hpc ▸ hflies) (hpc ▸ hhas) (hpc ▸ hdrawn) hdone
  rw [hpc] at hok
  rw [State.workStep, hpc] at hs
  cases pc <;> dsimp only at hs
  case ticket =>
    rw [hinv.nextHead_eq hfit hw hpc] at hs
    split at hs <;> cases hs
    · rename_i hle
      exact h.drawTicket hw hpc (.inr ⟨rfl, hle⟩)
    · exact h.drawTicket hw hpc (.inl rfl)
  case wait i =>
    split at hs <;> cases hs <;> exact hmove (fun _ => .rfl) (fun _ => id) rfl (by simp)
  case error i =>
    rw [if_neg (fun hne => hne herr)] at hs
    cases hs
    exact hmove (fun _ => .rfl) (fun _ => id) rfl (by simp)
  case take i =>
    cases hs
    have hdrawn : (s.work w).drawn? = some i := by
      rw [hpc]
      rfl
    exact h.startTask hinv hw hpc hok ((hinv.tickets.held w hw i hdrawn).2.2 _ hok)
  case run t =>
    split at hs <;> cases hs
    · exact h.finishTask hw hpc hok
    · exact hmove (fun _ => .rfl) (fun _ => id) rfl (by simp)
  case fail t =>
    cases hs
    exact absurd herr' (errorCount_recordError 1 t)
  case report pc =>
    cases pc with
    | ticket t =>
      cases hs
      exact h.drawCompletion hinv hw hpc hok
    | wait t i =>
      obtain ⟨-, heq⟩ := ite_none_right_eq_some.mp hs
      cases heq
      exact hmove (fun _ => .rfl) (fun _ => id) rfl (by simp)
    | publish t i =>
      cases hs
      exact h.publishCompletion hw hpc
  case done => cases hs

/-- With one scheduler block there is no error, and nothing gets lost. -/
def InOrder (c : Dag) (s : State) : Prop := Checked s ∧ Busy c s

theorem InOrder.step {a : Act} (h : InOrder c s) (hinv : Inv c s) (hsound : Sound c s)
    (hfit : c.Fits) (hwf : c.WellFormed) (hone : c.schedulers = 1) (hs : s.step c a = some s') :
    InOrder c s' := by
  obtain ⟨hchecked, hbusy⟩ := h
  cases a with
  | sched b =>
    obtain ⟨hb, hs'⟩ := ite_none_right_eq_some.mp hs
    have hzero : b = 0 := by omega
    subst hzero
    have halone : Undisturbed s (.sched 0) := fun hne => absurd rfl hne
    have hchecked' := hchecked.step hsound hinv hfit hwf halone hs
    exact ⟨hchecked', hbusy.schedStep hinv hchecked.1 (hsound.place 0 hb) hchecked'.1 hs'⟩
  | work w =>
    obtain ⟨hw, hs'⟩ := ite_none_right_eq_some.mp hs
    have hchecked' :=
      hchecked.step hsound hinv hfit hwf (show Undisturbed s (.work w) from trivial) hs
    exact ⟨hchecked', hbusy.workStep hinv hfit hchecked.1 hchecked'.1 hw hs'⟩

/-- All of it holds in every run. -/
theorem InOrder.reach (hfit : c.Fits) (hwf : c.WellFormed) (hone : c.schedulers = 1)
    (hr : Reach (State.step c) free (State.init c) s) : InOrder c s :=
  hr.invariant (show InOrder c (State.init c) from ⟨⟨rfl, trivial⟩, .launch c⟩)
    fun _ _ _ hr h _ hs => h.step (.reach hfit hr) (.reach hfit hwf hr) hfit hwf hone hs

end PtoRuntime.Cuda
