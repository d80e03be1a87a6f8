import PtoRuntime.Cuda.Graph

/-!
# Persistent CUDA executor — when block 0 reports a cycle

Block 0 compares four counters that it reads one after the other: ready tickets drawn, completion
tickets drawn, completions claimed, completions counted. If they agree it tries once more to pop a
completion, reads them again, and then reports error 7 for the first task whose fanin is not zero.
While it does so, other scheduler blocks may claim a completion and push the tasks that it makes
ready, and then the four numbers were never true at one time.

If no other block claims or pushes while block 0 is at it, the comparison is right: all tasks that
were pushed have been counted, so in an acyclic graph no fanin is left. A grid with one scheduler
block always meets that condition.

Main results: `only_cycle_error`, `no_false_error`, `cycle_reported_in_a_chain`.
-/

namespace PtoRuntime.Cuda

open Lib Function Option

variable {c : Dag} {s s' : State} {t u b w idx : Nat}

/-- Whatever the interleaving, a well-formed table leaves one error. -/
theorem only_cycle_error {ok : State → Act → Prop} (hfit : c.Fits) (hwf : c.WellFormed)
    (hr : Reach (State.step c) ok (State.init c) s) : s.errorCount = 0 ∨ s.errorCode = 7 :=
  (Sound.reach hfit hwf hr).error.imp_right And.right

/-! ## The condition -/

/-- Between the first read of `queue_tail` and the end of the comparison. -/
def SchedPc.checking : SchedPc → Bool
  | .finished .. | .claimed .. | .completed .. | .published true | .scan _ | .cycleError _ => true
  | .pop true .head | .pop true (.tail _) | .pop true (.cas _) => true
  | _ => false

/-- The block's next step draws a ready ticket or claims a completion. -/
def SchedPc.disturbs (s : State) : SchedPc → Bool
  | .push (.ticket _) _ => true
  | .pop _ (.cas head) => s.completion.head = head
  | _ => false

/-- While block 0 compares its counters, the other blocks neither push nor claim. -/
def Undisturbed (s : State) : Act → Prop
  | .sched b => b ≠ 0 → (s.sched 0).checking = true → (s.sched b).disturbs s = false
  | .work _ => True

instance : DecidableRel Undisturbed := fun s a =>
  match a with
  | .sched b => inferInstanceAs (Decidable (b ≠ 0 → (s.sched 0).checking = true →
      (s.sched b).disturbs s = false))
  | .work _ => inferInstanceAs (Decidable True)

/-! ## What block 0 knows -/

/-- All pushed tasks have reported, and all claimed ones are counted. -/
def Settled (s : State) : Prop :=
  s.ready.tail ≤ s.completion.tail ∧ s.completion.head ≤ s.completedCount

/-- All pushed tasks are counted. -/
def Idle (s : State) : Prop := s.ready.tail ≤ s.completedCount

def CheckOk (s : State) : SchedPc → Prop
  | .finished false published => published = s.ready.tail
  | .claimed false published finished => published = s.ready.tail ∧ finished ≤ s.completion.tail
  | .completed false published finished claimed =>
    published = s.ready.tail ∧ finished ≤ s.completion.tail ∧ claimed = s.completion.head
  | .pop true .head | .pop true (.cas _) => Settled s
  | .pop true (.tail head) => Settled s ∧ head = s.completion.head
  | .published true | .finished true _ | .claimed true .. | .completed true .. | .scan _ => Idle s
  | .cycleError _ => False
  | _ => True

/-- What the other blocks do meanwhile. -/
structure Calm (s s' : State) : Prop where
  readyTail : s'.ready.tail = s.ready.tail
  head : s'.completion.head = s.completion.head
  tail : s.completion.tail ≤ s'.completion.tail
  completed : s.completedCount ≤ s'.completedCount

theorem Settled.calm (h : Settled s) (hc : Calm s s') : Settled s' := by
  obtain ⟨hready, hhead⟩ := h
  refine ⟨?_, ?_⟩
  · rw [hc.readyTail]
    exact le_trans hready hc.tail
  · rw [hc.head]
    exact le_trans hhead hc.completed

theorem Idle.calm (h : Idle s) (hc : Calm s s') : Idle s' := by
  unfold Idle
  rw [hc.readyTail]
  exact le_trans h hc.completed

theorem CheckOk.calm {pc : SchedPc} (h : CheckOk s pc) (hc : pc.checking = true → Calm s s') :
    CheckOk s' pc := by
  cases pc with
  | finished second published =>
    cases second
    · exact Eq.trans h (hc rfl).readyTail.symm
    · exact Idle.calm h (hc rfl)
  | claimed second published finished =>
    cases second
    · exact ⟨h.1.trans (hc rfl).readyTail.symm, le_trans h.2 (hc rfl).tail⟩
    · exact Idle.calm h (hc rfl)
  | completed second published finished claimed =>
    cases second
    · exact ⟨h.1.trans (hc rfl).readyTail.symm, le_trans h.2.1 (hc rfl).tail,
        h.2.2.trans (hc rfl).head.symm⟩
    · exact Idle.calm h (hc rfl)
  | published second =>
    cases second
    · trivial
    · exact Idle.calm h (hc rfl)
  | scan => exact Idle.calm h (hc rfl)
  | cycleError => exact h.elim
  | pop late pc =>
    cases late
    · trivial
    · cases pc with
      | head | cas => exact Settled.calm h (hc rfl)
      | tail => exact ⟨h.1.calm (hc rfl), h.2.trans (hc rfl).head.symm⟩
      | wait | error | take => trivial
  | _ => trivial

/-! ## Other blocks -/

/-- Where no error is recorded, a scheduler step is calm unless it pushes or claims. -/
theorem schedStep_calm (hplace : Place c s b (s.sched b))
    (hnot : ∀ idx, s.sched b ≠ .cycleError idx)
    (hs : s.schedStep c b = some s') : s'.errorCount = s.errorCount ∧
      ((s.sched b).disturbs s = false → Calm s s') ∧ ∀ b', b' ≠ b → s'.sched b' = s.sched b' := by
  have hstay (s₁ : State) (pc : SchedPc) (herr : s₁.errorCount = s.errorCount)
      (hsched : s₁.sched = s.sched) (hcalm : (s.sched b).disturbs s = false → Calm s s₁) :
      (s₁.setSched b pc).errorCount = s.errorCount ∧
        ((s.sched b).disturbs s = false → Calm s (s₁.setSched b pc)) ∧
        ∀ b', b' ≠ b → (s₁.setSched b pc).sched b' = s.sched b' := by
    refine ⟨herr, fun hd => ⟨(hcalm hd).readyTail, (hcalm hd).head, (hcalm hd).tail,
      (hcalm hd).completed⟩, fun b' hne => ?_⟩
    show update s₁.sched b pc b' = _
    rw [update_of_ne hne, hsched]
  have hcalm {s₁ : State} (hready : s₁.ready.tail = s.ready.tail)
      (hhead : s₁.completion.head = s.completion.head)
      (htail : s₁.completion.tail = s.completion.tail)
      (hcount : s.completedCount ≤ s₁.completedCount) (_ : (s.sched b).disturbs s = false) :
      Calm s s₁ := ⟨hready, hhead, le_of_eq htail.symm, hcount⟩
  have hturn (pc : SchedPc) := hstay s pc rfl rfl (hcalm rfl rfl rfl le_rfl)
  have hcount (s₁ : State) (pc : SchedPc) (he : s₁.errorCount = s.errorCount)
      (hsched : s₁.sched = s.sched) (hready : s₁.ready.tail = s.ready.tail)
      (hcompletion : s₁.completion = s.completion) (hle : s.completedCount ≤ s₁.completedCount) :=
    hstay s₁ pc he hsched (hcalm hready (by rw [hcompletion]) (by rw [hcompletion]) hle)
  obtain ⟨pc, hpc⟩ : ∃ pc, s.sched b = pc := ⟨_, rfl⟩
  rw [hpc] at hplace
  rw [State.schedStep, hpc] at hs
  cases pc <;> dsimp only at hs
  case initError | tailError | rangeError | dependentError => exact hplace.elim
  case cycleError idx => exact absurd hpc (hnot idx)
  case init idx =>
    split at hs
    · split at hs
      · cases hs
        exact hturn _
      · split at hs <;> cases hs
        · exact hcount _ _ rfl rfl rfl rfl le_rfl
        · exact hturn _
    · cases hs
      exact hturn _
  case push pc k =>
    cases pc with
    | ticket t =>
      cases hs
      refine hstay _ _ rfl rfl fun hd => ?_
      rw [hpc] at hd
      cases hd
    | wait t i =>
      obtain ⟨-, heq⟩ := ite_none_right_eq_some.mp hs
      cases heq
      exact hturn _
    | publish t i =>
      cases hs
      exact hcount _ _ rfl rfl rfl rfl le_rfl
  case pop late pc =>
    cases pc <;> dsimp only [State.popStep] at hs
    case head =>
      cases hs
      exact hturn _
    case cas head =>
      split at hs <;> cases hs
      · rename_i hhead
        refine hstay _ _ rfl rfl fun hd => ?_
        rw [hpc] at hd
        exact absurd hhead (of_decide_eq_false hd)
      · exact hturn _
    case tail | wait | error => split at hs <;> cases hs <;> exact hturn _
    case take i =>
      cases hs
      exact hstay _ _ rfl rfl (hcalm rfl rfl rfl le_rfl)
  case initCount | loopCount | processedCount | processedByBlock =>
    cases hs
    exact hcount _ _ rfl rfl rfl rfl le_rfl
  case completedCount u =>
    cases hs
    exact hcount _ _ rfl rfl rfl rfl (Nat.le_succ _)
  case barrier | barrierError | checkTail | loop | loopError | process | readFanin | completed =>
    split at hs <;> cases hs <;> exact hturn _
  case casFanin u idx old =>
    split at hs <;> cases hs
    · exact hcount _ _ rfl rfl rfl rfl le_rfl
    · exact hturn _
  case dependent | scan => (repeat' split at hs) <;> cases hs <;> exact hturn _
  case published | finished | claimed =>
    cases hs
    exact hturn _
  case done => cases hs

theorem workStep_calm (hfail : ∀ t, s.work w ≠ .fail t) (hs : s.workStep c w = some s') :
    s'.errorCount = s.errorCount ∧ Calm s s' ∧ s'.sched = s.sched := by
  have hturn (pc : WorkPc) : (s.setWork w pc).errorCount = s.errorCount ∧
      Calm s (s.setWork w pc) ∧ (s.setWork w pc).sched = s.sched :=
    ⟨rfl, ⟨rfl, rfl, le_rfl, le_rfl⟩, rfl⟩
  obtain ⟨pc, hpc⟩ : ∃ pc, s.work w = pc := ⟨_, rfl⟩
  rw [State.workStep, hpc] at hs
  cases pc <;> dsimp only at hs
  case ticket =>
    split at hs <;> cases hs <;> exact ⟨rfl, ⟨rfl, rfl, le_rfl, le_rfl⟩, rfl⟩
  case wait i | error i => split at hs <;> cases hs <;> exact hturn _
  case take i =>
    cases hs
    exact ⟨rfl, ⟨rfl, rfl, le_rfl, le_rfl⟩, rfl⟩
  case run t =>
    split at hs <;> cases hs
    · exact ⟨rfl, ⟨rfl, rfl, le_rfl, le_rfl⟩, rfl⟩
    · exact hturn _
  case fail t => exact absurd hpc (hfail t)
  case report pc =>
    cases pc with
    | ticket t =>
      -- the only step that changes one of the four numbers
      cases hs
      exact ⟨rfl, ⟨rfl, rfl, Nat.le_succ _, le_rfl⟩, rfl⟩
    | wait t i =>
      obtain ⟨-, heq⟩ := ite_none_right_eq_some.mp hs
      cases heq
      exact hturn _
    | publish t i =>
      cases hs
      exact ⟨rfl, ⟨rfl, rfl, le_rfl, le_rfl⟩, rfl⟩
  case done => cases hs

/-! ## The comparison -/

/-- When all pushed tasks are counted, the others have not been touched. -/
theorem Inv.counted_of_idle (hinv : Inv c s) (hidle : Idle s) (ht : 2 ≤ (s.phase t).rank) :
    7 ≤ (s.phase t).rank := by
  refine hinv.ledger.counted.subset_of_length_le s.pushed (fun x hx => ?_) ?_ t
    ((hinv.ledger.pushed.mem_iff t).mpr ht)
  · exact (hinv.ledger.pushed.mem_iff x).mpr (by omega)
  · rw [← hinv.ledger.ready.tail, ← hinv.ledger.completedCount]
    exact hidle

theorem Sound.counted_of_idle (h : Sound c s) (hinv : Inv c s) (hall : AllInited c s)
    (hidle : Idle s) (ht : s.phase t ≠ .unready) : t ∈ s.counted := by
  refine (hinv.ledger.counted.mem_iff t).mpr (hinv.counted_of_idle hidle ?_)
  cases hph : s.phase t with
  | unready => exact absurd hph ht
  | pushing b =>
    -- pushed on behalf of a task that would not be counted yet
    obtain ⟨u, hu⟩ := h.pushing_processing hinv hall hph
    have := hinv.counted_of_idle (t := u) hidle (by simp [hu])
    rw [hu] at this
    exact absurd this (by simp)
  | _ => simp

/-- When all pushed tasks are counted, all tasks are: follow the edges backwards. -/
theorem Sound.fanin_eq_zero (h : Sound c s) (hinv : Inv c s) (hfit : c.Fits) (hwf : c.WellFormed)
    (herr : s.errorCount = 0) (hall : AllInited c s) (hidle : Idle s) :
    ∀ t < c.taskCount, s.fanin t = 0 := by
  intro t
  induction t using hwf.wellFounded.induction with
  | h t ih =>
    intro ht
    have hsub : c.listers t ⊆ s.decs t := by
      intro u hu
      obtain ⟨hlt, hlists⟩ := mem_listers.mp hu
      have hzero := ih u ⟨hlt, ht, hlists⟩ hlt
      have hph : s.phase u ≠ .unready := by
        by_cases hroot : c.fanin u = 0
        · exact h.root hinv hall hlt hroot
        · exact h.woken u hzero hroot
      obtain ⟨k, hk, hkt⟩ := hlists
      have hdec := (hinv.clean u (h.counted_of_idle hinv hall hidle hph)).2 herr k hk
      rwa [dependentId_eq hfit hlt (hwf.ranges u hlt) hk, hkt] at hdec
    have hnodup : (c.listers t).Nodup := List.nodup_range.filter _
    have hle := (hnodup.subperm hsub).length_le
    have hsum := hinv.ledger.fanin t
    rw [hwf.fanin_eq ht] at hsum
    omega

/-- Block 0 comes to a place that is part of the comparison or not. -/
theorem CheckOk.setSched {s₁ : State} {pc : SchedPc} (h : CheckOk s₁ pc) :
    CheckOk (s₁.setSched 0 pc) ((s₁.setSched 0 pc).sched 0) := by
  have hself : (s₁.setSched 0 pc).sched 0 = pc := by
    show update s₁.sched 0 pc 0 = pc
    exact update_self ..
  rw [hself]
  exact h.calm fun _ => ⟨rfl, rfl, le_rfl, le_rfl⟩

/-- The second attempt to pop a completion, up to the point where it has one. -/
theorem CheckOk.late {pc : PopPc} (h : CheckOk s (.pop true pc)) (hinv : Inv c s)
    (herr : s.errorCount = 0) (hs : s.popStep c 0 true pc = some s') :
    CheckOk s' (s'.sched 0) := by
  cases pc <;> dsimp only [State.popStep] at hs
  case head =>
    cases hs
    exact CheckOk.setSched ⟨h, rfl⟩
  case tail head =>
    obtain ⟨hsettled, hhead⟩ := h
    split at hs <;> cases hs
    · rename_i hfail
      -- nothing is left to claim, so everything that was pushed is counted
      have hle : s.reported.length ≤ c.taskCount := by
        refine hinv.ledger.reported.length_le fun x hx => (hinv.ledger.zero x fun hph => ?_).1
        rw [hph] at hx
        exact absurd hx (by decide)
      have htail := hinv.ledger.completion.tail
      refine CheckOk.setSched ?_
      show s.ready.tail ≤ s.completedCount
      have h₁ := hsettled.1
      have h₂ := hsettled.2
      omega
    · exact CheckOk.setSched hsettled
  case cas head =>
    split at hs <;> cases hs
    · exact CheckOk.setSched trivial
    · exact CheckOk.setSched h
  case wait i => split at hs <;> cases hs <;> exact CheckOk.setSched trivial
  case error i =>
    rw [if_neg (fun hne => hne herr)] at hs
    cases hs
    exact CheckOk.setSched trivial
  case take i =>
    cases hs
    exact CheckOk.setSched trivial

/-- The steps of block 0 that are not part of the comparison. -/
theorem CheckOk.early {pc : PopPc} (hs : s.popStep c 0 false pc = some s') :
    CheckOk s' (s'.sched 0) := by
  cases pc with
  | head | take =>
    cases hs
    exact CheckOk.setSched trivial
  | tail | cas | wait | error =>
    simp only [State.popStep] at hs
    split at hs <;> cases hs <;> exact CheckOk.setSched trivial

/-- Block 0 makes a step. -/
theorem CheckOk.own (h : CheckOk s (s.sched 0)) (hsound : Sound c s) (hinv : Inv c s)
    (hfit : c.Fits) (hwf : c.WellFormed) (herr : s.errorCount = 0)
    (hs : s.schedStep c 0 = some s') : CheckOk s' (s'.sched 0) := by
  have hok := hinv.sched 0 (schedulers_pos c)
  have hplace := hsound.place 0 (schedulers_pos c)
  obtain ⟨pc, hpc⟩ : ∃ pc, s.sched 0 = pc := ⟨_, rfl⟩
  rw [hpc] at h hok hplace
  rw [State.schedStep, hpc] at hs
  cases pc <;> dsimp only at hs
  case initError | tailError | rangeError | dependentError => exact hplace.elim
  case cycleError => exact h.elim
  case push pc k =>
    cases pc with
    | ticket t =>
      cases hs
      exact CheckOk.setSched trivial
    | wait t i =>
      obtain ⟨-, heq⟩ := ite_none_right_eq_some.mp hs
      cases heq
      exact CheckOk.setSched trivial
    | publish t i =>
      cases hs
      refine CheckOk.setSched ?_
      cases k <;> trivial
  case pop late pc =>
    cases late with
    | false => exact CheckOk.early hs
    | true => exact h.late hinv herr hs
  case initCount | loopCount | processedCount | processedByBlock | completedCount =>
    cases hs
    exact CheckOk.setSched trivial
  case barrier =>
    split at hs <;> cases hs
    · exact CheckOk.setSched trivial
    · refine CheckOk.setSched ?_
      unfold afterBarrier
      split <;> trivial
  case barrierError =>
    rw [if_pos herr] at hs
    cases hs
    exact CheckOk.setSched trivial
  case checkTail | loop | loopError | process | readFanin =>
    split at hs <;> cases hs <;> exact CheckOk.setSched trivial
  case casFanin u idx old =>
    split at hs <;> cases hs
    · refine CheckOk.setSched ?_
      split <;> trivial
    · exact CheckOk.setSched trivial
  case init | dependent => (repeat' split at hs) <;> cases hs <;> exact CheckOk.setSched trivial
  case published second =>
    cases hs
    refine CheckOk.setSched ?_
    cases second
    · exact Eq.refl s.ready.tail
    · exact h
  case finished second published =>
    cases hs
    refine CheckOk.setSched ?_
    cases second
    · exact ⟨h, le_rfl⟩
    · exact h
  case claimed second published finished =>
    cases hs
    refine CheckOk.setSched ?_
    cases second
    · exact ⟨h.1, h.2, rfl⟩
    · exact h
  case completed second published finished claimed =>
    split at hs <;> cases hs
    · rename_i hagree
      refine CheckOk.setSched ?_
      cases second with
      | false =>
        obtain ⟨hpub, hfin, hcl⟩ := h
        refine ⟨?_, ?_⟩
        · rw [← hpub, hagree.1]
          exact hfin
        · rw [← hcl]
          exact le_of_eq hagree.2.1
      | true => exact h
    · exact CheckOk.setSched trivial
  case scan idx =>
    split at hs
    · rename_i hidx
      rw [if_neg] at hs
      · cases hs
        exact CheckOk.setSched h
      · rw [hsound.fanin_eq_zero hinv hfit hwf herr hok h idx hidx]
        exact fun hne => hne rfl
    · cases hs
      exact CheckOk.setSched trivial
  case done => cases hs

/-! ## Main result -/

/-- No error so far, and block 0 is right about what it has seen. -/
def Checked (s : State) : Prop := s.errorCount = 0 ∧ CheckOk s (s.sched 0)

/-- An undisturbed comparison is right. -/
theorem Checked.step {a : Act} (h : Checked s) (hsound : Sound c s) (hinv : Inv c s)
    (hfit : c.Fits) (hwf : c.WellFormed) (hok : Undisturbed s a) (hs : s.step c a = some s') :
    Checked s' := by
  obtain ⟨herr, hcheck⟩ := h
  cases a with
  | sched b =>
    obtain ⟨hb, hs⟩ := ite_none_right_eq_some.mp hs
    have hplace := hsound.place b hb
    have hnot (idx : Nat) : s.sched b ≠ .cycleError idx := by
      intro hpc
      rw [hpc] at hplace
      cases hplace
      rw [hpc] at hcheck
      exact hcheck
    obtain ⟨herr', hcalm, hothers⟩ := schedStep_calm hplace hnot hs
    refine ⟨herr'.trans herr, ?_⟩
    by_cases hzero : b = 0
    · subst hzero
      exact hcheck.own hsound hinv hfit hwf herr hs
    · rw [hothers 0 (Ne.symm hzero)]
      exact hcheck.calm fun hchecking => hcalm (hok hzero hchecking)
  | work w =>
    obtain ⟨-, hs⟩ := ite_none_right_eq_some.mp hs
    obtain ⟨herr', hcalm, hsched⟩ := workStep_calm (hsound.work w) hs
    refine ⟨herr'.trans herr, ?_⟩
    rw [hsched]
    exact hcheck.calm fun _ => hcalm

/--
**No false error.** On an acyclic graph with correct counters, distinct dependents in range and
known function ids, in every run in which no other scheduler block pushes or claims while block 0
compares its counters, no error is recorded.
-/
theorem no_false_error (hfit : c.Fits) (hwf : c.WellFormed)
    (hr : Reach (State.step c) Undisturbed (State.init c) s) : s.errorCount = 0 := by
  have hlaunch : Checked (State.init c) := ⟨rfl, trivial⟩
  have hchecked : Checked s := hr.invariant hlaunch fun _ _ _ hr h hok hs =>
    h.step (.reach hfit hwf hr) (.reach hfit hr) hfit hwf hok hs
  exact hchecked.1

/-- A table in which lists only name later tasks. -/
theorem acyclic_of_lt {c : Launch} (h : ∀ u t, c.Edge u t → u < t) (t : Nat) :
    ¬ Relation.TransGen c.Edge t t := by
  have hlt (u : Nat) (hpath : Relation.TransGen c.Edge t u) : t < u := by
    induction hpath with
    | single hedge => exact h _ _ hedge
    | tail _ hedge ih => exact lt_trans ih (h _ _ hedge)
  exact fun hcycle => lt_irrefl t (hlt t hcycle)

/-- Tasks 0, 1, 2, each of which lists the next; two scheduler blocks and a worker. -/
def chainOfThree : Dag where
  tasks t := ⟨0, t, if t < 2 then 1 else 0, if t = 0 then 0 else 1⟩
  taskCount := 3
  dependents i := i + 1
  dependentCount := 2
  fanin t := if t = 0 then 0 else 1
  queueCapacity := 3
  schedulerBlocks := 2
  workerBlocks := 1
  known _ := true
  roomy := by decide
  word := by decide

theorem chainOfThree_fits : chainOfThree.Fits where
  scan := by decide
  heads := by decide
  ranges := by decide

theorem chainOfThree_wellFormed : chainOfThree.WellFormed where
  launched := by decide
  counted := by decide
  ranges := by decide
  tasks := by decide
  distinct := by decide
  known := by decide
  acyclic := by
    refine acyclic_of_lt fun u t hedge => ?_
    obtain ⟨-, -, k, hk, hkt⟩ := hedge
    have hnext : u + k + 1 = t := hkt
    omega

theorem only_cycle_error_chainOfThree : ∃ s,
    Reach (State.step chainOfThree) free (State.init chainOfThree) s ∧ .finish 0 ∈ s.log ∧
      (s.errorCount = 0 ∨ s.errorCode = 7) :=
  Reach.exists_of_run_imp (P := fun s => .finish 0 ∈ s.log)
    (schedTurns 0 7 ++ schedTurns 1 7 ++ schedTurns 0 3 ++ workTurns 0 7) (by decide +kernel)
    fun _ hr hf => ⟨hf, only_cycle_error chainOfThree_fits chainOfThree_wellFormed hr⟩

/-- The first task of three runs. -/
theorem no_false_error_chainOfThree : ∃ s,
    Reach (State.step chainOfThree) Undisturbed (State.init chainOfThree) s ∧
      (∀ b < 2, s.sched b = .done) ∧ s.completedCount = 3 ∧ s.errorCount = 0 := by
  refine Reach.exists_of_run_imp (P := fun s => (∀ b < 2, s.sched b = .done) ∧ s.completedCount = 3)
    (schedTurns 0 7 ++ schedTurns 1 7 ++ schedTurns 0 3 ++ workTurns 0 7 ++ schedTurns 1 18 ++
      workTurns 0 7 ++ schedTurns 0 18 ++ workTurns 0 8 ++ schedTurns 1 11 ++ schedTurns 0 1)
    (by decide +kernel) fun s hr ⟨hdone, hcount⟩ => ?_
  exact ⟨hdone, hcount, no_false_error chainOfThree_fits chainOfThree_wellFormed hr⟩

/-- Block 0 reports task 2 as part of a cycle: task 1, which lists it, was pushed between the two
counters that block 0 compared. -/
theorem cycle_reported_in_a_chain : chainOfThree.WellFormed ∧ chainOfThree.Fits ∧ ∃ s,
    Reach (State.step chainOfThree) free (State.init chainOfThree) s ∧
      s.errorCount = 1 ∧ s.errorCode = 7 ∧ s.errorTaskId = 2 := by
  refine ⟨chainOfThree_wellFormed, chainOfThree_fits, ?_⟩
  exact Reach.exists_of_run (schedTurns 0 7 ++ schedTurns 1 7 ++ schedTurns 0 7 ++ workTurns 0 3 ++
    schedTurns 0 1 ++ workTurns 0 4 ++ schedTurns 0 3 ++ schedTurns 1 3 ++ schedTurns 0 4 ++
    schedTurns 1 13 ++ schedTurns 0 6) (by decide +kernel)

end PtoRuntime.Cuda
