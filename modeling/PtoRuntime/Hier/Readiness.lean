import PtoRuntime.Hier.Notify
import PtoRuntime.Lib.Counting

/-!
# Hierarchical runtime — no early dispatch

A slot may enter READY only when all of its `fanin_producers` are COMPLETED or
CONSUMED. `submit_impl` counts the producers that are not COMPLETED when it attaches
the slot to them, and each completion that finds the slot among its consumers
increments `fanin_released`; the slot is taken to READY when the second number
reaches the first. The two numbers speak about the same producers unless

* a producer is attached between its COMPLETED store and its snapshot: it is not
  counted as live, and increments all the same;
* a completion compares with `fanin_count` before the submission has stored it.

Main results: `enters_ready_after_producers`, `early_ready_by_attach`, `early_ready_by_count`.
-/

namespace PtoRuntime.Hier

open Lib Function List

/-- The producer the orchestrator's next step attaches to. -/
def OrchPc.attaching? : OrchPc → Option Nat
  | .attach _ (prod :: _) _ => some prod
  | _ => none

/-- The consumer whose `fanin_count` the scheduler's next step reads. -/
def SchedPc.checking? : SchedPc → Option Nat
  | .check _ consumer _ _ => some consumer
  | _ => none

/-- No producer is attached between its COMPLETED store and its snapshot, and no
`fanin_count` is read before it is stored. -/
def ReadyGuard (s : State) : Act → Prop
  | .orch => ∀ p ∈ s.orch.attaching?, s.sched ≠ .snapshot p
  | .sched => ∀ c ∈ s.sched.checking?, s.orch.counting? ≠ some c
  | _ => True

instance : DecidableRel ReadyGuard := fun s a =>
  match a with
  | .orch => inferInstanceAs (Decidable (∀ p ∈ s.orch.attaching?, _))
  | .sched => inferInstanceAs (Decidable (∀ c ∈ s.sched.checking?, _))
  | .submit .. | .alloc _ | .scopeBegin | .scopeEnd | .reserve _ | .shutdown | .popCompletion
  | .popReady _ | .dispatch | .noWorker | .workerDone _ => inferInstanceAs (Decidable True)

/-- All producers of the slot are done. -/
def AllDone (s : State) (c : Nat) : Prop := ∀ p ∈ s.faninProducers c, Done s p

/-- Under the guard, only live producers are counted in `fanin_released`. -/
structure Fanin (s : State) : Prop where
  before : ∀ t c, Unsnapped s t → c ∈ s.fanoutConsumers t → t ∈ s.live c
  todo : ∀ t cs, s.sched.todo? = some (t, cs) → ∀ c ∈ cs, t ∈ s.live c
  live : ∀ c, ∀ t ∈ s.bumped c, t ∈ s.live c
  released : ∀ c, s.faninReleased c ≤ (s.bumped c).length
  checked : ∀ t c r cs, s.sched = .check t c r cs → r ≤ (s.bumped c).length
  passed : ∀ t c cs, s.sched = .casReady t c cs → s.orch.counting? ≠ some c ∧ AllDone s c

theorem fanin_init : Fanin State.init where
  before _ _ _ h := by cases h
  todo _ _ h := by cases h
  live _ _ h := by cases h
  released _ := le_refl 0
  checked _ _ _ _ h := by cases h
  passed _ _ _ h := by cases h

variable {s s' : State} {c : Nat}

theorem orchMove_sched (hs : s.OrchMove s') : s'.sched = s.sched := by
  cases hs with
  | attach => simp only [State.attachProducer]; split <;> rfl
  | @submit slot n pc => cases pc <;> rfl
  | @alloc slot pc => cases pc <;> rfl
  | _ => rfl

/-- A slot that has taken its snapshot does not go back. -/
theorem unsnapped_of_step {a : Act} {t : Nat} (hL : Life s) (hs : step s a = some s')
    (h : Unsnapped s' t) : Unsnapped s t := by
  rcases h with h | h
  · exact .inl fun hd => h (done_step hL hd hs)
  · rcases step_cases hs with ⟨-, hm⟩ | ⟨-, hm⟩ | ⟨-, -, hm⟩
    · -- the orchestrator does not move the scheduler
      exact .inr (orchMove_sched hm ▸ h)
    · cases hm with
      | @storeCompleted slot hpc =>
        cases h
        left
        rw [hL.done_iff, (hL.schedHead (t := t) (a := .completing) (by rw [hpc]; rfl)).1]
        simp
      | check | consumeSelf | consumeProducer => simp only at h; split at h <;> cases h
      | _ => cases h
    · cases hm with
      | popCompletion | popReady | dispatch | noWorker => cases h
      | _ => exact .inr h

/-- The orchestrator counts for no slot but the one it is at. -/
theorem counting_orchMove (hs : s.OrchMove s') (h : s'.orch.counting? = some c) :
    s.orch.counting? = some c := by
  cases hs with
  | attach hpc =>
    rw [hpc]
    simp only [State.attachProducer] at h
    split at h <;> exact h
  | @submit slot n pc hpc =>
    cases pc with
    | state => simp only [State.submitStep] at h; split at h <;> cases h
    | _ => cases h
  | @alloc slot pc hpc =>
    cases pc with
    | _ => cases h
  | scopeEnded | releaseTask => cases h
  | release =>
    simp only at h
    split at h <;> cases h
  | _ hpc =>
    rw [hpc]; exact h

theorem fanin_attach (h : Fanin s) {slot prod n : Nat} {producers : List Nat}
    (hpc : s.orch = .attach slot (prod :: producers) n) (hok : s.sched ≠ .snapshot prod) :
    Fanin (s.attachProducer slot prod producers n) := by
  have hPassed : ∀ t c cs, s.sched = .casReady t c cs → some slot ≠ some c ∧ AllDone s c := by
    have := h.passed
    rwa [hpc] at this
  unfold State.attachProducer
  split
  · exact { h with passed := hPassed }
  · -- a COMPLETED producer has taken its snapshot already, a live one is counted
    have hMono : ∀ c t, t ∈ s.live c → t ∈ (if s.state prod = .completed then s.live
        else update s.live slot (s.live slot ++ [prod])) c := by
      intro c t ht
      split
      · exact ht
      · by_cases hc : c = slot
        · subst hc; simp [ht]
        · simpa [hc] using ht
    refine { h with
      before := fun t c ht hc => ?_, todo := fun t cs ht c hc => hMono c t (h.todo t cs ht c hc)
      live := fun c t ht => hMono c t (h.live c t ht), passed := fun t c cs ht => ?_ }
    · have ht' : Unsnapped s t := ht
      simp only [update_apply] at hc
      by_cases htp : t = prod
      · subst htp
        rw [if_pos rfl, mem_append, mem_singleton] at hc
        rcases hc with hc | rfl
        · exact hMono c t (h.before t c ht' hc)
        · have hlive : s.state t ≠ .completed := fun hcomp =>
            ht'.elim (fun hn => hn (.inl hcomp)) hok
          simp [hlive]
      · rw [if_neg htp] at hc
        exact hMono c t (h.before t c ht' hc)
    · obtain ⟨hne, hall⟩ := hPassed t c cs ht
      refine ⟨hne, fun p hp => ?_⟩
      have hcs : c ≠ slot := fun he => hne (by rw [he])
      simp only [update_of_ne hcs] at hp
      exact hall p hp

/-- A guarded step of the orchestrator. -/
theorem fanin_orchMove (hL : Life s) (h : Fanin s) (hok : ReadyGuard s .orch) (hs : s.OrchMove s')
    (hSnap : ∀ t, Unsnapped s' t → Unsnapped s t) : Fanin s' := by
  have hBefore (t c : Nat) (ht : Unsnapped s' t) := h.before t c (hSnap t ht)
  have hPassed (t c : Nat) (cs : List Nat) (ht : s.sched = .casReady t c cs) :
      s'.orch.counting? ≠ some c ∧ ∀ p ∈ s.faninProducers c, Done s' p := by
    obtain ⟨hne, hall⟩ := h.passed t c cs ht
    exact ⟨fun hc => hne (counting_orchMove hs hc), fun p hp => done_orchMove hL (hall p hp) hs⟩
  have hZero (slot c : Nat) : update s.faninReleased slot 0 c ≤ (s.bumped c).length := by
    have := h.released c
    rw [update_apply]
    split <;> omega
  cases hs with
  | attach hpc => exact fanin_attach h hpc (hok _ (by rw [hpc]; rfl))
  | @submit slot n pc hpc =>
    cases pc with
    | faninReleased => exact { h with before := hBefore, released := hZero slot, passed := hPassed }
    | _ => exact { h with before := hBefore, passed := hPassed }
  | @alloc slot pc hpc =>
    cases pc with
    | fanin => exact { h with before := hBefore, released := hZero slot, passed := hPassed }
    | _ => exact { h with before := hBefore, passed := hPassed }
  | _ => exact { h with before := hBefore, passed := hPassed }

/-- The comparison with `fanin_count`: reaching it means that every live producer has
been counted. -/
theorem Fanin.allDone_of_check (hE : Edges s) (hN : Notify s) (h : Fanin s) {t c r : Nat}
    {cs : List Nat} (hpc : s.sched = .check t c r cs) (hr : r ≥ s.faninCount c)
    (hCounted : s.orch.counting? ≠ some c) : AllDone s c := by
  have hlen : (s.live c).length ≤ (s.bumped c).length := by
    have := h.checked t c r cs hpc
    have := hE.counted c hCounted
    omega
  have hsub := expected_subset_of_length_le (hN.nodup c) (fun p hp => h.live c p hp) hlen
  intro p hp
  rcases hE.live_or_done p c hp with hlive | hdone
  · exact hN.done c p (hsub hlive)
  · exact hdone

theorem fanin_notify (h : Fanin s) {slot consumer : Nat} {consumers : List Nat}
    (hpc : s.sched = .notify slot (consumer :: consumers)) :
    Fanin { s with
      faninReleased := update s.faninReleased consumer (s.faninReleased consumer + 1)
      bumped := update s.bumped consumer (s.bumped consumer ++ [slot])
      sched := .check slot consumer (s.faninReleased consumer + 1) consumers } := by
  have hTodo := h.todo slot (consumer :: consumers) (by rw [hpc]; rfl)
  refine ⟨fun t c ht hc => ?_, fun t cs ht c hc => ?_, fun c t ht => ?_, fun c => ?_,
    fun t c r cs ht => ?_, fun _ _ _ ht => (by cases ht)⟩
  · exact h.before t c (ht.imp_right (by simp)) hc
  · cases ht
    exact hTodo c (mem_cons_of_mem _ hc)
  · simp only [update_apply] at ht
    split_ifs at ht with hc
    · subst hc
      rcases mem_append.mp ht with ht | ht
      · exact h.live c t ht
      · rw [mem_singleton.mp ht]
        exact hTodo c mem_cons_self
    · exact h.live c t ht
  · have := h.released c
    simp only [update_apply]
    split_ifs with hc
    · subst hc
      simpa using this
    · exact this
  · cases ht
    have := h.released consumer
    simpa using this

/-- A guarded step of the scheduler. -/
theorem fanin_schedMove (hE : Edges s) (hN : Notify s) (h : Fanin s) (hok : ReadyGuard s .sched)
    (hs : s.SchedMove s') (hSnap : ∀ t, Unsnapped s' t → Unsnapped s t) : Fanin s' := by
  have hBefore (t c : Nat) (ht : Unsnapped s' t) := h.before t c (hSnap t ht)
  cases hs with
  | @snapshot slot hpc =>
    refine { h with
      before := hBefore, todo := fun t cs ht c hc => ?_, checked := nofun, passed := nofun }
    cases ht
    exact h.before slot c (.inr hpc) hc
  | notify hpc => exact fanin_notify h hpc
  | @check slot consumer released consumers hpc =>
    have hTodo := h.todo slot consumers (by rw [hpc]; rfl)
    refine { h with
      before := hBefore, todo := fun t cs ht => ?_, checked := fun t c r cs ht => ?_
      passed := fun t c cs ht => ?_ } <;> simp only at ht <;> split at ht <;> cases ht
    · exact hTodo
    · exact hTodo
    · have hCounted := hok consumer (by rw [hpc]; rfl)
      exact ⟨hCounted, h.allDone_of_check hE hN hpc ‹_› hCounted⟩
  | casFailed hpc | casReady hpc | push hpc =>
    exact { h with
      before := hBefore, todo := fun t cs ht => h.todo t cs (by rwa [hpc]), checked := nofun
      passed := nofun }
  | consumeSelf | consumeProducer =>
    refine { h with
      before := hBefore, todo := fun t cs ht => ?_, checked := fun t c r cs ht => ?_
      passed := fun t c cs ht => ?_ } <;> simp only at ht <;> split at ht <;> cases ht
  | _ => exact { h with before := hBefore, todo := nofun, checked := nofun, passed := nofun }

theorem fanin_move (hE : Edges s) (hN : Notify s) (h : Fanin s) (hs : Move s s')
    (hSnap : ∀ t, Unsnapped s' t → Unsnapped s t) : Fanin s' := by
  have hBefore (t c : Nat) (ht : Unsnapped s' t) := h.before t c (hSnap t ht)
  -- the slot the scheduler is at has edges, so it is not the one handed out now
  have hOld : ∀ t c cs, s.sched = .casReady t c cs → s.nextTaskId ≠ c := by
    intro t c cs ht hc
    have := hE.older t c (hN.edge c t (hN.visiting t c (by rw [ht]; rfl)))
    omega
  cases hs with
  | submit | scopeEnd | shutdown | alloc =>
    exact { h with passed := fun t c cs ht => ⟨nofun, (h.passed t c cs ht).2⟩ }
  | scopeBegin | workerDone => exact { h with }
  | reserve hpc =>
    exact { h with
      passed := fun t c cs ht =>
        ⟨fun hc => hOld t c cs ht (Option.some.inj hc), (h.passed t c cs ht).2⟩ }
  | _ => exact { h with before := hBefore, todo := nofun, checked := nofun, passed := nofun }

/-- Fanins are right in guarded runs. -/
theorem Fanin.reach (h : Reach step ReadyGuard State.init s) : Fanin s := by
  refine h.invariant fanin_init fun s a s' hr hf hok hs => ?_
  have hL := Life.reach hr
  have hE := Edges.reach hr
  have hN := Notify.reach hr
  have hSnap : ∀ t, Unsnapped s' t → Unsnapped s t := fun t => unsnapped_of_step hL hs
  rcases step_cases hs with ⟨rfl, hm⟩ | ⟨rfl, hm⟩ | ⟨-, -, hm⟩
  · exact fanin_orchMove hL hf hok hm hSnap
  · exact fanin_schedMove hE hN hf hok hm hSnap
  · exact fanin_move hE hN hf hm hSnap

/-! ## Entering READY -/

/-- Only the state store of a submission without live producers and the CAS of a
completion take a slot to READY. -/
theorem enters_ready_cases {a : Act} (hs : step s a = some s') (hBefore : s.state c ≠ .ready)
    (hAfter : s'.state c = .ready) :
    s'.faninProducers = s.faninProducers ∧
      (s.orch = .submit c 0 .state ∨ ∃ t cs, s.sched = .casReady t c cs) := by
  have hConsume : ∀ slot holder pc, (s.consumeEffect slot holder pc).state c ≠ .ready := by
    intro slot holder pc h
    rcases consumeEffect_state s slot holder pc c with he | ⟨-, -, -, he⟩
    · exact hBefore (he ▸ h)
    · rw [he] at h; cases h
  have hUpdate : ∀ slot st, update s.state slot st c = .ready →
      c = slot ∧ st = .ready := by
    intro slot st h
    by_cases hc : c = slot
    · subst hc; exact ⟨rfl, by simpa using h⟩
    · rw [update_of_ne hc] at h; exact absurd h hBefore
  rcases step_cases hs with ⟨-, hm⟩ | ⟨-, hm⟩ | ⟨-, -, hm⟩
  · cases hm with
    | @submit slot n pc hpc =>
      cases pc with
      | state =>
        obtain ⟨rfl, hst⟩ := hUpdate _ _ hAfter
        split_ifs at hst with hn
        exact ⟨rfl, .inl (by rw [hpc, hn])⟩
      | _ => exact absurd hAfter hBefore
    | @alloc slot pc hpc =>
      cases pc with
      | state => cases (hUpdate _ _ hAfter).2
      | _ => exact absurd hAfter hBefore
    | attach =>
      simp only [State.attachProducer] at hAfter
      split at hAfter <;> exact absurd hAfter hBefore
    | @release slot pc tasks hpc => exact absurd hAfter (hConsume slot .scope pc)
    | _ => exact absurd hAfter hBefore
  · cases hm with
    | storeCompleted => cases (hUpdate _ _ hAfter).2
    | @casReady slot consumer consumers hpc =>
      obtain ⟨rfl, -⟩ := hUpdate _ _ hAfter
      exact ⟨rfl, .inr ⟨slot, consumers, hpc⟩⟩
    | @consumeSelf slot pc hpc => exact absurd hAfter (hConsume slot .self pc)
    | @consumeProducer slot prod pc producers hpc =>
      exact absurd hAfter (hConsume prod (.consumer slot) pc)
    | _ => exact absurd hAfter hBefore
  · cases hm with
    | dispatch => cases (hUpdate _ _ hAfter).2
    | _ => exact absurd hAfter hBefore

/--
**No early dispatch, under the guard.** In every run in which no producer is attached
between its COMPLETED store and its snapshot and no `fanin_count` is read before it is
stored, the step that takes a slot to READY finds every slot of its `fanin_producers`
COMPLETED or CONSUMED.
-/
theorem enters_ready_after_producers {s s' : State} {a : Act}
    (hReach : Reach step ReadyGuard State.init s) (hs : step s a = some s') {c : Nat}
    (hBefore : s.state c ≠ .ready) (hAfter : s'.state c = .ready) :
    ∀ p ∈ s'.faninProducers c, Done s p := by
  obtain ⟨hProd, hcases⟩ := enters_ready_cases hs hBefore hAfter
  rw [hProd]
  rcases hcases with hpc | ⟨t, cs, hpc⟩
  · -- no live producer at all
    have hE := Edges.reach hReach
    have hnil : s.live c = [] :=
      length_eq_zero_iff.mp (hE.liveFanins c 0 (by rw [hpc]; rfl)).symm
    intro p hp
    rcases hE.live_or_done p c hp with hlive | hdone
    · rw [hnil] at hlive; cases hlive
    · exact hdone
  · exact ((Fanin.reach hReach).passed t c cs hpc).2

/-- Slot 0 writes `A` and runs; slot 1 reads `A` and waits; slot 0 completes, up to the
CAS on slot 1. -/
def wakeConsumer : List Act :=
  submitWriter tensorA ++ startTask ++
    [Act.submit .sub [[(tensorA, .input)]] [], .reserve 0] ++ replicate 10 Act.orch ++
    [Act.workerDone 0, .popCompletion] ++ replicate 4 Act.sched

theorem enters_ready_after_producers_wakeConsumer :
    ∃ s s', Reach step ReadyGuard State.init s ∧ step s .sched = some s' ∧
      s.state 1 ≠ .ready ∧ s'.state 1 = .ready ∧ 0 ∈ s'.faninProducers 1 ∧ Done s 0 := by
  obtain ⟨s, s', hReach, hs, hBefore, hAfter, hp⟩ : ∃ s s', Reach step ReadyGuard State.init s ∧
      step s .sched = some s' ∧ s.state 1 ≠ .ready ∧ s'.state 1 = .ready ∧
        0 ∈ s'.faninProducers 1 := Reach.exists_step_of_run wakeConsumer .sched (by decide)
  exact ⟨s, s', hReach, hs, hBefore, hAfter, hp,
    enters_ready_after_producers hReach hs hBefore hAfter 0 hp⟩

/-- Slots 0 and 1 run; slot 1 stores COMPLETED; slot 2 attaches to both and counts only
slot 0; the snapshot of slot 1 then contains slot 2. -/
def attachInWindow : List Act :=
  submitWriter tensorA ++ submitWriter tensorB ++ startTask ++ startTask ++
    [Act.workerDone 1, .popCompletion, .sched,
      .submit .sub [[(tensorA, .input), (tensorB, .input)]] [], .reserve 0] ++
    replicate 13 Act.orch ++ replicate 3 Act.sched

/-- Slot 2 becomes READY while its producer 0 is RUNNING. -/
theorem early_ready_by_attach :
    ∃ s s', Reach step free State.init s ∧ step s .sched = some s' ∧
      s.state 2 ≠ .ready ∧ s'.state 2 = .ready ∧ 0 ∈ s'.faninProducers 2 ∧ ¬ Done s 0 :=
  Reach.exists_step_of_run attachInWindow .sched (by decide)

/-- Slots 0 and 1 run; slot 2 attaches to both; slot 1 completes and compares with the
`fanin_count` that slot 2 has not stored yet. -/
def checkBeforeCount : List Act :=
  submitWriter tensorA ++ submitWriter tensorB ++ startTask ++ startTask ++
    [Act.workerDone 1, .submit .sub [[(tensorA, .input), (tensorB, .input)]] [], .reserve 0] ++
    replicate 7 Act.orch ++ [Act.popCompletion] ++ replicate 4 Act.sched ++
    replicate 6 Act.orch

theorem early_ready_by_count :
    ∃ s s', Reach step free State.init s ∧ step s .sched = some s' ∧
      s.state 2 ≠ .ready ∧ s'.state 2 = .ready ∧ 0 ∈ s'.faninProducers 2 ∧ ¬ Done s 0 :=
  Reach.exists_step_of_run checkBeforeCount .sched (by decide)

end PtoRuntime.Hier
