import PtoRuntime.Hier.Edges

/-!
# Hierarchical runtime — which completions reach which consumers

`on_task_complete` takes a snapshot of the slot's consumers and increments
`fanin_released` of each of them. Whatever the interleaving with a submission, an
increment goes along an edge, at most one along each edge, and a producer that was
live when the consumer attached still has its increment ahead of it or has done it.
-/

namespace PtoRuntime.Hier

open Lib Function List

/-- The slot whose completion runs and the consumers it has not visited yet. -/
def SchedPc.todo? : SchedPc → Option (Nat × List Nat)
  | .notify slot cs | .check slot _ _ cs | .casReady slot _ cs | .push slot _ cs =>
    some (slot, cs)
  | _ => none

/-- The slot whose completion runs and the consumer it has just incremented. -/
def SchedPc.visiting? : SchedPc → Option (Nat × Nat)
  | .check slot c _ _ | .casReady slot c _ | .push slot c _ => some (slot, c)
  | _ => none

/-- The completion of the slot has not taken its snapshot. -/
def Unsnapped (s : State) (t : Nat) : Prop := ¬ Done s t ∨ s.sched = .snapshot t

structure Notify (s : State) : Prop where
  nodup : ∀ c, (s.bumped c).Nodup
  edge : ∀ c, ∀ t ∈ s.bumped c, t ∈ s.faninProducers c
  done : ∀ c, ∀ t ∈ s.bumped c, Done s t
  before : ∀ c t, Unsnapped s t → t ∉ s.bumped c
  todo : ∀ t cs, s.sched.todo? = some (t, cs) →
    cs.Nodup ∧ ∀ c ∈ cs, t ∈ s.faninProducers c ∧ t ∉ s.bumped c
  visiting : ∀ t c, s.sched.visiting? = some (t, c) → t ∈ s.bumped c
  ahead : ∀ c, ∀ p ∈ s.live c, p ∈ s.bumped c ∨ Unsnapped s p ∨
    ∃ cs, s.sched.todo? = some (p, cs) ∧ c ∈ cs

theorem notify_init : Notify State.init where
  nodup _ := nodup_nil
  edge _ _ h := by cases h
  done _ _ h := by cases h
  before _ _ _ h := by cases h
  todo _ _ h := by cases h
  visiting _ _ h := by cases h
  ahead _ _ h := by cases h

variable {s s' : State} {t slot : Nat}

/-- A slot whose completion is past the snapshot. -/
theorem Life.snapped (h : Life s) (ht : s.sched.completing? = some t)
    (hne : s.sched ≠ .snapshot t) : Done s t ∧ ¬ Unsnapped s t := by
  have hd : Done s t := (h.done_iff t).mpr (.inl (h.phase_completing ht).1)
  exact ⟨hd, fun hu => hu.elim (fun hn => hn hd) hne⟩

theorem completing_of_todo {pc : SchedPc} {cs : List Nat} (h : pc.todo? = some (t, cs)) :
    pc.completing? = some t ∧ pc ≠ .snapshot t := by
  cases pc <;> simp_all [SchedPc.todo?, SchedPc.completing?]

/-- A step other than a completion leaves no slot done that was not. -/
theorem done_congr (ht : ¬ Done s t) (hne : ¬ Done s' t)
    (hState : ∀ u, u ≠ t → s'.state u = s.state u) (p : Nat) : Done s' p ↔ Done s p := by
  by_cases hp : p = t
  · subst hp; exact iff_of_false hne ht
  · rw [Done, Done, hState p hp]

theorem done_consumeEffect_iff (s : State) (slot : Nat) (holder : Holder) (pc : ConsumePc)
    (p : Nat) : Done (s.consumeEffect slot holder pc) p ↔ Done s p := by
  refine ⟨fun h => ?_, fun h => h.consumeEffect slot holder pc⟩
  rcases consumeEffect_state s slot holder pc p with he | ⟨-, -, hc, -⟩
  · rw [Done, he] at h; exact h
  · exact .inl hc

/-- Steps that neither attach a consumer nor visit one, and complete nothing. -/
theorem Notify.frame (h : Notify s) {sc : SchedPc} {state phase orch fanoutReleased
    tensormap activeTasks slabReleased readyQueue completionQueue executing pushes releases
    consumptions} (hDone : ∀ p, Done { s with state := state } p ↔ Done s p)
    (hSnap : ∀ t, sc = .snapshot t ↔ s.sched = .snapshot t)
    (hTodo : sc.todo? = s.sched.todo? ∨ sc.todo? = none ∧ ∀ x ∈ s.sched.todo?, x.2 = [])
    (hVisit : sc.visiting? = none ∨ sc.visiting? = s.sched.visiting?) :
    Notify { s with
      sched := sc, state := state, phase := phase, orch := orch, fanoutReleased := fanoutReleased
      tensormap := tensormap, activeTasks := activeTasks, slabReleased := slabReleased
      readyQueue := readyQueue, completionQueue := completionQueue, executing := executing
      pushes := pushes, releases := releases, consumptions := consumptions } := by
  have hUn (t : Nat) : Unsnapped { s with sched := sc, state := state } t ↔ Unsnapped s t :=
    or_congr (not_congr (hDone t)) (hSnap t)
  refine { h with
    done := fun c t ht => (hDone t).mpr (h.done c t ht)
    before := fun c t ht => h.before c t ((hUn t).mp ht)
    todo := fun t cs ht => h.todo t cs ?_, visiting := fun t c ht => h.visiting t c ?_
    ahead := fun c p hp => (h.ahead c p hp).imp_right (Or.imp (hUn p).mpr ?_) }
  · rcases hTodo with he | ⟨he, -⟩
    · exact he ▸ ht
    · cases he.symm.trans ht
  · rcases hVisit with he | he
    · cases he.symm.trans ht
    · exact he ▸ ht
  · rintro ⟨cs, ht, hc⟩
    rcases hTodo with he | ⟨-, he⟩
    · exact ⟨cs, he.trans ht, hc⟩
    · cases (he _ ht : cs = [])
      cases hc

/-! ## The orchestrator's steps -/

/-- Attaching: the producer is new to the slot, so nothing was counted for it, and a
live one is not done. -/
theorem notify_attach (hE : Edges s) (h : Notify s) {prod n : Nat} {producers : List Nat}
    (hpc : s.orch = .attach slot (prod :: producers) n) :
    Notify (s.attachProducer slot prod producers n) := by
  obtain ⟨-, hTodo⟩ := hE.todo slot (prod :: producers) (by rw [hpc]; rfl)
  have hnew := (hTodo prod mem_cons_self).2
  have hMono : ∀ c t, t ∈ s.faninProducers c →
      t ∈ update s.faninProducers slot (s.faninProducers slot ++ [prod]) c := by
    intro c t ht
    by_cases hc : c = slot
    · subst hc; simp [ht]
    · simpa [hc] using ht
  unfold State.attachProducer
  split
  · exact { h with }
  · rename_i hcons
    refine ⟨h.nodup, fun c t ht => hMono c t (h.edge c t ht), h.done, h.before, fun t cs ht => ?_,
      h.visiting, fun c p hp => ?_⟩
    · obtain ⟨hnd, hall⟩ := h.todo t cs ht
      exact ⟨hnd, fun c hc => ⟨hMono c t (hall c hc).1, (hall c hc).2⟩⟩
    · by_cases hst : s.state prod = .completed
      · simp only [hst, if_true] at hp
        exact h.ahead c p hp
      · simp only [hst, if_false, update_apply] at hp
        by_cases hc : c = slot
        · subst hc
          rw [if_pos rfl, mem_append, mem_singleton] at hp
          rcases hp with hp | rfl
          · exact h.ahead c p hp
          · exact .inr (.inl (.inl (by rintro (hd | hd) <;> simp_all)))
        · rw [if_neg hc] at hp
          exact h.ahead c p hp

/-- The slot `alloc` completes is nobody's producer yet. -/
theorem notify_allocState (hL : Life s) (hE : Edges s) (h : Notify s)
    (hpc : s.orch = .alloc slot .state) : Notify (s.allocStep slot .state) := by
  have hPend : s.orch.pending? = some slot := by rw [hpc]; rfl
  have hDone : ∀ p, Done s p → Done (s.allocStep slot .state) p := fun p hp =>
    done_orchMove hL hp (.alloc hpc)
  have hSame : ∀ p, p ≠ slot → (Done (s.allocStep slot .state) p ↔ Done s p) := by
    intro p hp
    have hst : (s.allocStep slot .state).state p = s.state p := update_of_ne hp ..
    rw [Done, Done, hst]
  have hUn : ∀ p, p ≠ slot → (Unsnapped (s.allocStep slot .state) p ↔ Unsnapped s p) := by
    intro p hp
    rw [Unsnapped, Unsnapped, hSame p hp]
    exact .rfl
  -- an edge from the slot would go to a newer one, and there is none
  have hNone : ∀ c, slot ∉ s.faninProducers c := by
    intro c hc
    have := hE.older slot c hc
    have := hL.last slot hPend
    omega
  refine ⟨h.nodup, h.edge, fun c t ht => hDone t (h.done c t ht), fun c t ht hb => ?_, h.todo,
    h.visiting, fun c p hp => ?_⟩
  · have hts : t ≠ slot := fun he => hNone c (he ▸ h.edge c t hb)
    exact h.before c t ((hUn t hts).mp ht) hb
  · have hps : p ≠ slot := fun he => hNone c (he ▸ (hE.live c).subset hp)
    rw [hUn p hps]
    exact h.ahead c p hp

/-- A step of the orchestrator. -/
theorem notify_orchMove (hL : Life s) (hE : Edges s) (h : Notify s) (hs : s.OrchMove s') :
    Notify s' := by
  cases hs with
  | attach hpc => exact notify_attach hE h hpc
  | @submit slot n pc hpc =>
    cases pc with
    | state =>
      -- the submitted slot was FREE and is not done now either
      have hNot : ¬ Done s slot := by
        rw [hL.done_iff, (hL.pending_lt (by rw [hpc]; rfl)).2]
        simp
      refine h.frame (done_congr hNot ?_ fun u hu => update_of_ne hu ..) (fun _ => .rfl)
        (.inl rfl) (.inr rfl)
      simp only [Done, update_self]
      split <;> simp
    | _ => exact { h with }
  | @alloc slot pc hpc =>
    cases pc with
    | state => exact notify_allocState hL hE h hpc
    | _ => exact { h with }
  | @release slot pc tasks hpc =>
    exact h.frame (done_consumeEffect_iff s slot .scope pc) (fun _ => .rfl) (.inl rfl)
      (.inr rfl)
  | _ => exact { h with }

/-! ## The scheduler's and the workers' steps -/

/-- The `fetch_add` on one consumer. -/
theorem notify_notify (hL : Life s) (h : Notify s) {consumer : Nat} {consumers : List Nat}
    (hpc : s.sched = .notify slot (consumer :: consumers)) :
    Notify { s with
      faninReleased := update s.faninReleased consumer (s.faninReleased consumer + 1)
      bumped := update s.bumped consumer (s.bumped consumer ++ [slot])
      sched := .check slot consumer (s.faninReleased consumer + 1) consumers } := by
  obtain ⟨hnd, hall⟩ := h.todo slot (consumer :: consumers) (by rw [hpc]; rfl)
  obtain ⟨hedge, hnew⟩ := hall consumer mem_cons_self
  obtain ⟨hdone, hsnap⟩ := hL.snapped (t := slot) (by rw [hpc]; rfl) (by rw [hpc]; simp)
  have hSnap : ∀ t, ¬ Done s t ∨ SchedPc.check slot consumer (s.faninReleased consumer + 1)
      consumers = .snapshot t → Unsnapped s t := fun t ht => ht.elim .inl (by simp)
  refine ⟨nodup_update_concat h.nodup hnew, fun c t ht => ?_, fun c t ht => ?_, fun c t ht hb => ?_,
    fun t cs ht => ?_, fun t c ht => ?_, fun c p hp => ?_⟩
  · have := h.edge c t
    simp only [update_apply] at ht
    grind -ring -linarith
  · have := h.done c t
    simp only [update_apply] at ht
    grind -ring -linarith [Done]
  · have := h.before c t (hSnap t ht)
    simp only [update_apply] at hb
    have hts : t ≠ slot := fun he => hsnap (he ▸ hSnap t ht)
    grind -ring -linarith
  · cases ht
    obtain ⟨hnot, hnd'⟩ := nodup_cons.mp hnd
    refine ⟨hnd', fun c hc => ?_⟩
    obtain ⟨he, hb⟩ := hall c (mem_cons_of_mem _ hc)
    have hcc : c ≠ consumer := fun heq => hnot (heq ▸ hc)
    exact ⟨he, by simpa [hcc] using hb⟩
  · cases ht
    simp
  · rcases h.ahead c p hp with hb | hu | ⟨cs, ht, hc⟩
    · left
      simp only [update_apply]
      split_ifs with hcc
      · subst hcc
        exact mem_append_left _ hb
      · exact hb
    · right; left
      rcases hu with hu | hu
      · exact .inl hu
      · rw [hpc] at hu; cases hu
    · -- the slot's own consumer: visited now, or still to come
      rw [hpc] at ht
      cases ht
      rcases mem_cons.mp hc with rfl | hc
      · left; simp
      · right; right
        exact ⟨consumers, rfl, hc⟩

/-- A step of the scheduler. -/
theorem notify_schedMove (hL : Life s) (hE : Edges s) (h : Notify s) (hs : s.SchedMove s') :
    Notify s' := by
  have hDone : ∀ p, Done s p → Done s' p := fun p hp => done_schedMove hp hs
  cases hs with
  | @storeCompleted slot hpc =>
    have hNot : ¬ Done s slot := by
      rw [hL.done_iff, (hL.schedHead (t := slot) (a := .completing) (by rw [hpc]; rfl)).1]
      simp
    have hUn (t : Nat) : (¬ Done { s with state := update s.state slot .completed } t ∨
        SchedPc.snapshot slot = .snapshot t) ↔ Unsnapped s t := by
      by_cases ht : t = slot
      · subst ht
        exact iff_of_true (.inr rfl) (.inl hNot)
      · simp [Unsnapped, Done, hpc, ht, Ne.symm ht]
    refine { h with
      done := fun c t ht => hDone t (h.done c t ht)
      before := fun c t ht => h.before c t ((hUn t).mp ht), todo := by rintro _ _ ⟨⟩,
        visiting := by rintro _ _ ⟨⟩
      ahead := fun c p hp => (h.ahead c p hp).imp_right (Or.imp (hUn p).mpr ?_) }
    rintro ⟨cs, ht, -⟩
    rw [hpc] at ht
    cases ht
  | @snapshot slot hpc =>
    have hUn (t : Nat)
        (ht : ¬ Done s t ∨ SchedPc.notify slot (s.fanoutConsumers slot) = .snapshot t) :
        Unsnapped s t := ht.imp_right (by simp)
    refine { h with
      before := fun c t ht => h.before c t (hUn t ht), todo := fun t cs ht => ?_
      visiting := by rintro _ _ ⟨⟩, ahead := fun c p hp => ?_ }
    · cases ht
      exact ⟨hE.consumersNodup slot, fun c hc =>
        ⟨(hE.consumer_iff slot c).mp hc, h.before c slot (.inr hpc)⟩⟩
    · rcases h.ahead c p hp with hb | hu | ⟨cs, ht, hc⟩
      · exact .inl hb
      · rcases hu with hu | hu
        · exact .inr (.inl (.inl hu))
        · -- the snapshot contains every consumer attached so far
          rw [hpc] at hu
          cases hu
          exact .inr (.inr ⟨_, rfl, (hE.consumer_iff slot c).mpr ((hE.live c).subset hp)⟩)
      · rw [hpc] at ht; cases ht
  | notified hpc =>
    refine h.frame (fun _ => .rfl) (by simp [hpc]) (.inr ⟨rfl, ?_⟩) (.inl rfl)
    rw [hpc]
    rintro _ ⟨⟩
    rfl
  | notify hpc => exact notify_notify hL h hpc
  | @check slot consumer released consumers hpc =>
    refine h.frame (fun _ => .rfl) (fun t => ?_) (.inl ?_) ?_ <;> rw [hpc] <;> split
    · simp
    · simp
    · rfl
    · rfl
    · exact .inr rfl
    · exact .inl rfl
  | @casReady slot consumer consumers hpc hst =>
    refine h.frame (done_congr (t := consumer) ?_ ?_ fun u hu => update_of_ne hu ..)
      (by simp [hpc]) (.inl (by rw [hpc]; rfl)) (.inr (by rw [hpc]; rfl))
    · simp [Done, hst]
    · simp [Done]
  | @consumeSelf slot pc hpc =>
    refine h.frame (done_consumeEffect_iff s slot .self pc) (fun t => ?_) (.inl ?_) (.inl ?_) <;>
      cases s.consumeNext slot pc <;> simp [hpc, SchedPc.todo?, SchedPc.visiting?]
  | @consumeProducer slot prod pc producers hpc =>
    refine h.frame (done_consumeEffect_iff s prod (.consumer slot) pc) (fun t => ?_) (.inl ?_)
      (.inl ?_) <;>
      cases s.consumeNext prod pc <;> simp [hpc, SchedPc.todo?, SchedPc.visiting?]
  | _ hpc =>
    exact h.frame (fun _ => .rfl) (by simp [hpc]) (.inl (by rw [hpc]; rfl)) (.inl rfl)

theorem notify_move (hL : Life s) (h : Notify s) (hs : Move s s') :
    Notify s' := by
  cases hs with
  | popCompletion hpc | popReady hpc | noWorker hpc =>
    exact h.frame (fun _ => .rfl) (by simp [hpc]) (.inl (by rw [hpc]; rfl)) (.inl rfl)
  | @dispatch queue slot hpc =>
    refine h.frame (done_congr (t := slot) ?_ ?_ fun u hu => update_of_ne hu ..)
      (by simp [hpc]) (.inl (by rw [hpc]; rfl)) (.inl rfl)
    · rw [hL.done_iff, (hL.schedHead (t := slot) (a := .dispatching) (by rw [hpc]; rfl)).1]
      simp
    · simp [Done]
  | _ => exact { h with }

theorem notify_step {a : Act} (hL : Life s) (hE : Edges s) (h : Notify s)
    (hs : step s a = some s') : Notify s' := by
  rcases step_cases hs with ⟨-, hm⟩ | ⟨-, hm⟩ | ⟨-, -, hm⟩
  · exact notify_orchMove hL hE h hm
  · exact notify_schedMove hL hE h hm
  · exact notify_move hL h hm

/-- Notifications are right in every run. -/
theorem Notify.reach {ok : State → Act → Prop} (h : Reach step ok State.init s) :
    Notify s :=
  h.invariant notify_init fun _ _ _ hr hn _ hs =>
    notify_step (Life.reach hr) (Edges.reach hr) hn hs

end PtoRuntime.Hier
