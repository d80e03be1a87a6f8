import PtoRuntime.Cuda.Ledger

/-!
# Persistent CUDA executor — the operations on shared memory

One lemma for each operation that changes more than a block's own place: what it needs to keep the
ledger, and that the other blocks can go on relying on what they knew.
-/

namespace PtoRuntime.Cuda

open Lib Function List

variable {l : List Event} {p : Phase} {d : Nat}

section Rosters

variable {phase : Nat → Phase} {t r : Nat} {p : Phase}

/-- A task moves without crossing `r`. -/
theorem roster_stay {l : List Nat} (h : Roster (fun x => r ≤ (phase x).rank) l)
    (hr : r ≤ p.rank ↔ r ≤ (phase t).rank) :
    Roster (fun x => r ≤ (update phase t p x).rank) l := by
  refine h.congr fun x => ?_
  rw [update_apply]
  split_ifs with he
  · rw [he]
    exact hr
  · exact .rfl

/-- A task comes to `r`. -/
theorem roster_come {l : List Nat} (h : Roster (fun x => r ≤ (phase x).rank) l)
    (hlow : (phase t).rank < r) (hp : r ≤ p.rank) :
    Roster (fun x => r ≤ (update phase t p x).rank) (l ++ [t]) := by
  refine h.concat (by omega) fun x => ?_
  rw [update_apply]
  split
  · rename_i he
    exact ⟨fun _ => .inr he, fun _ => hp⟩
  · rename_i hne
    exact ⟨.inl, fun hx => hx.resolve_right hne⟩

theorem log_stay (h : Roster (Event.Happened phase) l) (h₃ : 3 ≤ p.rank ↔ 3 ≤ (phase t).rank)
    (h₄ : 4 ≤ p.rank ↔ 4 ≤ (phase t).rank) :
    Roster (Event.Happened (update phase t p)) l := by
  refine h.congr fun e => ?_
  cases e with
  | start x | finish x =>
    simp only [Event.Happened, update_apply]
    split_ifs with he
    · rw [he]
      assumption
    · exact .rfl

/-- The log gets a start. -/
theorem log_start (h : Roster (Event.Happened phase) l) (hlow : (phase t).rank < 3)
    (hp : p.rank = 3) :
    Roster (Event.Happened (update phase t p)) (l ++ [.start t]) := by
  refine h.concat (by simp only [Event.Happened]; omega) fun e => ?_
  cases e with
  | start x =>
    simp only [Event.Happened, update_apply, Event.start.injEq]
    split
    · rename_i he
      exact ⟨fun _ => .inr he, fun _ => by omega⟩
    · rename_i hne
      exact ⟨.inl, fun hx => hx.resolve_right hne⟩
  | finish x =>
    simp only [Event.Happened, update_apply, reduceCtorEq, or_false]
    split_ifs with he
    · rw [he]
      omega
    · exact .rfl

/-- The log gets a finish. -/
theorem log_finish (h : Roster (Event.Happened phase) l) (hlow : (phase t).rank = 3)
    (hp : p.rank = 4) :
    Roster (Event.Happened (update phase t p)) (l ++ [.finish t]) := by
  refine h.concat (by simp only [Event.Happened]; omega) fun e => ?_
  cases e with
  | start x =>
    simp only [Event.Happened, update_apply, reduceCtorEq, or_false]
    split_ifs with he
    · rw [he]
      omega
    · exact .rfl
  | finish x =>
    simp only [Event.Happened, update_apply, Event.finish.injEq]
    split
    · rename_i he
      exact ⟨fun _ => .inr he, fun _ => by omega⟩
    · rename_i hne
      exact ⟨.inl, fun hx => hx.resolve_right hne⟩

end Rosters

/-- Where an event of a longer log stands. -/
theorem concat_eq_append_cons {α : Type} {l l₁ l₂ : List α} {e x : α}
    (h : l ++ [e] = l₁ ++ x :: l₂) : (∃ l₂', l = l₁ ++ x :: l₂') ∨ l₁ = l ∧ x = e := by
  rcases eq_nil_or_concat l₂ with rfl | ⟨l₂', y, rfl⟩
  · obtain ⟨hl, he⟩ := append_inj' h rfl
    exact .inr ⟨hl.symm, (singleton_inj.mp he).symm⟩
  · rw [concat_eq_append, ← cons_append, ← append_assoc] at h
    exact .inl ⟨l₂', (append_inj' h rfl).1⟩

variable {c : Dag} {o : Act} {s s' : State} {t u b w i old : Nat}

/-! ## Frames -/

/-- Nothing of the ledger changes. -/
structure Same (s s' : State) : Prop where
  phase : s'.phase = s.phase
  fanin : s'.fanin = s.fanin
  pushed : s'.pushed = s.pushed
  reported : s'.reported = s.reported
  counted : s'.counted = s.counted
  decs : s'.decs = s.decs
  log : s'.log = s.log
  completion : s'.completion = s.completion
  completedCount : s'.completedCount = s.completedCount
  readyTail : s'.ready.tail = s.ready.tail
  readyCells : s'.ready.cells = s.ready.cells
  readyFlags : s'.ready.flags = s.ready.flags

/-- The ledger depends on these fields only. -/
theorem Ledger.same (h : Ledger c s) (hs : Same s s') : Ledger c s' where
  zero := by rw [hs.phase, hs.fanin]; exact h.zero
  pushed := by rw [hs.phase, hs.pushed]; exact h.pushed
  reported := by rw [hs.phase, hs.reported]; exact h.reported
  counted := by rw [hs.phase, hs.counted]; exact h.counted
  log := by rw [hs.phase, hs.log]; exact h.log
  ready := by
    rw [hs.pushed]
    refine ⟨hs.readyTail.trans h.ready.tail, h.ready.room, fun j hj hf => ?_⟩
    rw [hs.readyFlags] at hf ⊢
    obtain ⟨hfl, hw⟩ := h.ready.flagged j hj hf
    refine ⟨hfl, ?_⟩
    unfold TicketQueue.Wrote at hw ⊢
    rw [hs.readyCells]
    exact hw
  completion := by rw [hs.completion, hs.reported]; exact h.completion
  unclaimed := by rw [hs.completion, hs.reported, hs.phase]; exact h.unclaimed
  fanin := by rw [hs.fanin, hs.decs]; exact h.fanin
  finished := by rw [hs.decs, hs.log]; exact h.finished
  order := by rw [hs.log, hs.decs]; exact h.order
  completedCount := by rw [hs.completedCount, hs.counted]; exact h.completedCount

/-- Phases that stay what they are, as seen by the others. -/
theorem owned_setPhase (ht : (s.phase t).owner = none ∨ (s.phase t).owner = some o) (x : Nat)
    (o' : Act) (hne : o' ≠ o) (hx : (s.phase x).owner = some o') :
    update s.phase t p x = s.phase x := by
  refine update_of_ne ?_ ..
  rintro rfl
  rcases ht with ht | ht
  · rw [ht] at hx
    cases hx
  · rw [ht] at hx
    exact hne (Option.some.inj hx).symm

theorem Later.recordError (code task : Nat) : Later c o s (s.recordError code task) := by
  unfold State.recordError
  split
  · exact { Later.refl (o := o) s with error := nofun }
  · exact .refl s

theorem Same.recordError (code task : Nat) : Same s (s.recordError code task) := by
  unfold State.recordError
  split <;> exact ⟨rfl, rfl, rfl, rfl, rfl, rfl, rfl, rfl, rfl, rfl, rfl, rfl⟩

theorem errorCount_recordError (code task : Nat) : (s.recordError code task).errorCount ≠ 0 := by
  unfold State.recordError
  split
  · exact Nat.one_ne_zero
  · assumption

/-! ## Tasks that move -/

theorem zero_setPhase (h : Ledger c s) (ht : t < c.taskCount) (hzero : s.fanin t = 0) (x : Nat)
    (hx : update s.phase t p x ≠ .unready) :
    x < c.taskCount ∧ s.fanin x = 0 := by
  rw [update_apply] at hx
  split_ifs at hx with he
  · rw [he]
    exact ⟨ht, hzero⟩
  · exact h.zero x hx

theorem zero_moved (h : Ledger c s) (hne : s.phase t ≠ .unready) (x : Nat)
    (hx : update s.phase t p x ≠ .unready) : x < c.taskCount ∧ s.fanin x = 0 :=
  zero_setPhase h (h.zero t hne).1 (h.zero t hne).2 x hx

theorem unclaimed_setPhase (h : Ledger c s) (ht : s.phase t ≠ .finished) (j x : Nat)
    (hj : s.completion.head ≤ j) (hx : s.reported[j]? = some x) :
    update s.phase t p x = .finished := by
  have hfin := h.unclaimed j x hj hx
  refine (update_of_ne ?_ ..).trans hfin
  rintro rfl
  exact ht hfin

/-- A root of the table is found by the initial scan. -/
theorem Ledger.pushRoot (h : Ledger c s) (ht : t < c.taskCount) (hph : s.phase t = .unready)
    (hzero : s.fanin t = 0) : Ledger c (s.setPhase t (.pushing b)) :=
  { h with
    zero := zero_setPhase h ht hzero
    pushed := roster_stay h.pushed (by simp [hph])
    reported := roster_stay h.reported (by simp [hph])
    counted := roster_stay h.counted (by simp [hph])
    log := log_stay h.log (by simp [hph]) (by simp [hph])
    unclaimed := unclaimed_setPhase h (by simp [hph]) }

theorem Later.pushRoot (hph : s.phase t = .unready) :
    Later c (.sched b) s (s.setPhase t (.pushing b)) :=
  { Later.refl (o := .sched b) s with owned := owned_setPhase (.inl (by rw [hph]; rfl)) }

/-- A task goes to the ready queue. -/
theorem Ledger.drawReady (h : Ledger c s) (hph : s.phase t = .pushing b) :
    Ledger c (s.drawReady t) :=
  { h with
    zero := zero_moved h (by simp [hph])
    pushed := roster_come h.pushed (by simp [hph]) (by simp)
    reported := roster_stay h.reported (by simp [hph])
    counted := roster_stay h.counted (by simp [hph])
    log := log_stay h.log (by simp [hph]) (by simp [hph])
    ready := by
      -- the queue has room for every task
      refine h.ready.draw (lt_of_lt_of_le (h.pushed.length_lt (x := t) (fun x hx => ?_)
        (h.zero t (by simp [hph])).1 (by simp [hph])) c.roomy)
      exact (h.zero x fun he => by simp [he] at hx).1
    unclaimed := unclaimed_setPhase h (by simp [hph]) }

theorem Later.drawReady (hph : s.phase t = .pushing b) :
    Later c (.sched b) s (s.drawReady t) :=
  { Later.refl (o := .sched b) s with
    pushed := fun _ _ => getElem?_concat_of_some
    readyCell := fun _ => .append
    owned := owned_setPhase (.inr (by rw [hph]; rfl)) }

theorem Ledger.publishReady (h : Ledger c s) (hi : s.pushed[i]? = some t) :
    Ledger c (s.publishReady c t i) :=
  { h with ready := h.ready.publish hi }

theorem Later.publishReady (h : Ledger c s) (hi : s.pushed[i]? = some t) :
    Later c o s (s.publishReady c t i) :=
  { Later.refl (o := o) s with readyCell := fun _ => .publish h.ready.room hi }

/-- A queued task starts. -/
theorem Ledger.startTask (h : Ledger c s) (hph : s.phase t = .queued) :
    Ledger c (s.startTask c w t i) :=
  { h with
    zero := zero_moved h (by simp [hph])
    pushed := roster_stay h.pushed (by simp [hph])
    reported := roster_stay h.reported (by simp [hph])
    counted := roster_stay h.counted (by simp [hph])
    log := log_start h.log (by simp [hph]) (by simp)
    ready := h.ready.clear
    unclaimed := unclaimed_setPhase h (by simp [hph])
    finished := fun x u hu => mem_append_left _ (h.finished x u hu)
    order := fun x l₁ l₂ he u hu => by
      rcases concat_eq_append_cons he with ⟨l₂', he⟩ | ⟨rfl, -⟩
      · exact h.order x l₁ l₂' he u hu
      · exact h.finished x u hu }

theorem Later.startTask (hph : s.phase t = .queued) : Later c (.work w) s (s.startTask c w t i) :=
  { Later.refl (o := .work w) s with owned := owned_setPhase (.inl (by rw [hph]; rfl)) }

/-- A running task finishes. -/
theorem Ledger.finishTask (h : Ledger c s) (hph : s.phase t = .running w) :
    Ledger c (s.finishTask w t) :=
  { h with
    zero := zero_moved h (by simp [hph])
    pushed := roster_stay h.pushed (by simp [hph])
    reported := roster_stay h.reported (by simp [hph])
    counted := roster_stay h.counted (by simp [hph])
    log := log_finish h.log (by simp [hph]) (by simp)
    unclaimed := unclaimed_setPhase h (by simp [hph])
    finished := fun x u hu => mem_append_left _ (h.finished x u hu)
    order := fun x l₁ l₂ he u hu => by
      rcases concat_eq_append_cons he with ⟨l₂', he⟩ | ⟨-, he⟩
      · exact h.order x l₁ l₂' he u hu
      · cases he }

theorem Later.finishTask (hph : s.phase t = .running w) : Later c (.work w) s (s.finishTask w t) :=
  { Later.refl (o := .work w) s with owned := owned_setPhase (.inr (by rw [hph]; rfl)) }

/-! ## Completion queue -/

/-- A finished task is reported. -/
theorem Ledger.drawCompletion (h : Ledger c s) (hph : s.phase t = .reporting w) :
    Ledger c (s.drawCompletion t) :=
  { h with
    zero := zero_moved h (by simp [hph])
    pushed := roster_stay h.pushed (by simp [hph])
    reported := roster_come h.reported (by simp [hph]) (by simp)
    counted := roster_stay h.counted (by simp [hph])
    log := log_stay h.log (by simp [hph]) (by simp [hph])
    completion := by
      refine h.completion.draw (lt_of_lt_of_le (h.reported.length_lt (x := t) (fun x hx => ?_)
        (h.zero t (by simp [hph])).1 (by simp [hph])) c.roomy)
      exact (h.zero x fun he => by simp [he] at hx).1
    unclaimed := fun j x hj hx => by
      rcases getElem?_concat_cases hx with hx | ⟨-, rfl⟩
      · exact unclaimed_setPhase h (by simp [hph]) j x hj hx
      · exact update_self .. }

theorem Later.drawCompletion (hph : s.phase t = .reporting w) :
    Later c (.work w) s (s.drawCompletion t) :=
  { Later.refl (o := .work w) s with
    reported := fun _ _ => getElem?_concat_of_some
    completionCell := fun _ => .append
    owned := owned_setPhase (.inr (by rw [hph]; rfl)) }

theorem Ledger.publishCompletion (h : Ledger c s) (hi : s.reported[i]? = some t) :
    Ledger c (s.publishCompletion c t i) :=
  { h with completion := h.completion.publish hi }

theorem Later.publishCompletion (h : Ledger c s) (hi : s.reported[i]? = some t) :
    Later c o s (s.publishCompletion c t i) :=
  { Later.refl (o := o) s with completionCell := fun _ => .publish h.completion.room hi }

theorem claim_eq (hi : s.reported[i]? = some t) : s.claim b i =
    { s.setPhase t (.processing b) with completion := { s.completion with head := i + 1 } } := by
  unfold State.claim
  rw [hi]
  rfl

/-- A reported task is claimed. -/
theorem Ledger.claim (h : Ledger c s) (hhead : s.completion.head = i)
    (hi : s.reported[i]? = some t) : Ledger c (s.claim b i) := by
  have hph := h.unclaimed i t (by omega) hi
  rw [claim_eq hi]
  exact
    { h with
      zero := zero_moved h (by simp [hph])
      pushed := roster_stay h.pushed (by simp [hph])
      reported := roster_stay h.reported (by simp [hph])
      counted := roster_stay h.counted (by simp [hph])
      log := log_stay h.log (by simp [hph]) (by simp [hph])
      completion := { h.completion with }
      unclaimed := fun j x hj hx => by
        have hlt : i + 1 ≤ j := hj
        refine (update_of_ne ?_ ..).trans (h.unclaimed j x (by omega) hx)
        -- another ticket, another task
        rintro rfl
        have := (getElem?_inj (List.getElem?_eq_some_iff.mp hi).1 h.reported.nodup).mp
          (hi.trans hx.symm)
        omega }

theorem Later.claim (h : Ledger c s) (hhead : s.completion.head = i)
    (hi : s.reported[i]? = some t) : Later c (.sched b) s (s.claim b i) := by
  have hph := h.unclaimed i t (by omega) hi
  rw [claim_eq hi]
  exact { Later.refl (o := .sched b) s with owned := owned_setPhase (.inl (by rw [hph]; rfl)) }

/-! ## Processing a completion -/

theorem Ledger.clearCompletion (h : Ledger c s) :
    Ledger c { s with completion := s.completion.clear c.queueCapacity i } :=
  { h with completion := h.completion.clear, unclaimed := h.unclaimed }

theorem Later.clearCompletion :
    Later c o s { s with completion := s.completion.clear c.queueCapacity i } :=
  { Later.refl (o := o) s with }

/-- Only a task that is not ready has a fanin to take one off. -/
theorem Ledger.unready_of_fanin (h : Ledger c s) (hne : s.fanin t ≠ 0) : s.phase t = .unready := by
  by_contra hph
  exact hne (h.zero t hph).2

/-- The last decrement wakes the task. -/
theorem phase_decrement (d x : Nat) : (s.decrement b u d old).phase x =
    if old = 1 ∧ x = d then .pushing b else s.phase x := by
  unfold State.decrement
  split
  · rename_i he
    simp only [he, true_and, update_apply]
  · rename_i hne
    simp only [hne, false_and, if_false]

theorem mem_decs_decrement {x v : Nat} : v ∈ (s.decrement b u d old).decs x ↔
    v ∈ s.decs x ∨ x = d ∧ v = u := by
  simp only [State.decrement, update_apply]
  split
  · rename_i he
    subst he
    rw [mem_append, mem_singleton]
    simp
  · rename_i hne
    simp [hne]

theorem rank_decrement (h : Ledger c s) (hfanin : s.fanin d = old) (hold : old ≠ 0) {r : Nat}
    (hr : 2 ≤ r) (x : Nat) :
    r ≤ ((s.decrement b u d old).phase x).rank ↔ r ≤ (s.phase x).rank := by
  rw [phase_decrement]
  split_ifs with he
  · have hph := h.unready_of_fanin (t := d) (by rw [hfanin]; exact hold)
    rw [he.2, hph]
    simp only [Phase.rank]
    omega
  · exact .rfl

/-- A task is taken off a fanin. -/
theorem Ledger.decrement (h : Ledger c s) (hd : d < c.taskCount) (hfanin : s.fanin d = old)
    (hold : old ≠ 0) (hu : 4 ≤ (s.phase u).rank) :
    Ledger c (s.decrement b u d old) where
  zero x hx := by
    have hph := h.unready_of_fanin (t := d) (by omega)
    rw [phase_decrement] at hx
    simp only [State.decrement, update_apply]
    by_cases he : x = d
    · subst he
      split at hx
      · exact ⟨hd, by rw [if_pos rfl]; omega⟩
      · exact absurd hph hx
    · rw [if_neg fun ha => he ha.2] at hx
      rw [if_neg he]
      exact h.zero x hx
  pushed := h.pushed.congr (rank_decrement h hfanin hold (by omega))
  reported := h.reported.congr (rank_decrement h hfanin hold (by omega))
  counted := h.counted.congr (rank_decrement h hfanin hold (by omega))
  log := h.log.congr fun e => by
    cases e with
    | start x | finish x => exact rank_decrement h hfanin hold (by omega) x
  ready := h.ready
  completion := h.completion
  unclaimed j x hj hx := by
    have hfin := h.unclaimed j x hj hx
    rw [phase_decrement, if_neg fun ha => ?_]
    · exact hfin
    · rw [ha.2, h.unready_of_fanin (t := d) (by omega)] at hfin
      cases hfin
  fanin x := by
    have := h.fanin x
    simp only [State.decrement, update_apply]
    split_ifs with he
    · subst he
      rw [length_append, length_singleton]
      omega
    · exact this
  finished x v hv := by
    rcases mem_decs_decrement.mp hv with hv | ⟨-, rfl⟩
    · exact h.finished x v hv
    · exact (h.log.mem_iff (.finish v)).mpr hu
  order x l₁ l₂ he v hv := by
    rcases mem_decs_decrement.mp hv with hv | ⟨rfl, -⟩
    · exact h.order x l₁ l₂ he v hv
    · -- the dependent has not started
      have hmem : Event.start x ∈ s.log := by
        rw [show s.log = l₁ ++ .start x :: l₂ from he]
        exact mem_append_right _ mem_cons_self
      have hrank : 3 ≤ (s.phase x).rank := (h.log.mem_iff _).mp hmem
      rw [h.unready_of_fanin (t := x) (by omega)] at hrank
      simp only [Phase.rank] at hrank
      omega
  completedCount := h.completedCount

theorem Later.decrement (h : Ledger c s) (hfanin : s.fanin d = old) (hold : old ≠ 0) :
    Later c (.sched b) s (s.decrement b u d old) := by
  refine { Later.refl (o := .sched b) s with
    owned := fun x o' _ hx => ?_, decs := fun _ _ hv => mem_decs_decrement.mpr (.inl hv) }
  rw [phase_decrement, if_neg fun ha => ?_]
  rw [ha.2, h.unready_of_fanin (t := d) (by rw [hfanin]; exact hold)] at hx
  cases hx

/-- A processed task is counted. -/
theorem Ledger.countCompleted (h : Ledger c s) (hph : s.phase t = .processing b) :
    Ledger c (s.countCompleted t) :=
  { h with
    zero := zero_moved h (by simp [hph])
    pushed := roster_stay h.pushed (by simp [hph])
    reported := roster_stay h.reported (by simp [hph])
    counted := roster_come h.counted (by simp [hph]) (by simp)
    log := log_stay h.log (by simp [hph]) (by simp [hph])
    unclaimed := unclaimed_setPhase h (by simp [hph])
    completedCount := by
      show s.completedCount + 1 = (s.counted ++ [t]).length
      rw [length_append, h.completedCount]
      rfl }

theorem Later.countCompleted (hph : s.phase t = .processing b) :
    Later c (.sched b) s (s.countCompleted t) :=
  { Later.refl (o := .sched b) s with
    owned := owned_setPhase (.inr (by rw [hph]; rfl))
    completed := Nat.le_succ _ }

end PtoRuntime.Cuda
