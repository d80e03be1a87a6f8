import PtoRuntime.Hier.Lifecycle

/-!
# Hierarchical runtime — dependency edges

`submit_impl` attaches the new slot to each producer it found: the slot goes into the
producer's `fanout_consumers`, the producer into the slot's `fanin_producers`, and
the producer counts as live unless it was COMPLETED. Only the orchestrator writes
these lists, and only for the slot it is submitting.

Main results: `edges_step`, `Edges.reach`.
-/

namespace PtoRuntime.Hier

open Lib Function List Option

/-- The slot being submitted and its producers not attached yet. -/
def OrchPc.producers? : OrchPc → Option (Nat × List Nat)
  | .lookup slot _ producers | .insert slot _ _ producers | .attach slot producers _ =>
    some (slot, producers)
  | _ => none

/-- A slot that has no edges yet. -/
def OrchPc.unattached? : OrchPc → Option Nat
  | .lookup slot .. | .insert slot .. | .alloc slot _ => some slot
  | _ => none

/-- The slot being submitted and its `live_fanins`. -/
def OrchPc.liveFanins? : OrchPc → Option (Nat × Nat)
  | .attach slot _ n | .submit slot n _ => some (slot, n)
  | _ => none

/-- A slot whose `fanin_count` is not stored yet. -/
def OrchPc.counting? : OrchPc → Option Nat
  | .lookup slot .. | .insert slot .. | .attach slot .. | .submit slot _ .faninCount => some slot
  | _ => none

structure Edges (s : State) : Prop where
  mapped : ∀ k p, s.tensormap.lookup k = some p → p < s.nextTaskId
  todo : ∀ slot ps, s.orch.producers? = some (slot, ps) →
    ps.Nodup ∧ ∀ p ∈ ps, p < slot ∧ p ∉ s.faninProducers slot
  consumer_iff : ∀ p c, c ∈ s.fanoutConsumers p ↔ p ∈ s.faninProducers c
  consumersNodup : ∀ p, (s.fanoutConsumers p).Nodup
  producersNodup : ∀ c, (s.faninProducers c).Nodup
  older : ∀ p c, p ∈ s.faninProducers c → p < c ∧ c < s.nextTaskId
  live : ∀ c, (s.live c).Sublist (s.faninProducers c)
  live_or_done : ∀ p c, p ∈ s.faninProducers c → p ∈ s.live c ∨ Done s p
  unattached : ∀ slot, s.orch.unattached? = some slot → s.faninProducers slot = []
  liveFanins : ∀ slot n, s.orch.liveFanins? = some (slot, n) → n = (s.live slot).length
  counted : ∀ c, s.orch.counting? ≠ some c → s.faninCount c = (s.live c).length

theorem edges_init : Edges State.init where
  mapped _ _ h := by cases h
  todo _ _ h := by cases h
  consumer_iff _ _ := by simp [State.init]
  consumersNodup _ := nodup_nil
  producersNodup _ := nodup_nil
  older _ _ h := by cases h
  live _ := List.Sublist.slnil
  live_or_done _ _ h := by cases h
  unattached _ h := by cases h
  liveFanins _ _ h := by cases h
  counted _ _ := rfl

variable {s s' : State} {p slot : Nat} {producers : List Nat}

/-- Erasing keys brings no new entry into the map. -/
theorem lookup_consumeEffect (slot : Nat) (holder : Holder) (pc : ConsumePc) {k : TensorKey}
    (h : (s.consumeEffect slot holder pc).tensormap.lookup k = some p) :
    s.tensormap.lookup k = some p := by
  cases pc with
  | erase =>
    simp only [State.consumeEffect, TensorMap.lookup_eraseTaskOutputs] at h
    split at h
    · cases h
    · exact h
  | _ => exact h

/-- A step of the scheduler. -/
theorem edges_schedMove (h : Edges s) (hs : s.SchedMove s') : Edges s' := by
  have hDone (p c : Nat) (hp : p ∈ s.faninProducers c) : p ∈ s.live c ∨ Done s' p :=
    (h.live_or_done p c hp).imp_right fun hd => done_schedMove hd hs
  cases hs with
  | @consumeSelf slot pc hpc =>
    exact { h with
      mapped := fun k p hk => h.mapped k p (lookup_consumeEffect slot .self pc hk)
      live_or_done := hDone }
  | @consumeProducer slot prod pc producers hpc =>
    exact { h with
      mapped := fun k p hk => h.mapped k p (lookup_consumeEffect prod (.consumer slot) pc hk)
      live_or_done := hDone }
  | _ => exact { h with live_or_done := hDone }

/-- The allocator hands out a slot, which has no edges. -/
theorem Edges.reserveSlot (h : Edges s) {o : OrchPc} {workerType groupSize}
    (hNone : s.orch.counting? = none) (hTodo : ∀ x, o.producers? = some x → x = (s.nextTaskId, []))
    (hUn : ∀ x, o.unattached? = some x → x = s.nextTaskId) (hFan : o.liveFanins? = none) :
    Edges { s with
      nextTaskId := s.nextTaskId + 1, workerType := workerType, groupSize := groupSize
      orch := o } := by
  refine { h with
    mapped := fun k p hk => Nat.lt_succ_of_lt (h.mapped k p hk), todo := fun slot ps hx => ?_
    older := fun p c hp => ⟨(h.older p c hp).1, Nat.lt_succ_of_lt (h.older p c hp).2⟩
    unattached := fun slot hx => ?_, liveFanins := fun _ _ hx => nomatch hFan.symm.trans hx
    counted := fun c _ => h.counted c (by rw [hNone]; nofun) }
  · cases hTodo _ hx
    exact ⟨nodup_nil, nofun⟩
  · rw [hUn _ hx, eq_nil_iff_forall_not_mem]
    exact fun p hp => Nat.lt_irrefl _ (h.older p _ hp).2

theorem edges_move (hL : Life s) (h : Edges s) (hs : Move s s') : Edges s' := by
  have hDone (p c : Nat) (hp : p ∈ s.faninProducers c) : p ∈ s.live c ∨ Done s' p :=
    (h.live_or_done p c hp).imp_right fun hd => done_move hL hd hs
  cases hs with
  | alloc hpc =>
    exact h.reserveSlot (by rw [hpc]; rfl) nofun (fun x hx => (some.inj hx).symm) rfl
  | reserve hpc =>
    exact h.reserveSlot (by rw [hpc]; rfl) (fun x hx => (some.inj hx).symm)
      (fun x hx => (some.inj hx).symm) rfl
  | submit hpc | scopeEnd hpc | shutdown hpc =>
    exact { h with
      todo := nofun, unattached := nofun, liveFanins := nofun
      counted := fun c _ => h.counted c (by rw [hpc]; nofun) }
  | _ => exact { h with live_or_done := hDone }

/-! ## The orchestrator's steps -/

theorem Edges.live_eq_nil (h : Edges s) {c : Nat} (hc : s.faninProducers c = []) :
    s.live c = [] := by
  have := h.live c
  rw [hc] at this
  exact sublist_nil.mp this

/-- A slot found in the map is older than the one being submitted. -/
theorem Edges.mem_inferLookup (hL : Life s) (h : Edges s) {x : TensorKey × TensorArgType}
    (hPend : s.orch.pending? = some slot) (hOld : ∀ q ∈ producers, q < slot)
    (hp : p ∈ inferLookup slot x s.tensormap producers) : p < slot := by
  unfold inferLookup at hp
  split at hp
  · split at hp
    · rename_i q hq
      rcases mem_addUniqueProducer.mp hp with hp | ⟨rfl, hne⟩
      · exact hOld p hp
      · have := h.mapped _ _ hq
        have := hL.last slot hPend
        omega
    · exact hOld p hp
  · exact hOld p hp

theorem nodup_inferLookup {x : TensorKey × TensorArgType} {m : TensorMap} (h : producers.Nodup) :
    (inferLookup slot x m producers).Nodup := by
  unfold inferLookup
  split
  · split
    · exact nodup_addUniqueProducer h
    · exact h
  · exact h

theorem nodup_update_concat {α : Type} {f : Nat → List α} (h : ∀ i, (f i).Nodup) {i : Nat} {x : α}
    (hx : x ∉ f i) (j : Nat) : (update f i (f i ++ [x]) j).Nodup := by
  rw [update_apply]
  split
  · exact concat_eq_append ▸ (h i).concat hx
  · exact h j

/-- The section that attaches `slot` to `prod`: the one step that writes edges. -/
theorem edges_attach (hL : Life s) (h : Edges s) {prod n : Nat}
    (hpc : s.orch = .attach slot (prod :: producers) n) :
    Edges (s.attachProducer slot prod producers n) := by
  obtain ⟨hnd, hTodo⟩ := h.todo slot (prod :: producers) (by rw [hpc]; rfl)
  obtain ⟨hnot, hnd'⟩ := nodup_cons.mp hnd
  obtain ⟨hlt, hnew⟩ := hTodo prod mem_cons_self
  have hn := h.liveFanins slot n (by rw [hpc]; rfl)
  have hCounting : ∀ c, some slot ≠ some c → s.orch.counting? ≠ some c := by
    intro c hc
    rw [hpc]
    exact hc
  unfold State.attachProducer
  split
  · -- a CONSUMED producer is skipped
    refine { h with
      todo := fun t ps hx => ?_, unattached := nofun, liveFanins := fun t m hx => ?_
      counted := fun c hc => h.counted c (hCounting c hc) } <;> cases hx
    · exact ⟨hnd', fun p hp => hTodo p (mem_cons_of_mem _ hp)⟩
    · exact hn
  · rename_i hcons
    have hslot : slot < s.nextTaskId := (hL.pending_lt (by rw [hpc]; rfl)).1
    refine ⟨h.mapped, fun t ps hx => ?_, fun p c => ?_, fun p => ?_, fun c => ?_, fun p c hp => ?_,
      fun c => ?_, fun p c hp => ?_, nofun, fun t m hx => ?_, fun c hc => ?_⟩
    · cases hx
      refine ⟨hnd', fun p hp => ⟨(hTodo p (mem_cons_of_mem _ hp)).1, ?_⟩⟩
      have hne : p ≠ prod := fun he => hnot (he ▸ hp)
      simp [(hTodo p (mem_cons_of_mem _ hp)).2, hne]
    · have := h.consumer_iff p c
      simp only [update_apply]
      grind -ring -linarith
    · have hc : slot ∉ s.fanoutConsumers prod := fun hc => hnew ((h.consumer_iff prod slot).mp hc)
      exact nodup_update_concat h.consumersNodup hc p
    · exact nodup_update_concat h.producersNodup hnew c
    · have := h.older p c
      simp only [update_apply] at hp
      grind -ring -linarith
    · by_cases hcs : c = slot
      · subst hcs
        simp only [update_self]
        split
        · exact (h.live c).trans (sublist_append_left ..)
        · rw [update_self]
          exact (h.live c).append (List.Sublist.refl _)
      · simp only [update_of_ne hcs]
        split
        · exact h.live c
        · rw [update_of_ne hcs]
          exact h.live c
    · by_cases hcs : c = slot
      · subst hcs
        simp only [update_self, mem_append, mem_singleton] at hp
        dsimp only
        rcases hp with hp | rfl
        · refine (h.live_or_done p c hp).imp_left fun hp => ?_
          split
          · exact hp
          · rw [update_self]
            exact mem_append_left _ hp
        · split
          · exact .inr (.inl ‹_›)
          · exact .inl (by simp)
      · simp only [update_of_ne hcs] at hp
        dsimp only
        split
        · exact h.live_or_done p c hp
        · rw [update_of_ne hcs]
          exact h.live_or_done p c hp
    · cases hx
      dsimp only
      split <;> simp [hn]
    · have hcs : c ≠ slot := fun he => hc (by rw [he]; rfl)
      refine (h.counted c (hCounting c fun he => hcs (some.inj he).symm)).trans ?_
      dsimp only
      split
      · rfl
      · rw [update_of_ne hcs]

/-- A step of a submission. -/
theorem edges_submitStep (h : Edges s) {n : Nat} {pc : SubmitPc}
    (hDone : ∀ p c, p ∈ s.faninProducers c → p ∈ s.live c ∨ Done (s.submitStep slot n pc) p)
    (hpc : s.orch = .submit slot n pc) : Edges (s.submitStep slot n pc) := by
  have hn := h.liveFanins slot n (by rw [hpc]; rfl)
  have hFan (t m : Nat) (hx : some (slot, n) = some (t, m)) : m = (s.live t).length := by
    cases hx
    exact hn
  cases pc with
  | faninCount =>
    refine { h with
      todo := by rintro _ _ ⟨⟩, unattached := by rintro _ ⟨⟩, liveFanins := hFan
      counted := fun c _ => ?_ }
    by_cases hcs : c = slot
    · subst hcs
      exact (update_self ..).trans hn
    · refine (update_of_ne hcs ..).trans (h.counted c ?_)
      rw [hpc]
      exact fun he => hcs (some.inj he).symm
  | state =>
    have hCount (c : Nat) : s.faninCount c = (s.live c).length :=
      h.counted c (by rw [hpc]; rintro ⟨⟩)
    -- without live producers the task is ready at once
    by_cases hz : n = 0 <;> simp only [State.submitStep, hz, if_true, if_false] at hDone ⊢
    · subst hz
      exact { h with
        todo := by rintro _ _ ⟨⟩, live_or_done := hDone, unattached := by rintro _ ⟨⟩,
          liveFanins := hFan
        counted := fun c _ => hCount c }
    · exact { h with
        todo := by rintro _ _ ⟨⟩, live_or_done := hDone, unattached := by rintro _ ⟨⟩,
          liveFanins := by rintro _ _ ⟨⟩
        counted := fun c _ => hCount c }
  | push =>
    exact { h with
      todo := by rintro _ _ ⟨⟩, unattached := by rintro _ ⟨⟩, liveFanins := by rintro _ _ ⟨⟩
      counted := fun c _ => h.counted c (by rw [hpc]; rintro ⟨⟩) }
  | faninReleased | fanoutTotal | fanoutReleased =>
    exact { h with
      todo := by rintro _ _ ⟨⟩, unattached := by rintro _ ⟨⟩, liveFanins := hFan
      counted := fun c _ => h.counted c (by rw [hpc]; rintro ⟨⟩) }

/-- An entry under a slot that was handed out. -/
theorem Edges.mapped_insert (h : Edges s) {k₀ k : TensorKey} (hslot : slot < s.nextTaskId)
    (hk : (s.tensormap.insert k₀ slot).lookup k = some p) :
    p < s.nextTaskId := by
  rw [TensorMap.lookup_insert] at hk
  split at hk
  · cases hk
    exact hslot
  · exact h.mapped k p hk

/-- A step of `alloc`. -/
theorem edges_allocStep (hL : Life s) (h : Edges s) {pc : AllocPc}
    (hDone : ∀ p c, p ∈ s.faninProducers c → p ∈ s.live c ∨ Done (s.allocStep slot pc) p)
    (hpc : s.orch = .alloc slot pc) : Edges (s.allocStep slot pc) := by
  have hnil := h.unattached slot (by rw [hpc]; rfl)
  have hUn (t : Nat) (hx : some slot = some t) : s.faninProducers t = [] := by
    cases hx
    exact hnil
  have hCount (c : Nat) : s.faninCount c = (s.live c).length := h.counted c (by rw [hpc]; nofun)
  cases pc with
  | insert ptr =>
    have hslot := (hL.pending_lt (t := slot) (by rw [hpc]; rfl)).1
    refine { h with
      mapped := fun k p hk => ?_, todo := nofun, unattached := hUn, liveFanins := nofun
      counted := fun c _ => hCount c }
    simp only [State.allocStep] at hk
    split at hk
    · exact h.mapped k p hk
    · exact h.mapped_insert hslot hk
  | fanin =>
    refine { h with todo := nofun, unattached := hUn, liveFanins := nofun, counted :=
      fun c _ => ?_ }
    -- an allocated slot has no producers
    by_cases hcs : c = slot
    · subst hcs
      simp [State.allocStep, h.live_eq_nil hnil]
    · exact (update_of_ne hcs ..).trans (hCount c)
  | active =>
    exact { h with
      todo := nofun, unattached := nofun, liveFanins := nofun, counted := fun c _ => hCount c }
  | fanoutTotal | fanoutReleased | state =>
    exact { h with
      todo := nofun, live_or_done := hDone, unattached := hUn, liveFanins := nofun
      counted := fun c _ => hCount c }

/-- A step of the orchestrator. -/
theorem edges_orchMove (hL : Life s) (h : Edges s) (hs : s.OrchMove s') :
    Edges s' := by
  have hDone (p c : Nat) (hp : p ∈ s.faninProducers c) : p ∈ s.live c ∨ Done s' p :=
    (h.live_or_done p c hp).imp_right fun hd => done_orchMove hL hd hs
  cases hs with
  | @inferred slot producers hpc =>
    have hnil := h.unattached slot (by rw [hpc]; rfl)
    refine { h with
      todo := fun t ps hx => ?_, unattached := nofun, liveFanins := fun t n hx => ?_
      counted := fun c hc => h.counted c (by rwa [hpc]) } <;> cases hx
    · exact h.todo slot producers (by rw [hpc]; rfl)
    · exact (congrArg length (h.live_eq_nil hnil)).symm
  | @lookup slot x walk producers hpc =>
    have hnil := h.unattached slot (by rw [hpc]; rfl)
    obtain ⟨hnd, hOld⟩ := h.todo slot producers (by rw [hpc]; rfl)
    refine { h with
      todo := fun t ps hx => ?_, unattached := fun t hx => ?_, liveFanins := nofun
      counted := fun c hc => h.counted c (by rwa [hpc]) } <;> cases hx
    · refine ⟨nodup_inferLookup hnd, fun p hp => ⟨?_, by rw [hnil]; nofun⟩⟩
      exact h.mem_inferLookup hL (by rw [hpc]; rfl) (fun q hq => (hOld q hq).1) hp
    · exact hnil
  | @insert slot x walk producers hpc =>
    have hslot := (hL.pending_lt (t := slot) (by rw [hpc]; rfl)).1
    refine { h with
      mapped := fun k p hk => ?_, todo := fun t ps hx => h.todo t ps (by rwa [hpc])
      unattached := fun t hx => h.unattached t (by rwa [hpc]), liveFanins := nofun
      counted := fun c hc => h.counted c (by rwa [hpc]) }
    simp only [State.inferInsert] at hk
    split at hk
    · exact h.mapped_insert hslot hk
    · exact h.mapped k p hk
  | @attached slot n hpc =>
    exact { h with
      todo := nofun, unattached := nofun, liveFanins := fun t m hx =>
        h.liveFanins t m (by rwa [hpc])
      counted := fun c hc => h.counted c (by rwa [hpc]) }
  | attach hpc => exact edges_attach hL h hpc
  | submit hpc => exact edges_submitStep h hDone hpc
  | alloc hpc => exact edges_allocStep hL h hDone hpc
  | scopeEnded hpc | releaseTask hpc =>
    exact { h with
      todo := nofun, unattached := nofun, liveFanins := nofun
      counted := fun c _ => h.counted c (by rw [hpc]; nofun) }
  | @release slot pc tasks hpc =>
    have hMap (k : TensorKey) (p : Nat)
        (hk : (s.consumeEffect slot .scope pc).tensormap.lookup k = some p) :=
      h.mapped k p (lookup_consumeEffect slot .scope pc hk)
    have hCount (c : Nat) := h.counted c (by rw [hpc]; nofun)
    cases hn : s.consumeNext slot pc <;> simp only [hn] at hDone ⊢ <;>
      exact { h with
        mapped := hMap, live_or_done := hDone, todo := nofun, unattached := nofun
        liveFanins := nofun, counted := fun c _ => hCount c }

theorem edges_step {a : Act} (hL : Life s) (h : Edges s) (hs : step s a = some s') : Edges s' := by
  rcases step_cases hs with ⟨-, hm⟩ | ⟨-, hm⟩ | ⟨-, -, hm⟩
  · exact edges_orchMove hL h hm
  · exact edges_schedMove h hm
  · exact edges_move hL h hm

/-- Edges are recorded on both sides. -/
theorem Edges.reach {ok : State → Act → Prop} (h : Reach step ok State.init s) :
    Edges s :=
  h.invariant edges_init fun _ _ _ hr he _ hs => edges_step (Life.reach hr) he hs

end PtoRuntime.Hier
