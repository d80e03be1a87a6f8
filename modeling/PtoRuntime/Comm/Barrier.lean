import PtoRuntime.Lib.Reach
import PtoRuntime.Lib.Roster

/-!
# Simulated communicator — the barrier

`comm_barrier` on the header that `comm_alloc_windows` has set up. A rank reads the phase, counts
itself, and waits for the phase to change; the rank that makes the count complete resets it and then
advances the phase. Both are atomic operations of their own, so a rank may be between them while
others have long re-entered, or have not even noticed the previous advance.

`barrier_phase` is an `int` and wraps around; `barrier_count` never exceeds the number of ranks.
Calls do not time out.

Main results: `Barrier.Ok.reach`, `barrier_separates_rounds`.
-/

namespace PtoRuntime.Comm

open Lib Function List

/-- Inside `comm_barrier`. -/
inductive BarrierPc
  | idle
  | load
  | arrive (phase : Nat)
  /-- the last rank: the count goes back to zero -/
  | reset
  /-- the last rank: the phase advances -/
  | advance
  | wait (phase : Nat)
  deriving DecidableEq, Repr

structure Barrier where
  barrierCount : Nat
  barrierPhase : Nat
  pc : Nat → BarrierPc
  /-- history: calls that the rank has entered -/
  entered : Nat → Nat
  /-- history: calls that the rank has returned from -/
  returned : Nat → Nat
  /-- history: how often the phase has advanced -/
  rounds : Nat
  /-- history: ranks counted since the phase has advanced -/
  arrived : List Nat

namespace Barrier

/-- The header after `comm_alloc_windows`. -/
def init : Barrier where
  barrierCount := 0
  barrierPhase := 0
  pc := fun _ => .idle
  entered := fun _ => 0
  returned := fun _ => 0
  rounds := 0
  arrived := []

def setPc (s : Barrier) (r : Nat) (pc : BarrierPc) : Barrier :=
  { s with pc := update s.pc r pc }

/-- The rank returns from its call. -/
def leave (s : Barrier) (r : Nat) : Barrier :=
  { s.setPc r .idle with returned := update s.returned r (s.returned r + 1) }

/-- The next step of rank `r`; from `idle` it enters its next call. -/
def step (nranks : Nat) (s : Barrier) (r : Nat) : Option Barrier :=
  if r < nranks then
    match s.pc r with
    | .idle =>
      some { s.setPc r .load with entered := update s.entered r (s.entered r + 1) }
    | .load => some (s.setPc r (.arrive s.barrierPhase))
    | .arrive phase =>
      some { s.setPc r (if s.barrierCount + 1 = nranks then .reset else .wait phase) with
        barrierCount := s.barrierCount + 1
        arrived := s.arrived ++ [r] }
    | .reset => some { s.setPc r .advance with barrierCount := 0 }
    | .advance =>
      some { s.leave r with
        barrierPhase := (s.barrierPhase + 1) % 2 ^ 32
        rounds := s.rounds + 1
        arrived := [] }
    | .wait phase => if s.barrierPhase ≠ phase then some (s.leave r) else none
  else none

end Barrier

/-! ## Invariant -/

variable {n r r' : Nat} {s s' : Barrier}

/-- The rank is counted in the current round. -/
def BarrierPc.counted : BarrierPc → Bool
  | .wait _ | .reset | .advance => true
  | .idle | .load | .arrive _ => false

/-- The rank has completed the count. -/
def BarrierPc.last : BarrierPc → Bool
  | .reset | .advance => true
  | _ => false

def Counted (s : Barrier) (r : Nat) : Prop :=
  (s.pc r).counted = true ∧ s.entered r = s.rounds + 1

/-- Between entering and returning, in the current round. -/
def Inside (s : Barrier) (r : Nat) : Prop :=
  s.entered r = s.rounds + 1 ∧ s.returned r = s.rounds

/-- What is true of a rank, by the place where it is. -/
def RankOk (n : Nat) (s : Barrier) (r : Nat) : BarrierPc → Prop
  | .idle => s.entered r = s.rounds ∧ s.returned r = s.rounds
  | .load => Inside s r
  | .arrive phase => Inside s r ∧ phase = s.barrierPhase
  | .reset => Inside s r ∧ s.arrived.length = n
  | .advance => Inside s r ∧ s.arrived.length = n ∧ s.barrierCount = 0
  | .wait phase => Inside s r ∧ phase = s.barrierPhase ∨
      -- the phase has advanced, and the rank has not looked yet
      s.entered r = s.rounds ∧ s.returned r + 1 = s.rounds ∧ phase ≠ s.barrierPhase

structure Barrier.Ok (n : Nat) (s : Barrier) : Prop where
  phase : s.barrierPhase = s.rounds % 2 ^ 32
  rank : ∀ r < n, RankOk n s r (s.pc r)
  arrived : Roster (fun r => r < n ∧ Counted s r) s.arrived
  last : ∀ r < n, ∀ r' < n, (s.pc r).last = true → (s.pc r').last = true → r = r'
  count : (∀ r < n, s.pc r ≠ .advance) → s.barrierCount = s.arrived.length

theorem Barrier.Ok.init (n : Nat) : Barrier.Ok n .init where
  phase := rfl
  rank _ _ := ⟨rfl, rfl⟩
  arrived := ⟨nodup_nil, fun _ => ⟨nofun, fun h => nomatch h.2.1⟩⟩
  last := nofun
  count _ := rfl

/-- Every rank has entered the round that the phase counts, and none is ahead of it. -/
theorem Barrier.Ok.bounds (h : Barrier.Ok n s) (hr : r < n) :
    s.returned r ≤ s.rounds ∧ s.rounds ≤ s.entered r := by
  have hok := h.rank r hr
  generalize s.pc r = pc at hok
  cases pc with
  | idle => exact ⟨le_of_eq hok.2, le_of_eq hok.1.symm⟩
  | load =>
    obtain ⟨he, hret⟩ := hok
    omega
  | arrive | reset | advance =>
    obtain ⟨⟨he, hret⟩, -⟩ := hok
    omega
  | wait phase =>
    rcases hok with ⟨⟨he, hret⟩, -⟩ | ⟨he, hret, -⟩
    · omega
    · omega

/-- When the count is complete, everybody is counted. -/
theorem Barrier.Ok.all_counted (h : Barrier.Ok n s) (hfull : s.arrived.length = n) :
    ∀ r < n, Counted s r := by
  intro r hr
  refine (h.arrived.subset_of_length_le (range n) (fun x hx => ?_) ?_ r
    (mem_range.mpr hr)).2
  · exact mem_range.mpr hx.1
  · rw [length_range, hfull]

/-- While a rank has still to be counted, nobody is last. -/
theorem Barrier.Ok.not_last (h : Barrier.Ok n s) (hr : r < n) (hnot : ¬ Counted s r)
    (hr' : r' < n) :
    (s.pc r').last = false := by
  have hok := h.rank r' hr'
  generalize s.pc r' = pc at hok
  cases pc with
  | reset => exact absurd (h.all_counted hok.2 r hr) hnot
  | advance => exact absurd (h.all_counted hok.2.1 r hr) hnot
  | idle | load | arrive | wait => rfl

/-! ## Steps within a round -/

/-- A rank that does not move keeps what is true of it within a round. -/
theorem RankOk.congr {pc : BarrierPc} (h : RankOk n s r pc) (he : s'.entered r = s.entered r)
    (hret : s'.returned r = s.returned r) (hrounds : s'.rounds = s.rounds)
    (hphase : s'.barrierPhase = s.barrierPhase)
    (hlast : pc.last = true →
      s'.arrived = s.arrived ∧ s'.barrierCount = s.barrierCount) : RankOk n s' r pc := by
  cases pc with
  | idle | load | arrive | wait =>
    simp only [RankOk, Inside, he, hret, hrounds, hphase] at h ⊢
    exact h
  | reset | advance =>
    simp only [RankOk, Inside, he, hret, hrounds, (hlast rfl).1, (hlast rfl).2] at h ⊢
    exact h

/-- Rank `r` makes a step that changes nothing but its own place. -/
theorem Barrier.Ok.turn {pc : BarrierPc} (h : Barrier.Ok n s) (hpc' : s'.pc = update s.pc r pc)
    (he : ∀ x, x ≠ r → s'.entered x = s.entered x)
    (hret : ∀ x, x ≠ r → s'.returned x = s.returned x) (hrounds : s'.rounds = s.rounds)
    (hphase : s'.barrierPhase = s.barrierPhase) (harrived : s'.arrived = s.arrived)
    (hcount : s'.barrierCount = s.barrierCount) (hnot : ¬ Counted s r)
    (hnew : pc.counted = true → s'.entered r ≠ s.rounds + 1) (hlive : (s.pc r).last = false)
    (hlast : pc.last = false) (hok : RankOk n s' r pc) : Barrier.Ok n s' where
  phase := by rw [hphase, hrounds]; exact h.phase
  rank x hx := by
    rw [hpc', update_apply]
    split
    · rename_i hxr
      rw [hxr]
      exact hok
    · rename_i hne
      exact (h.rank x hx).congr (he x hne) (hret x hne) hrounds hphase fun _ => ⟨harrived, hcount⟩
  arrived := by
    rw [harrived]
    refine h.arrived.congr fun x => and_congr_right fun _ => ?_
    unfold Counted
    rw [hpc', hrounds, update_apply]
    split
    · rename_i hxr
      subst hxr
      exact iff_of_false (fun hc => hnew hc.1 hc.2) hnot
    · rename_i hne
      rw [he x hne]
  last x hx y hy hlx hly := by
    rw [hpc', update_apply] at hlx hly
    split at hlx
    · rw [hlast] at hlx
      cases hlx
    · split at hly
      · rw [hlast] at hly
        cases hly
      · exact h.last x hx y hy hlx hly
  count hnone := by
    rw [hcount, harrived]
    refine h.count fun x hx hadv => ?_
    by_cases hxr : x = r
    · rw [← hxr, hadv] at hlive
      cases hlive
    · refine hnone x hx ?_
      rw [hpc', update_of_ne hxr]
      exact hadv

theorem not_counted_of {pc : BarrierPc} (hpc : s.pc r = pc) (hnot : pc.counted = false) :
    ¬ Counted s r := by
  intro hc
  rw [Counted, hpc, hnot] at hc
  cases hc.1

/-- The rank counts itself. -/
theorem Barrier.Ok.arrive {phase : Nat} (h : Barrier.Ok n s) (hr : r < n)
    (hpc : s.pc r = .arrive phase) :
    Barrier.Ok n { s.setPc r (if s.barrierCount + 1 = n then .reset else .wait phase) with
      barrierCount := s.barrierCount + 1
      arrived := s.arrived ++ [r] } := by
  have hok := h.rank r hr
  rw [hpc] at hok
  obtain ⟨hinside, hphase⟩ := hok
  have hnot : ¬ Counted s r := not_counted_of hpc rfl
  have hnone (x : Nat) (hx : x < n) : (s.pc x).last = false := h.not_last hr hnot hx
  have hcount : s.barrierCount = s.arrived.length := by
    refine h.count fun x hx hadv => ?_
    have := hnone x hx
    rw [hadv] at this
    cases this
  have hother (x : Nat) (hne : x ≠ r) (pc : BarrierPc) : update s.pc r pc x = s.pc x :=
    update_of_ne hne ..
  refine ⟨h.phase, fun x hx => ?_, ?_, fun x hx y hy hlx hly => ?_, fun _ => ?_⟩
  · show RankOk n _ x (update s.pc r _ x)
    by_cases hxr : x = r
    · rw [hxr, update_self]
      split_ifs with hfull
      · refine ⟨hinside, ?_⟩
        show (s.arrived ++ [r]).length = n
        rw [length_append, ← hcount]
        exact hfull
      · exact .inl ⟨hinside, hphase⟩
    · rw [hother x hxr]
      refine (h.rank x hx).congr rfl rfl rfl rfl fun hl => ?_
      rw [hnone x hx] at hl
      cases hl
  · refine h.arrived.concat (fun hc => hnot hc.2) fun x => ?_
    show x < n ∧ (update s.pc r _ x).counted = true ∧ s.entered x = s.rounds + 1 ↔
      (x < n ∧ Counted s x) ∨ x = r
    by_cases hxr : x = r
    · subst hxr
      rw [update_self]
      refine iff_of_true ⟨hr, ?_, hinside.1⟩ (.inr rfl)
      split <;> rfl
    · rw [hother x hxr]
      exact ⟨.inl, fun hx => hx.resolve_right hxr⟩
  · -- nobody was last before, so the two are this rank
    have hself (z : Nat) (hz : z < n) (hl : (update s.pc r
        (if s.barrierCount + 1 = n then .reset else .wait phase) z).last = true) : z = r := by
      by_contra hne
      rw [hother z hne, hnone z hz] at hl
      cases hl
    exact (hself x hx hlx).trans (hself y hy hly).symm
  · show s.barrierCount + 1 = (s.arrived ++ [r]).length
    rw [length_append, ← hcount]
    rfl

/-! ## The last rank -/

theorem Barrier.Ok.reset (h : Barrier.Ok n s) (hr : r < n) (hpc : s.pc r = .reset) :
    Barrier.Ok n { s.setPc r .advance with barrierCount := 0 } := by
  have hok := h.rank r hr
  rw [hpc] at hok
  obtain ⟨hinside, hfull⟩ := hok
  refine ⟨h.phase, fun x hx => ?_, ?_, fun x hx y hy hlx hly => ?_, fun hnone => ?_⟩
  · show RankOk n _ x (update s.pc r .advance x)
    by_cases hxr : x = r
    · rw [hxr, update_self]
      exact ⟨hinside, hfull, rfl⟩
    · rw [update_of_ne hxr]
      refine (h.rank x hx).congr rfl rfl rfl rfl fun hl => absurd ?_ hxr
      exact h.last x hx r hr hl (by rw [hpc]; rfl)
  · refine h.arrived.congr fun x => and_congr_right fun _ => ?_
    show (update s.pc r .advance x).counted = true ∧ _ ↔ Counted s x
    unfold Counted
    rw [update_apply]
    split_ifs with hxr
    · rw [hxr, hpc]
      exact .rfl
    · exact .rfl
  · have hsame (z : Nat) (hl : (update s.pc r .advance z).last = true) :
        (s.pc z).last = true := by
      rw [update_apply] at hl
      split_ifs at hl with hzr
      · rw [hzr, hpc]
        rfl
      · exact hl
    exact h.last x hx y hy (hsame x hlx) (hsame y hly)
  · exact absurd (update_self ..) (hnone r hr)

/-- The phase advances: all others are waiting with the snapshot that has just become stale. -/
theorem Barrier.Ok.advance (h : Barrier.Ok n s) (hr : r < n) (hpc : s.pc r = .advance) :
    Barrier.Ok n { s.leave r with
      barrierPhase := (s.barrierPhase + 1) % 2 ^ 32
      rounds := s.rounds + 1
      arrived := [] } := by
  have hok := h.rank r hr
  rw [hpc] at hok
  obtain ⟨⟨hentered, hreturned⟩, hfull, hzero⟩ := hok
  have hall := h.all_counted hfull
  have hphase : (s.barrierPhase + 1) % 2 ^ 32 = (s.rounds + 1) % 2 ^ 32 := by
    rw [h.phase]
    omega
  have hother (x : Nat) (hx : x < n) (hne : x ≠ r) :
      ∃ p, s.pc x = .wait p ∧ Inside s x ∧ p = s.barrierPhase := by
    have hok := h.rank x hx
    obtain ⟨hcounted, hnow⟩ := hall x hx
    generalize hxpc : s.pc x = pc at hok hcounted
    cases pc with
    | idle | load | arrive => cases hcounted
    | reset | advance =>
      exact absurd (h.last x hx r hr (by rw [hxpc]; rfl) (by rw [hpc]; rfl)) hne
    | wait p =>
      rcases hok with ⟨hinside, hp⟩ | ⟨hold, -, -⟩
      · exact ⟨p, rfl, hinside, hp⟩
      · omega
  have hnone (x : Nat) (hx : x < n) : s.entered x = s.rounds + 1 := (hall x hx).2
  refine ⟨hphase, fun x hx => ?_, ⟨nodup_nil, fun x => ⟨nofun, fun hc => ?_⟩⟩,
    fun x hx y hy hlx hly => ?_, fun _ => hzero⟩
  · show RankOk n _ x (update s.pc r .idle x)
    by_cases hxr : x = r
    · subst hxr
      rw [update_self]
      refine ⟨hentered, ?_⟩
      show update s.returned x (s.returned x + 1) x = s.rounds + 1
      rw [update_self, hreturned]
    · obtain ⟨p, hp, ⟨he, hret⟩, hpp⟩ := hother x hx hxr
      rw [update_of_ne hxr, hp]
      refine .inr ⟨he, ?_, ?_⟩
      · show update s.returned r _ x + 1 = s.rounds + 1
        rw [update_of_ne hxr, hret]
      · -- one step of a counter that wraps at 2^32 is seen
        show p ≠ (s.barrierPhase + 1) % 2 ^ 32
        rw [hphase, hpp, h.phase]
        omega
  · have hnext : s.entered x = s.rounds + 1 + 1 := hc.2.2
    have := hnone x hc.1
    omega
  · have hgone (z : Nat) (hz : z < n) (hl : (update s.pc r .idle z).last = true) : False := by
      by_cases hzr : z = r
      · rw [hzr, update_self] at hl
        cases hl
      · obtain ⟨p, hp, -⟩ := hother z hz hzr
        rw [update_of_ne hzr, hp] at hl
        cases hl
    exact (hgone x hx hlx).elim

/-! ## Runs -/

theorem Barrier.Ok.step (h : Barrier.Ok n s) (hs : s.step n r = some s') : Barrier.Ok n s' := by
  obtain ⟨hr, hs⟩ := Option.ite_none_right_eq_some.mp hs
  have hok := h.rank r hr
  generalize hpc : s.pc r = pc at hs hok
  cases pc with
  | idle =>
    cases hs
    refine h.turn rfl (fun x hne => update_of_ne hne ..) (fun _ _ => rfl) rfl rfl rfl rfl
      (not_counted_of hpc rfl) nofun (by rw [hpc]; rfl) rfl ⟨?_, hok.2⟩
    show update s.entered r _ r = s.rounds + 1
    rw [update_self, hok.1]
  | load =>
    cases hs
    exact h.turn rfl (fun _ _ => rfl) (fun _ _ => rfl) rfl rfl rfl rfl
      (not_counted_of hpc rfl) nofun
      (by rw [hpc]; rfl) rfl ⟨hok, rfl⟩
  | arrive phase =>
    cases hs
    exact h.arrive hr hpc
  | reset =>
    cases hs
    exact h.reset hr hpc
  | advance =>
    cases hs
    exact h.advance hr hpc
  | wait phase =>
    obtain ⟨hchanged, hs⟩ := Option.ite_none_right_eq_some.mp hs
    cases hs
    -- the snapshot is stale, so the rank is in the round before
    obtain ⟨hentered, hreturned, -⟩ := hok.resolve_left fun hin => hchanged hin.2.symm
    refine h.turn rfl (fun _ _ => rfl) (fun x hne => update_of_ne hne ..) rfl rfl rfl rfl
      (fun hc => ?_) nofun (by rw [hpc]; rfl) rfl ⟨hentered, ?_⟩
    · have := hc.2
      omega
    · show update s.returned r (s.returned r + 1) r = s.rounds
      rw [update_self, hreturned]

theorem Barrier.Ok.reach (h : Reach (Barrier.step n) free .init s) : Barrier.Ok n s :=
  h.invariant (Barrier.Ok.init n) fun _ _ _ _ hinv _ hs => hinv.step hs

/--
**The barrier separates rounds.** For every number of ranks, in every state of every run: no rank
has returned from more calls than any other rank has entered; and where all ranks have returned
from their `k`-th call and entered no further one, the count is zero and the phase has advanced
exactly `k` times.
-/
theorem barrier_separates_rounds (hn : 1 ≤ n) (h : Reach (Barrier.step n) free .init s) :
    (∀ r < n, ∀ r' < n, ∀ k, k ≤ s.returned r → k ≤ s.entered r') ∧
      ∀ k, (∀ r < n, s.returned r = k ∧ s.entered r = k) →
        s.barrierCount = 0 ∧ s.rounds = k ∧ s.barrierPhase = k % 2 ^ 32 := by
  have hok := Barrier.Ok.reach h
  refine ⟨fun r hr r' hr' k hk => ?_, fun k hall => ?_⟩
  · calc k ≤ s.returned r := hk
      _ ≤ s.rounds := (hok.bounds hr).1
      _ ≤ s.entered r' := (hok.bounds hr').2
  · have hrounds : s.rounds = k := by
      have hb := hok.bounds (r := 0) hn
      have ha := hall 0 hn
      omega
    have hnobody (r : Nat) (hr : r < n) : ¬ Counted s r := by
      intro hc
      have := hc.2
      have := (hall r hr).2
      omega
    have hnil : s.arrived = [] := by
      refine eq_nil_iff_forall_not_mem.mpr fun r hmem => ?_
      obtain ⟨hr, hc⟩ := (hok.arrived.mem_iff r).mp hmem
      exact hnobody r hr hc
    refine ⟨?_, hrounds, ?_⟩
    · rw [hok.count fun r hr hadv => ?_, hnil]
      · rfl
      · have := hok.not_last hr (hnobody r hr) hr
        rw [hadv] at this
        cases this
    · rw [hok.phase, hrounds]

/-- Two ranks go through two rounds; the second one starts while rank 0 has not left the first. -/
theorem barrier_separates_rounds_two : ∃ s, Reach (Barrier.step 2) free .init s ∧
    (∀ r < 2, s.returned r = 2 ∧ s.entered r = 2) ∧
      s.barrierCount = 0 ∧ s.rounds = 2 ∧ s.barrierPhase = 2 := by
  obtain ⟨s, hs, hall⟩ : ∃ s, Reach (Barrier.step 2) free .init s ∧
      ∀ r < 2, s.returned r = 2 ∧ s.entered r = 2 := by
    refine Reach.exists_of_run ([0, 0, 0, 1, 1, 1, 1, 1, 1, 1, 1, 0, 0, 0, 0, 0, 0, 1] : List Nat)
      ?_
    decide +kernel
  exact ⟨s, hs, hall, (barrier_separates_rounds (by decide) hs).2 2 hall⟩

end PtoRuntime.Comm
