import PtoRuntime.Cuda.Success

/-!
# Persistent CUDA executor — well-formed graphs

On a table that describes an acyclic graph and counts its edges correctly, every error but one is
out of the question, whatever the interleaving: indices are in range, no list names a task twice,
there is a root to start with, and a fanin that is still to be decremented is not zero. The error
that remains is number 7, which block 0 reports when it believes that nothing moves any more; the
next module is about that.

Main result: `Sound.reach`.
-/

namespace PtoRuntime.Cuda

open Lib Function List Option

variable {c : Dag} {s s₁ s' : State} {t u b w i k idx old : Nat}
variable {p : Phase} {pc : SchedPc}

/-! ## Graphs -/

/-- `u` and `t` are tasks, and `u` lists `t`. -/
def Launch.Edge (c : Launch) (u t : Nat) : Prop := u < c.taskCount ∧ t < c.taskCount ∧ c.Lists u t

/-- The tasks that list `t`. -/
def Launch.listers (c : Launch) (t : Nat) : List Nat := (range c.taskCount).filter (c.Lists · t)

/-- The table describes an acyclic graph, and the host has set the counters accordingly. -/
structure Launch.WellFormed (c : Launch) : Prop where
  launched : ∀ t < c.taskCount, c.fanin t = (c.tasks t).initialFanin
  counted : ∀ t < c.taskCount, (c.tasks t).initialFanin = (c.listers t).length
  ranges : ∀ u < c.taskCount,
    (c.tasks u).dependentBegin + (c.tasks u).dependentCount ≤ c.dependentCount
  tasks : ∀ u < c.taskCount, ∀ k < (c.tasks u).dependentCount,
    c.dependents ((c.tasks u).dependentBegin + k) < c.taskCount
  distinct : ∀ u < c.taskCount, ∀ j < (c.tasks u).dependentCount,
    ∀ k < (c.tasks u).dependentCount, c.dependents ((c.tasks u).dependentBegin + j) =
      c.dependents ((c.tasks u).dependentBegin + k) → j = k
  known : ∀ t < c.taskCount, c.known (c.tasks t).funcId = true
  acyclic : ∀ t, ¬ Relation.TransGen c.Edge t t

theorem mem_listers : u ∈ c.listers t ↔ u < c.taskCount ∧ c.Lists u t := by
  unfold Launch.listers
  rw [mem_filter, mem_range, decide_eq_true_iff]

theorem Launch.WellFormed.fanin_eq (h : c.WellFormed) (ht : t < c.taskCount) :
    c.fanin t = (c.listers t).length :=
  (h.launched t ht).trans (h.counted t ht)

theorem Launch.WellFormed.edge (h : c.WellFormed) (hfit : c.Fits) (hu : u < c.taskCount)
    (hk : k < (c.tasks u).dependentCount) : c.Edge u (c.dependentId u k) := by
  rw [dependentId_eq hfit hu (h.ranges u hu) hk]
  exact ⟨hu, h.tasks u hu k hk, k, hk, rfl⟩

theorem Launch.WellFormed.dependentId_inj (h : c.WellFormed) (hfit : c.Fits) (hu : u < c.taskCount)
    {j : Nat} (hj : j < (c.tasks u).dependentCount) (hk : k < (c.tasks u).dependentCount)
    (he : c.dependentId u j = c.dependentId u k) : j = k := by
  have hrange := h.ranges u hu
  rw [dependentId_eq hfit hu hrange hj, dependentId_eq hfit hu hrange hk] at he
  exact h.distinct u hu j hj k hk he

/-- No task is named twice. -/
theorem Launch.WellFormed.duplicate_eq (h : c.WellFormed) (hfit : c.Fits) (hu : u < c.taskCount)
    (hk : k < (c.tasks u).dependentCount) : c.duplicate u k = false := by
  by_contra hdup
  rw [Bool.not_eq_false] at hdup
  obtain ⟨j, hj, he⟩ := any_eq_true.mp hdup
  rw [mem_range] at hj
  have := h.dependentId_inj hfit hu (by omega) hk (of_decide_eq_true he)
  omega

/-- Induction along the edges. -/
theorem Launch.WellFormed.wellFounded (h : c.WellFormed) : WellFounded c.Edge := by
  have hirrefl : Std.Irrefl (Relation.TransGen c.Edge) := ⟨h.acyclic⟩
  have horder : IsStrictOrder Nat (Relation.TransGen c.Edge) := { }
  -- the edges join finitely many tasks
  have hon := (Set.finite_lt_nat c.taskCount).wellFoundedOn (r := Relation.TransGen c.Edge)
  refine Subrelation.wf ?_ (Set.wellFoundedOn_iff.mp hon)
  intro u t hedge
  exact ⟨.single hedge, hedge.1, hedge.2.1⟩

/-- Some task has no lister. -/
theorem Launch.WellFormed.exists_root (h : c.WellFormed) (hn : 0 < c.taskCount) :
    ∃ t < c.taskCount, c.fanin t = 0 := by
  obtain ⟨t, ht, hmin⟩ := h.wellFounded.has_min {t | t < c.taskCount} ⟨0, hn⟩
  refine ⟨t, ht, ?_⟩
  rw [h.fanin_eq ht, length_eq_zero_iff, eq_nil_iff_forall_not_mem]
  intro u hu
  obtain ⟨hlt, hlists⟩ := mem_listers.mp hu
  exact hmin u hlt ⟨hlt, ht, hlists⟩

/-! ## Invariant -/

/-- A task whose fanin has come down to zero is on its way. -/
def Woken (c : Dag) (s : State) : Prop :=
  ∀ t, s.fanin t = 0 → c.fanin t ≠ 0 → s.phase t ≠ .unready

/-- Every decrement belongs to an edge, and to one only; its source is being processed or
counted. -/
def Edges (c : Dag) (s : State) : Prop :=
  ∀ d, (s.decs d).Nodup ∧ ∀ u ∈ s.decs d, 6 ≤ (s.phase u).rank ∧ c.Edge u d

/-- The block is past the task's index, if the task is a root of its share. -/
def Scanned (c : Dag) (s : State) (b : Nat) (pc : SchedPc) : Prop :=
  ∀ t < c.taskCount, t % c.schedulers = b → c.fanin t = 0 →
    (∀ idx, pc.cursor? = some idx → t < idx) → s.phase t ≠ .unready

/-- Dependents from `idx` on are still to be decremented. -/
def Fresh (c : Dag) (s : State) (u idx : Nat) : Prop :=
  ∀ k, idx ≤ k → k < (c.tasks u).dependentCount → u ∉ s.decs (c.dependentId u k)

/-- A claimed ticket whose task has not been taken off any fanin. -/
def Untouched (s : State) (i : Nat) : Prop := ∃ u, s.reported[i]? = some u ∧ ∀ d, u ∉ s.decs d

def PopPlace (s : State) : PopPc → Prop
  | .head | .tail _ | .cas _ => True
  | .wait i | .error i | .take i => Untouched s i

/-- What is true of the graph by the place where a block is; some places it never comes to, and
some only block 0 comes to. -/
def Place (c : Dag) (s : State) (b : Nat) : SchedPc → Prop
  | .initError _ | .tailError | .rangeError _ | .dependentError .. => False
  | .checkTail => b = 0 ∧ c.taskCount ≠ 0
  | .pop late pc => (late = true → b = 0) ∧ PopPlace s pc
  | .process u => ∀ d, u ∉ s.decs d
  | .dependent u idx | .push _ (.dependent u idx) => Fresh c s u idx
  | .readFanin u idx | .casFanin u idx _ => idx < (c.tasks u).dependentCount ∧ Fresh c s u idx
  | .published _ | .finished .. | .claimed .. | .completed .. | .scan _ | .cycleError _ => b = 0
  | .init _ | .push _ (.init _) | .initCount | .barrier | .barrierError | .loopCount | .loop
  | .loopError | .processedCount _ | .processedByBlock _ | .completedCount _ | .done => True

structure Sound (c : Dag) (s : State) : Prop where
  error : s.errorCount = 0 ∨ s.sched 0 = .done ∧ s.errorCode = 7
  woken : Woken c s
  edges : Edges c s
  pushers : ∀ t b, s.phase t = .pushing b →
    b < c.schedulers ∧ ∃ k, s.sched b = .push (.ticket t) k
  scanned : ∀ b < c.schedulers, Scanned c s b (s.sched b)
  place : ∀ b < c.schedulers, Place c s b (s.sched b)
  work : ∀ w t, s.work w ≠ .fail t

/-! ## Frames -/

theorem rank_eq_zero : p.rank = 0 ↔ p = .unready := by
  cases p <;> simp

theorem ne_unready_of_rank {p' : Phase} (hrank : p.rank ≤ p'.rank) (hp : p ≠ .unready) :
    p' ≠ .unready := by
  rw [Ne, ← rank_eq_zero] at hp ⊢
  omega

/-- A task moves forward, so every task does. -/
theorem rank_update (hp : (s.phase t).rank ≤ p.rank) (x : Nat) :
    (s.phase x).rank ≤ (update s.phase t p x).rank := by
  rw [update_apply]
  split_ifs with he
  · rw [he]
    exact hp
  · exact le_rfl

theorem Woken.mono (h : Woken c s) (hfanin : s₁.fanin = s.fanin)
    (hrank : ∀ t, (s.phase t).rank ≤ (s₁.phase t).rank) : Woken c s₁ := by
  intro t ht hc
  rw [hfanin] at ht
  exact ne_unready_of_rank (hrank t) (h t ht hc)

theorem Edges.mono (h : Edges c s) (hdecs : s₁.decs = s.decs)
    (hrank : ∀ t, (s.phase t).rank ≤ (s₁.phase t).rank) : Edges c s₁ := by
  intro d
  rw [hdecs]
  exact ⟨(h d).1, fun u hu => ⟨le_trans ((h d).2 u hu).1 (hrank u), ((h d).2 u hu).2⟩⟩

theorem Scanned.mono (h : Scanned c s b pc) (hrank : ∀ t, (s.phase t).rank ≤ (s₁.phase t).rank) :
    Scanned c s₁ b pc :=
  fun t ht hmod hroot hpast => ne_unready_of_rank (hrank t) (h t ht hmod hroot hpast)

/-- A block that is through its scan stays so. -/
theorem Scanned.move {pc' : SchedPc} (h : Scanned c s b pc) (hpast : pc.cursor? = none) :
    Scanned c s b pc' := by
  intro t ht hmod hroot _
  refine h t ht hmod hroot fun idx hidx => ?_
  rw [hpast] at hidx
  cases hidx

/-- Steps of others: nobody else takes the block's own task off a fanin. -/
theorem Place.later (h : Place c s b pc) (hok : SchedOk c s b pc)
    (hreported : ∀ i t : Nat, s.reported[i]? = some t → s₁.reported[i]? = some t)
    (hdecs : ∀ u d, s.phase u = .processing b → u ∈ s₁.decs d → u ∈ s.decs d) :
    Place c s₁ b pc := by
  have hfresh {u idx : Nat} (hu : s.phase u = .processing b) (hf : Fresh c s u idx) :
      Fresh c s₁ u idx := fun k hle hk hd => hf k hle hk (hdecs u _ hu hd)
  have hticket {i : Nat} (hcl : Claimed s b i) (hp : Untouched s i) : Untouched s₁ i := by
    obtain ⟨u, hu, hnot⟩ := hp
    obtain ⟨u', hu', hph⟩ := hcl
    cases some.inj (hu.symm.trans hu')
    exact ⟨u, hreported i u hu, fun d hd => hnot d (hdecs u d hph hd)⟩
  cases pc with
  | initError | tailError | rangeError | dependentError => exact h.elim
  | pop late pc =>
    refine ⟨h.1, ?_⟩
    cases pc with
    | head | tail | cas => trivial
    | wait | error => exact hticket hok.2 h.2
    | take => exact hticket hok.2.1 h.2
  | process u => exact fun d hd => h d (hdecs u d hok.2 hd)
  | dependent => exact hfresh hok.phase h
  | readFanin | casFanin => exact ⟨h.1, hfresh hok.1.phase h.2⟩
  | push pc k =>
    cases k with
    | init => trivial
    | dependent => exact hfresh hok.2.phase h
  | checkTail | published | finished | claimed | completed | scan | cycleError => exact h
  | processedCount | processedByBlock | completedCount => trivial
  | _ => trivial

/-- A scheduler block has made an operation and moves on. -/
theorem Sound.ofSched (h : Sound c s) (hinv : Inv c s) (hlive : s.sched b ≠ .done)
    (hreported : ∀ i t : Nat, s.reported[i]? = some t → s₁.reported[i]? = some t)
    (hrank : ∀ t, (s.phase t).rank ≤ (s₁.phase t).rank)
    (hdecs : ∀ u d, u ∈ s₁.decs d → u ∈ s.decs d ∨ s.phase u = .processing b)
    (herr : s₁.errorCount = s.errorCount) (hcode : s₁.errorCode = s.errorCode)
    (hsched : s₁.sched = s.sched) (hwork : s₁.work = s.work) (hWoken : Woken c s₁)
    (hEdges : Edges c s₁)
    (hpushers : ∀ t b', s₁.phase t = .pushing b' → b' ≠ b ∧ s.phase t = .pushing b' ∨
      b' = b ∧ b < c.schedulers ∧ ∃ k, pc = .push (.ticket t) k) (hscan : Scanned c s₁ b pc)
    (hplace : Place c s₁ b pc) : Sound c (s₁.setSched b pc) where
  error := by
    refine h.error.imp herr.trans fun ⟨hdone, h7⟩ => ⟨?_, hcode.trans h7⟩
    show update s₁.sched b pc 0 = .done
    rw [update_of_ne, hsched]
    · exact hdone
    · rintro rfl
      exact hlive hdone
  woken := hWoken
  edges := hEdges
  pushers t b' hph := by
    show b' < _ ∧ ∃ k, update s₁.sched b pc b' = _
    rcases hpushers t b' hph with ⟨hne, hph⟩ | ⟨rfl, hb, hpc⟩
    · rw [update_of_ne hne, hsched]
      exact h.pushers t b' hph
    · rw [update_self]
      exact ⟨hb, hpc⟩
  scanned b' hb' := by
    show Scanned c s₁ b' (update s₁.sched b pc b')
    rw [update_apply]
    split_ifs with he
    · rw [he]
      exact hscan
    · rw [hsched]
      exact (h.scanned b' hb').mono hrank
  place b' hb' := by
    show Place c s₁ b' (update s₁.sched b pc b')
    rw [update_apply]
    split
    · rename_i he
      rw [he]
      exact hplace
    · rename_i hne
      rw [hsched]
      refine (h.place b' hb').later (hinv.sched b' hb') hreported fun u d hu hd => ?_
      -- a task is with one block
      refine (hdecs u d hd).resolve_right fun hu' => hne ?_
      rw [hu] at hu'
      exact Phase.processing.inj hu'
  work w t := by
    show s₁.work w ≠ _
    rw [hwork]
    exact h.work w t

theorem Sound.placeAt (h : Sound c s) (hb : b < c.schedulers) (hpc : s.sched b = pc) :
    Place c s b pc :=
  hpc ▸ h.place b hb

/-- What `Sound` is about does not change. -/
structure Still (s s₁ : State) : Prop where
  phase : s₁.phase = s.phase
  fanin : s₁.fanin = s.fanin
  decs : s₁.decs = s.decs
  reported : s₁.reported = s.reported
  errorCount : s₁.errorCount = s.errorCount
  errorCode : s₁.errorCode = s.errorCode
  sched : s₁.sched = s.sched
  work : s₁.work = s.work

theorem Still.refl (s : State) : Still s s := ⟨rfl, rfl, rfl, rfl, rfl, rfl, rfl, rfl⟩

/-- The block moves without touching a task. -/
theorem Sound.still (h : Sound c s) (hinv : Inv c s) (hs : Still s s₁) (hlive : s.sched b ≠ .done)
    (hnot : ∀ t k, s.sched b ≠ .push (.ticket t) k) (hscan : Scanned c s₁ b pc)
    (hplace : Place c s₁ b pc) : Sound c (s₁.setSched b pc) := by
  have hrank (t : Nat) : (s.phase t).rank ≤ (s₁.phase t).rank := by rw [hs.phase]
  refine h.ofSched hinv hlive (fun i t ht => ?_) hrank (fun u d hd => ?_) hs.errorCount hs.errorCode
    hs.sched hs.work (h.woken.mono hs.fanin hrank) (h.edges.mono hs.decs hrank) (fun t b' ht => ?_)
    hscan hplace
  · rwa [hs.reported]
  · rw [hs.decs] at hd
    exact .inl hd
  · rw [hs.phase] at ht
    refine .inl ⟨?_, ht⟩
    rintro rfl
    obtain ⟨-, k, hk⟩ := h.pushers t b' ht
    exact hnot t k hk

/-- One task moves forward. -/
structure Moved (s s₁ : State) (t : Nat) (p : Phase) : Prop where
  phase : s₁.phase = update s.phase t p
  fanin : s₁.fanin = s.fanin
  decs : s₁.decs = s.decs
  errorCount : s₁.errorCount = s.errorCount
  errorCode : s₁.errorCode = s.errorCode
  sched : s₁.sched = s.sched
  work : s₁.work = s.work

theorem Moved.rank (hm : Moved s s₁ t p) (hp : (s.phase t).rank ≤ p.rank) (x : Nat) :
    (s.phase x).rank ≤ (s₁.phase x).rank := by
  rw [hm.phase]
  exact rank_update hp x

theorem Sound.moved (h : Sound c s) (hinv : Inv c s) (hm : Moved s s₁ t p)
    (hlive : s.sched b ≠ .done) (hp : (s.phase t).rank ≤ p.rank)
    (hreported : ∀ i t : Nat, s.reported[i]? = some t → s₁.reported[i]? = some t)
    (hpush : ∀ b', p = .pushing b' → b' = b ∧ b < c.schedulers ∧ ∃ k, pc = .push (.ticket t) k)
    (hnot : ∀ x k, s.sched b = .push (.ticket x) k → x = t) (hscan : Scanned c s₁ b pc)
    (hplace : Place c s₁ b pc) : Sound c (s₁.setSched b pc) := by
  refine h.ofSched hinv hlive hreported (hm.rank hp) (fun u d hd => ?_) hm.errorCount hm.errorCode
    hm.sched hm.work (h.woken.mono hm.fanin (hm.rank hp)) (h.edges.mono hm.decs (hm.rank hp))
    (fun x b' hx => ?_) hscan hplace
  · rw [hm.decs] at hd
    exact .inl hd
  · rw [hm.phase, update_apply] at hx
    split at hx
    · rename_i he
      rw [he]
      exact .inr (hpush b' hx)
    · rename_i hne
      refine .inl ⟨?_, hx⟩
      rintro rfl
      obtain ⟨-, k, hk⟩ := h.pushers x b' hx
      exact hne (hnot x k hk)

/-! ## Initial scan -/

/-- The scan goes on behind a task that is no root, or is on its way. -/
theorem Scanned.next {pc' : SchedPc} (h : Scanned c s b pc) (hfit : c.Fits)
    (hidx : idx < c.taskCount) (hmod : idx % c.schedulers = b) (hpc : pc.cursor? = some idx)
    (hpc' : pc'.cursor? = some (c.nextIdx idx)) (hhere : c.fanin idx = 0 → s.phase idx ≠ .unready) :
    Scanned c s b pc' := by
  intro t ht htmod hroot hpast
  have hlt := hpast _ hpc'
  rw [nextIdx_eq hfit hidx] at hlt
  rcases lt_or_ge t idx with hbelow | habove
  · refine h t ht htmod hroot fun idx' hidx' => ?_
    rw [hpc] at hidx'
    cases hidx'
    exact hbelow
  · -- the only index of the block's share in between
    have hzero : (t - idx) % c.schedulers = 0 :=
      Nat.sub_mod_eq_zero_of_mod_eq (htmod.trans hmod.symm)
    rw [Nat.mod_eq_of_lt (by omega)] at hzero
    have he : t = idx := by omega
    rw [he] at hroot ⊢
    exact hhere hroot

/-- A step of the initial scan. -/
theorem Sound.init (h : Sound c s) (hinv : Inv c s) (hfit : c.Fits) (hwf : c.WellFormed)
    (hb : b < c.schedulers) (hpc : s.sched b = .init idx) (hs : s.schedStep c b = some s') :
    Sound c s' := by
  have hmod : idx % c.schedulers = b := hinv.schedAt hb hpc
  have hscan := h.scanned b hb
  rw [hpc] at hscan
  have hunt := hinv.inits.untouched b hb (by rw [hpc]; rfl)
  simp only [State.schedStep, hpc] at hs
  split at hs
  · rename_i hidx
    have hlaunched := hwf.launched idx hidx
    split at hs
    · rename_i hne
      rw [hunt] at hne
      exact absurd hlaunched hne
    · split at hs <;> cases hs
      · have hzero : s.fanin idx = 0 := by omega
        have hph := hinv.root_unready hb hpc hzero
        have hm : Moved s (s.setPhase idx (.pushing b)) idx (.pushing b) :=
          ⟨rfl, rfl, rfl, rfl, rfl, rfl, rfl⟩
        have hp : (s.phase idx).rank ≤ (Phase.pushing b).rank := by simp [hph]
        refine h.moved hinv hm (by simp [hpc]) hp (fun _ _ => id) (fun b' hb' => ?_) (by simp [hpc])
          ?_ trivial
        · cases hb'
          exact ⟨rfl, hb, _, rfl⟩
        · refine (hscan.mono (hm.rank hp)).next hfit hidx hmod rfl rfl fun _ => ?_
          rw [hm.phase, update_self]
          simp
      · rename_i hroot
        refine h.still hinv (.refl s) (by simp [hpc]) (by simp [hpc])
          (hscan.next hfit hidx hmod rfl rfl fun hzero => ?_) trivial
        rw [hlaunched] at hzero
        exact absurd hzero hroot
  · rename_i hidx
    cases hs
    refine h.still hinv (.refl s) (by simp [hpc]) (by simp [hpc])
      (fun t ht htmod hroot _ => ?_) trivial
    refine hscan t ht htmod hroot fun idx' hidx' => ?_
    cases hidx'
    omega

/-! ## Queues -/

/-- A step of a push. -/
theorem Sound.push {pc : PushPc} {k : PushReturn} (h : Sound c s) (hinv : Inv c s)
    (hb : b < c.schedulers) (hpc : s.sched b = .push pc k) (hs : s.pushStep c b k pc = some s') :
    Sound c s' := by
  have hscan := h.scanned b hb
  have hplace := h.place b hb
  rw [hpc] at hscan hplace
  -- the return address decides, not the place inside the push
  have hscan' (pc' : PushPc) : Scanned c s b (.push pc' k) := by cases k <;> exact hscan
  have hplace' (pc' : PushPc) : Place c s b (.push pc' k) := by cases k <;> exact hplace
  cases pc with
  | ticket t =>
    cases hs
    have hph : s.phase t = .pushing b := (hinv.schedAt hb hpc).1
    have hm : Moved s (s.drawReady t) t .queued := ⟨rfl, rfl, rfl, rfl, rfl, rfl, rfl⟩
    have hp : (s.phase t).rank ≤ Phase.queued.rank := by simp [hph]
    refine h.moved hinv hm (by simp [hpc]) hp (fun _ _ => id) nofun (fun x k' hx => ?_)
      ((hscan' _).mono (hm.rank hp)) ?_
    · rw [hpc] at hx
      cases hx
      rfl
    · cases k <;> exact hplace
  | wait t i =>
    obtain ⟨-, heq⟩ := ite_none_right_eq_some.mp hs
    cases heq
    exact h.still hinv (.refl s) (by simp [hpc]) (by simp [hpc]) (hscan' _) (hplace' _)
  | publish t i =>
    cases hs
    refine h.still hinv ⟨rfl, rfl, rfl, rfl, rfl, rfl, rfl, rfl⟩ (by simp [hpc])
      (by simp [hpc]) ?_ ?_
    · cases k <;> exact hscan
    · cases k <;> exact hplace

theorem popFailed_place {late : Bool} (hlate : late = true → b = 0) :
    Place c s b (popFailed b late) := by
  unfold popFailed
  split
  · rename_i htrue
    exact hlate htrue
  · split
    · assumption
    · trivial

/-- A step of a pop. -/
theorem Sound.pop {late : Bool} {pc : PopPc} (h : Sound c s) (hinv : Inv c s)
    (hb : b < c.schedulers) (hpc : s.sched b = .pop late pc)
    (hs : s.popStep c b late pc = some s') : Sound c s' := by
  have hscan {pc' : SchedPc} : Scanned c s b pc' := by
    refine (h.scanned b hb).move ?_
    rw [hpc]
    rfl
  have hok := hinv.schedAt hb hpc
  obtain ⟨hlate, hplace⟩ := h.placeAt hb hpc
  have hmove {pc' : SchedPc} (hp : Place c s b pc') : Sound c (s.setSched b pc') :=
    h.still hinv (.refl s) (by simp [hpc]) (by simp [hpc]) hscan hp
  cases pc with
  | head =>
    cases hs
    exact hmove ⟨hlate, trivial⟩
  | tail head =>
    simp only [State.popStep] at hs
    split at hs <;> cases hs
    · exact hmove (popFailed_place hlate)
    · exact hmove ⟨hlate, trivial⟩
  | cas head =>
    simp only [State.popStep] at hs
    split at hs <;> cases hs
    · rename_i hhead
      obtain ⟨t, ht⟩ : ∃ t, s.reported[head]? = some t := ⟨_, getElem?_eq_getElem hok.2⟩
      have hph := hinv.ledger.unclaimed head t (by omega) ht
      have hm : Moved s (s.claim b head) t (.processing b) := by
        rw [claim_eq ht]
        exact ⟨rfl, rfl, rfl, rfl, rfl, rfl, rfl⟩
      have hp : (s.phase t).rank ≤ (Phase.processing b).rank := by simp [hph]
      refine h.moved hinv hm (by simp [hpc]) hp (fun _ _ => id) (by simp) (by simp [hpc])
        (hscan.mono (hm.rank hp)) ⟨hlate, t, ht, fun d hd => ?_⟩
      -- sources of decrements have been claimed
      have := ((h.edges d).2 t hd).1
      rw [hph] at this
      exact absurd this (by decide)
    · exact hmove ⟨hlate, trivial⟩
  | wait i =>
    simp only [State.popStep] at hs
    split at hs <;> cases hs <;> exact hmove ⟨hlate, hplace⟩
  | error i =>
    simp only [State.popStep] at hs
    split at hs <;> cases hs
    · exact hmove (popFailed_place hlate)
    · exact hmove ⟨hlate, hplace⟩
  | take i =>
    cases hs
    obtain ⟨u, hu, hnot⟩ : Untouched s i := hplace
    have hcell : s.completion.cells (i % c.queueCapacity) = u :=
      some.inj (hok.2.2.symm.trans hu)
    refine h.still hinv ⟨rfl, rfl, rfl, rfl, rfl, rfl, rfl, rfl⟩ (by simp [hpc])
      (by simp [hpc]) hscan
      fun d => ?_
    rw [hcell]
    exact hnot d

theorem cursor?_eq_none (h : pc.initialising = false) : pc.cursor? = none := by
  cases pc with
  | init | initError => cases h
  | push pc k =>
    cases k with
    | init => cases h
    | dependent => rfl
  | _ => rfl

/-- Behind the barrier the roots are on their way. -/
theorem Sound.root (h : Sound c s) (hinv : Inv c s) (hall : AllInited c s) (ht : t < c.taskCount)
    (hroot : c.fanin t = 0) : s.phase t ≠ .unready := by
  have hmod := Nat.mod_lt t (schedulers_pos c)
  refine h.scanned (t % c.schedulers) hmod t ht rfl hroot fun idx hidx => ?_
  rw [cursor?_eq_none (hinv.inits.all hall hmod)] at hidx
  cases hidx

/-- Behind the barrier a task is pushed on behalf of one that has completed. -/
theorem Sound.pushing_processing (h : Sound c s) (hinv : Inv c s) (hall : AllInited c s)
    (hph : s.phase t = .pushing b) : ∃ u, s.phase u = .processing b := by
  obtain ⟨hb, k, hk⟩ := h.pushers t b hph
  have hok := hinv.sched b hb
  have hpast := hinv.inits.all hall hb
  rw [hk] at hok hpast
  cases k with
  | init => cases hpast
  | dependent u idx => exact ⟨u, hok.2.phase⟩

/-- Behind the barrier there is a task in the queue. -/
theorem Sound.tail_ne_zero (h : Sound c s) (hinv : Inv c s) (hwf : c.WellFormed)
    (hn : c.taskCount ≠ 0) (hall : AllInited c s) : s.ready.tail ≠ 0 := by
  obtain ⟨t, ht, hroot⟩ := hwf.exists_root (Nat.pos_of_ne_zero hn)
  have hph := h.root hinv hall ht hroot
  -- the root, or the task whose completion has made it ready
  obtain ⟨x, hx⟩ : ∃ x, 2 ≤ (s.phase x).rank := by
    cases hp : s.phase t with
    | unready => exact absurd hp hph
    | pushing b =>
      obtain ⟨u, hu⟩ := h.pushing_processing hinv hall hp
      exact ⟨u, by simp [hu]⟩
    | _ => exact ⟨t, by simp [hp]⟩
  rw [hinv.ledger.ready.tail, Ne, length_eq_zero_iff]
  exact ne_nil_of_mem ((hinv.ledger.pushed.mem_iff x).mpr hx)

/-! ## Completions -/

theorem Inv.processing_lt (h : Inv c s) (hph : s.phase u = .processing b) : u < c.taskCount :=
  (h.ledger.zero u (by simp [hph])).1

/-- A dependent that is still to be decremented has something to take off. -/
theorem Sound.fanin_pos (h : Sound c s) (hinv : Inv c s) (hwf : c.WellFormed) {d : Nat}
    (hedge : c.Edge u d) (hnot : u ∉ s.decs d) : s.fanin d ≠ 0 := by
  have hsub : (s.decs d ++ [u]) ⊆ c.listers d := by
    intro x hx
    rcases mem_append.mp hx with hx | hx
    · obtain ⟨hlt, -, hlists⟩ := ((h.edges d).2 x hx).2
      exact mem_listers.mpr ⟨hlt, hlists⟩
    · cases mem_singleton.mp hx
      exact mem_listers.mpr ⟨hedge.1, hedge.2.2⟩
  have hnodup : (s.decs d ++ [u]).Nodup := by
    rw [← concat_eq_append]
    exact (h.edges d).1.concat hnot
  have hle := (hnodup.subperm hsub).length_le
  rw [length_append, length_singleton, ← hwf.fanin_eq hedge.2.1] at hle
  have hsum := hinv.ledger.fanin d
  omega

/-- A decrement along an edge. -/
theorem Sound.decrement (h : Sound c s) (hinv : Inv c s) (hfit : c.Fits) (hwf : c.WellFormed)
    (hb : b < c.schedulers) (hpc : s.sched b = .casFanin u idx old)
    (hfanin : s.fanin (c.dependentId u idx) = old) :
    Sound c ((s.decrement b u (c.dependentId u idx) old).setSched b
      (if old = 1 then .push (.ticket (c.dependentId u idx)) (.dependent u (idx + 1))
        else .dependent u (idx + 1))) := by
  obtain ⟨hhandling, -, hold⟩ := hinv.schedAt hb hpc
  obtain ⟨hidx, hfresh⟩ := h.placeAt hb hpc
  have hu := hinv.processing_lt hhandling.phase
  have hedge := hwf.edge hfit hu hidx
  have hunready := hinv.ledger.unready_of_fanin (t := c.dependentId u idx) (by omega)
  have hnew : u ∉ s.decs (c.dependentId u idx) := hfresh idx le_rfl hidx
  have hrank (x : Nat) : (s.phase x).rank ≤
      ((s.decrement b u (c.dependentId u idx) old).phase x).rank := by
    rw [phase_decrement]
    split_ifs with he
    · rw [he.2, hunready]
      exact Nat.zero_le _
    · exact le_rfl
  have hnext : Fresh c (s.decrement b u (c.dependentId u idx) old) u (idx + 1) := by
    intro k hle hk hmem
    rcases mem_decs_decrement.mp hmem with hmem | ⟨he, -⟩
    · exact hfresh k (by omega) hk hmem
    · have := hwf.dependentId_inj hfit hu hk hidx he
      omega
  refine h.ofSched hinv (by simp [hpc]) (fun _ _ => id) hrank (fun v d hv => ?_) rfl rfl rfl rfl
    (fun t ht hc => ?_) (fun d => ⟨?_, fun v hv => ?_⟩) (fun t b' ht => ?_) ?_ ?_
  · rcases mem_decs_decrement.mp hv with hv | ⟨-, rfl⟩
    · exact .inl hv
    · exact .inr hhandling.phase
  · rw [phase_decrement]
    split_ifs with hne
    · nofun
    · refine h.woken t ?_ hc
      -- where the counter is not the one that came to zero
      simp only [State.decrement, update_apply] at ht
      split_ifs at ht with he
      · exact absurd ⟨by omega, he⟩ hne
      · exact ht
  · simp only [State.decrement, update_apply]
    split_ifs with he
    · rw [← concat_eq_append]
      exact (h.edges _).1.concat hnew
    · exact (h.edges d).1
  · rcases mem_decs_decrement.mp hv with hv | ⟨rfl, rfl⟩
    · exact ⟨le_trans ((h.edges d).2 v hv).1 (hrank v), ((h.edges d).2 v hv).2⟩
    · refine ⟨le_trans ?_ (hrank v), hedge⟩
      rw [hhandling.phase]
      exact le_rfl
  · rw [phase_decrement] at ht
    split_ifs at ht with he
    · cases ht
      refine .inr ⟨rfl, hb, .dependent u (idx + 1), ?_⟩
      rw [if_pos he.1, he.2]
    · refine .inl ⟨?_, ht⟩
      rintro rfl
      obtain ⟨-, k, hk⟩ := h.pushers t b' ht
      rw [hpc] at hk
      cases hk
  · refine ((h.scanned b hb).move ?_).mono hrank
    rw [hpc]
    rfl
  · split
    · exact hnext
    · exact hnext

theorem Sound.countCompleted (h : Sound c s) (hinv : Inv c s) (hb : b < c.schedulers)
    (hpc : s.sched b = .completedCount u) : Sound c ((s.countCompleted u).setSched b .loop) := by
  have hph : s.phase u = .processing b := (hinv.schedAt hb hpc).phase
  have hm : Moved s (s.countCompleted u) u .completed := ⟨rfl, rfl, rfl, rfl, rfl, rfl, rfl⟩
  have hp : (s.phase u).rank ≤ Phase.completed.rank := by simp [hph]
  refine h.moved hinv hm (by simp [hpc]) hp (fun _ _ => id) nofun (by simp [hpc]) ?_ trivial
  refine ((h.scanned b hb).move ?_).mono (hm.rank hp)
  rw [hpc]
  rfl

/-- Block 0 reports a cycle and leaves. -/
theorem Sound.cycleError (h : Sound c s) (hb : b < c.schedulers)
    (hpc : s.sched b = .cycleError idx) :
    Sound c ((s.recordError 7 idx).setSched b .done) := by
  obtain rfl : b = 0 := h.placeAt hb hpc
  have herr : s.errorCount = 0 := h.error.resolve_right fun hd => by
    rw [hpc] at hd
    cases hd.1
  have hs : s.recordError 7 idx =
      { s with errorCount := 1, errorCode := 7, errorTaskId := idx } := if_pos herr
  rw [hs]
  have hdone : update s.sched 0 .done 0 = .done := update_self ..
  refine ⟨.inr ⟨hdone, rfl⟩, h.woken, h.edges, fun t b' hph => ?_, fun b' hb' => ?_,
    fun b' hb' => ?_, h.work⟩
  · show b' < _ ∧ ∃ k, update s.sched 0 .done b' = _
    obtain ⟨hb', k, hk⟩ := h.pushers t b' hph
    refine ⟨hb', k, (update_of_ne ?_ ..).trans hk⟩
    rintro rfl
    rw [hpc] at hk
    cases hk
  · show Scanned c s b' (update s.sched 0 .done b')
    rw [update_apply]
    split
    · rename_i he
      subst he
      refine (h.scanned 0 hb).move ?_
      rw [hpc]
      rfl
    · exact h.scanned b' hb'
  · have hl : Place c s b' (update s.sched 0 .done b') := by
      rw [update_apply]
      split
      · trivial
      · exact h.place b' hb'
    exact hl

/-! ## Steps -/

/-- A step of a scheduler block. -/
theorem Sound.schedStep (h : Sound c s) (hinv : Inv c s) (hfit : c.Fits) (hwf : c.WellFormed)
    (hb : b < c.schedulers) (hpc : s.sched b = pc) (hs : s.schedStep c b = some s') :
    Sound c s' := by
  have hs₀ := hs
  have hok := hinv.schedAt hb hpc
  have hplace := h.placeAt hb hpc
  -- most steps move a block that is through its scan, and touch nothing
  have hcount {pc' : SchedPc} {s₁ : State} (hlive : pc ≠ .done)
      (hpast : pc.cursor? = none) (hnot : ∀ t k, pc ≠ .push (.ticket t) k) (hstill : Still s s₁)
      (hp : Place c s₁ b pc') : Sound c (s₁.setSched b pc') := by
    refine h.still hinv hstill (by rw [hpc]; exact hlive) (by rw [hpc]; exact hnot) ?_ hp
    refine ((h.scanned b hb).move ?_).mono fun t => ?_
    · rw [hpc]
      exact hpast
    · rw [hstill.phase]
  have hmove {pc' : SchedPc} (hlive : pc ≠ .done) (hpast : pc.cursor? = none)
      (hnot : ∀ t k, pc ≠ .push (.ticket t) k) (hp : Place c s b pc') :
      Sound c (s.setSched b pc') :=
    hcount hlive hpast hnot (.refl s) hp
  have hafter : Place c s b (afterBarrier c b) := by
    unfold afterBarrier
    split
    · assumption
    · trivial
  rw [State.schedStep, hpc] at hs
  cases pc <;> dsimp only at hs
  case init idx => exact h.init hinv hfit hwf hb hpc hs₀
  case push pc k => exact h.push hinv hb hpc hs
  case pop late pc => exact h.pop hinv hb hpc hs
  case initError | tailError | rangeError | dependentError => exact hplace.elim
  case initCount | loopCount | processedCount | processedByBlock =>
    cases hs
    exact hcount (by simp) rfl (by simp) ⟨rfl, rfl, rfl, rfl, rfl, rfl, rfl, rfl⟩ trivial
  case barrier | barrierError =>
    split at hs <;> cases hs
    · exact hmove (by simp) rfl (by simp) trivial
    · exact hmove (by simp) rfl (by simp) hafter
  case checkTail =>
    obtain ⟨rfl, hn⟩ := hplace
    split at hs <;> cases hs
    · rename_i htail
      -- block 0 is here, so nobody has recorded an error
      have herr : s.errorCount = 0 := h.error.resolve_right fun hd => by
        rw [hpc] at hd
        cases hd.1
      exact absurd htail (h.tail_ne_zero hinv hwf hn (hok.resolve_right fun hne => hne herr))
    · exact hmove (by simp) rfl (by simp) trivial
  case loop => split at hs <;> cases hs <;> exact hmove (by simp) rfl (by simp) trivial
  case loopError =>
    split at hs <;> cases hs
    · exact hmove (by simp) rfl (by simp) ⟨by simp, trivial⟩
    · exact hmove (by simp) rfl (by simp) trivial
  case process u =>
    split at hs <;> cases hs
    · rename_i hrange
      exact absurd (hwf.ranges u (hinv.processing_lt hok.2)) (not_le.mpr hrange)
    · exact hmove (by simp) rfl (by simp) fun k _ _ => hplace _
  case dependent u idx =>
    have hu := hinv.processing_lt hok.phase
    split at hs
    · rename_i hidx
      obtain ⟨-, hd, hlists⟩ := hwf.edge hfit hu hidx
      rw [if_neg (not_le.mpr hd), if_neg, hwf.duplicate_eq hfit hu hidx] at hs
      · cases hs
        exact hmove (by simp) rfl (by simp) ⟨hidx, hplace⟩
      · -- a loop would be a cycle
        intro he
        rw [he] at hlists
        exact hwf.acyclic u (.single ⟨hu, hu, hlists⟩)
    · cases hs
      exact hmove (by simp) rfl (by simp) trivial
  case readFanin u idx =>
    obtain ⟨hidx, hfresh⟩ := hplace
    have hu := hinv.processing_lt hok.1.phase
    rw [if_neg] at hs
    · cases hs
      exact hmove (by simp) rfl (by simp) ⟨hidx, hfresh⟩
    · exact h.fanin_pos hinv hwf (hwf.edge hfit hu hidx) (hfresh idx le_rfl hidx)
  case casFanin u idx old =>
    split at hs <;> cases hs
    · exact h.decrement hinv hfit hwf hb hpc ‹_›
    · exact hmove (by simp) rfl (by simp) hplace
  case completedCount u =>
    cases hs
    exact h.countCompleted hinv hb hpc
  case published | finished | claimed =>
    cases hs
    exact hmove (by simp) rfl (by simp) hplace
  case completed second published finished claimed =>
    have hzero : b = 0 := hplace
    split at hs <;> cases hs
    · refine hmove (by simp) rfl (by simp) ?_
      split
      · exact hzero
      · exact ⟨fun _ => hzero, trivial⟩
    · exact hmove (by simp) rfl (by simp) trivial
  case scan idx =>
    split at hs
    · split at hs <;> cases hs <;> exact hmove (by simp) rfl (by simp) hplace
    · cases hs
      exact hmove (by simp) rfl (by simp) trivial
  case cycleError idx =>
    cases hs
    exact h.cycleError hb hpc
  case done => cases hs

/-- A worker block has made an operation on a task or the queues and moves on. -/
theorem Sound.ofWork {pc : WorkPc} {ready completion : TicketQueue Nat} {phase : Nat → Phase}
    {reported returned : List Nat} {log : List Event} (h : Sound c s) (hinv : Inv c s)
    (hreported : ∀ i t : Nat, s.reported[i]? = some t → reported[i]? = some t)
    (hrank : ∀ t, (s.phase t).rank ≤ (phase t).rank)
    (hpushing : ∀ t b, phase t = .pushing b → s.phase t = .pushing b) (hpc : ∀ t, pc ≠ .fail t) :
    Sound c ({ s with
      ready := ready, completion := completion, phase := phase, reported := reported
      returned := returned, log := log }.setWork w pc) where
  error := h.error
  woken := h.woken.mono rfl hrank
  edges := h.edges.mono rfl hrank
  pushers t b hph := h.pushers t b (hpushing t b hph)
  scanned b hb := (h.scanned b hb).mono hrank
  place b hb := (h.place b hb).later (hinv.sched b hb) hreported fun _ _ _ => id
  work v t := by
    show update s.work w pc v ≠ _
    rw [update_apply]
    split
    · exact hpc t
    · exact h.work v t

theorem Sound.workTurn {pc : WorkPc} (h : Sound c s) (hinv : Inv c s) (hpc : ∀ t, pc ≠ .fail t) :
    Sound c (s.setWork w pc) :=
  h.ofWork hinv (fun _ _ => id) (fun _ => le_rfl) (fun _ _ => id) hpc

theorem pushing_update (hp : ∀ b, p ≠ .pushing b) (x b : Nat)
    (hx : update s.phase t p x = .pushing b) : s.phase x = .pushing b := by
  rw [update_apply] at hx
  split at hx
  · exact absurd hx (hp b)
  · exact hx

/-- A step of a worker block. -/
theorem Sound.workStep {pc : WorkPc} (h : Sound c s) (hinv : Inv c s) (hwf : c.WellFormed)
    (hw : w < c.workerBlocks) (hpc : s.work w = pc) (hs : s.workStep c w = some s') :
    Sound c s' := by
  have hok := hinv.workAt hw hpc
  rw [State.workStep, hpc] at hs
  cases pc <;> dsimp only at hs
  case ticket =>
    split at hs <;> cases hs <;>
      exact h.ofWork hinv (fun _ _ => id) (fun _ => le_rfl) (fun _ _ => id) (by simp)
  case wait i | error i => split at hs <;> cases hs <;> exact h.workTurn hinv (by simp)
  case take i =>
    cases hs
    have hcell : s.pushed[i]? = some (s.ready.cells (i % c.queueCapacity)) := hok
    have hph := (hinv.tickets.held w hw i (by rw [hpc]; rfl)).2.2 _ hcell
    exact h.ofWork hinv (fun _ _ => id) (rank_update (by simp [hph]))
      (pushing_update (by simp)) (by simp)
  case run t =>
    have hph : s.phase t = .running w := hok
    have hknown := hwf.known t (hinv.ledger.zero t (by simp [hph])).1
    rw [if_pos hknown] at hs
    cases hs
    exact h.ofWork hinv (fun _ _ => id) (rank_update (by simp [hph]))
      (pushing_update (by simp)) (by simp)
  case fail t => exact absurd hpc (h.work w t)
  case report pc =>
    cases pc with
    | ticket t =>
      cases hs
      have hph : s.phase t = .reporting w := hok
      exact h.ofWork hinv (fun _ _ => getElem?_concat_of_some)
        (rank_update (by simp [hph])) (pushing_update (by simp)) (by simp)
    | wait t i =>
      obtain ⟨-, heq⟩ := ite_none_right_eq_some.mp hs
      cases heq
      exact h.workTurn hinv (by simp)
    | publish t i =>
      cases hs
      exact h.ofWork hinv (fun _ _ => id) (fun _ => le_rfl) (fun _ _ => id) (by simp)
  case done => cases hs

/-! ## Runs -/

theorem Sound.launch (c : Dag) : Sound c (State.init c) where
  error := .inl rfl
  woken _ hzero hne := absurd hzero hne
  edges _ := ⟨nodup_nil, nofun⟩
  pushers := nofun
  scanned b _ t _ hmod _ hpast := by
    -- a block starts at its own number
    have hlt : t < b := hpast b rfl
    have := Nat.mod_le t c.schedulers
    omega
  place _ _ := trivial
  work := nofun

theorem Sound.step {a : Act} (h : Sound c s) (hinv : Inv c s) (hfit : c.Fits) (hwf : c.WellFormed)
    (hs : s.step c a = some s') : Sound c s' := by
  cases a with
  | sched b =>
    obtain ⟨hb, hs⟩ := ite_none_right_eq_some.mp hs
    exact h.schedStep hinv hfit hwf hb rfl hs
  | work w =>
    obtain ⟨hw, hs⟩ := ite_none_right_eq_some.mp hs
    exact h.workStep hinv hwf hw rfl hs

/-- Every run on a graph is sound. -/
theorem Sound.reach {ok : State → Act → Prop} (hfit : c.Fits) (hwf : c.WellFormed)
    (hr : Reach (State.step c) ok (State.init c) s) : Sound c s :=
  hr.invariant (Sound.launch c) fun _ _ _ hr h _ hs => h.step (.reach hfit hr) hfit hwf hs

end PtoRuntime.Cuda
