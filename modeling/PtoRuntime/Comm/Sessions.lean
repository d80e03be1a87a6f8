import PtoRuntime.Lib.Reach
import PtoRuntime.Lib.Roster

/-!
# Simulated communicator — sessions under one segment name

Ranks that go through `comm_alloc_windows` and `comm_destroy` again and again with the same segment
name. Whoever finds the name free creates a segment; the others open it, wait until it has its size
and its header, and all wait for each other. On the way out every rank counts itself in
`destroy_count`; the last one unlinks the name, the others wait for the count only.

A waiting rank is therefore released before the name is unlinked. If it comes back at once it finds
the old name, and the old header passes all its tests. The condition under which sessions do not mix
is that nobody starts a round while the name stands for a segment that all ranks have left.

Failures of `ftruncate` and `mmap` and timeouts are left out.

Main results: `Sessions.Ok.reach`, `sessions_do_not_mix`, `sessions_mix`.
-/

namespace PtoRuntime.Comm

open Lib Function List Option

/-- A shared memory object: its size and the header fields that sessions depend on. -/
structure Segment where
  /-- `ftruncate` is done -/
  sized : Bool
  allocDone : Bool
  readyCount : Nat
  destroyCount : Nat
  /-- history: the round of the rank that has created it -/
  round : Nat
  deriving DecidableEq, Repr

/-- Inside `comm_alloc_windows` or `comm_destroy`; `seg` is the object behind the descriptor or the
mapping. -/
inductive SessionPc
  /-- before `shm_open(O_CREAT | O_EXCL)` of the next round -/
  | idle
  /-- creator: `ftruncate`, then `mmap` -/
  | truncate (seg : Nat)
  /-- creator: the plain stores and `nranks` -/
  | header (seg : Nat)
  /-- creator: `alloc_done = 1` -/
  | publish (seg : Nat)
  /-- after `EEXIST`: `shm_open(O_RDWR)` -/
  | openExisting
  /-- polls the size, then `mmap` -/
  | waitSize (seg : Nat)
  | waitAlloc (seg : Nat)
  | addReady (seg : Nat)
  | waitReady (seg : Nat)
  /-- in the session; `comm_destroy` counts the rank -/
  | addDestroy (seg : Nat)
  | unlink
  | waitDestroy (seg : Nat)
  deriving DecidableEq, Repr

structure Sessions where
  /-- what the name is bound to -/
  name : Option Nat
  segs : Nat → Segment
  /-- number of segments created -/
  created : Nat
  pc : Nat → SessionPc
  /-- history: rounds that the rank has started -/
  round : Nat → Nat
  /-- history: rank, round and segment of every `mmap` -/
  mapped : List (Nat × Nat × Nat)
  /-- history: round of the rank and of the segment at every `shm_unlink` -/
  unlinked : List (Nat × Nat)
  /-- history: calls of `comm_alloc_windows` that found the name gone -/
  failed : Nat
  /-- history: ranks that the youngest segment's `destroy_count` has counted -/
  left : List Nat

namespace Sessions

def init : Sessions where
  name := none
  segs := fun _ => ⟨false, false, 0, 0, 0⟩
  created := 0
  pc := fun _ => .idle
  round := fun _ => 0
  mapped := []
  unlinked := []
  failed := 0
  left := []

def setPc (s : Sessions) (r : Nat) (pc : SessionPc) : Sessions :=
  { s with pc := update s.pc r pc }

def setSeg (s : Sessions) (g : Nat) (v : Segment) : Sessions :=
  { s with segs := update s.segs g v }

def map (s : Sessions) (r g : Nat) : Sessions :=
  { s with mapped := s.mapped ++ [(r, s.round r, g)] }

/-- `shm_open(O_CREAT | O_EXCL)` finds the name free. -/
def create (s : Sessions) (r : Nat) : Sessions :=
  { s with
    name := some s.created
    segs := update s.segs s.created ⟨false, false, 0, 0, s.round r + 1⟩
    created := s.created + 1
    pc := update s.pc r (.truncate s.created)
    round := update s.round r (s.round r + 1)
    left := [] }

/-- The next step of rank `r` out of `nranks`; from `idle` it starts its next round. -/
def step (nranks : Nat) (s : Sessions) (r : Nat) : Option Sessions :=
  if r < nranks then
    match s.pc r with
    | .idle =>
      match s.name with
      | none => some (s.create r)
      | some _ =>
        some { s.setPc r .openExisting with round := update s.round r (s.round r + 1) }
    | .truncate g =>
      some (((s.setSeg g { s.segs g with sized := true }).map r g).setPc r (.header g))
    | .header g =>
      some ((s.setSeg g { s.segs g with readyCount := 0, destroyCount := 0 }).setPc r (.publish g))
    | .publish g => some ((s.setSeg g { s.segs g with allocDone := true }).setPc r (.addReady g))
    | .openExisting =>
      match s.name with
      | none => some { s.setPc r .idle with failed := s.failed + 1 }
      | some g => some (s.setPc r (.waitSize g))
    | .waitSize g =>
      if (s.segs g).sized then some ((s.map r g).setPc r (.waitAlloc g)) else none
    | .waitAlloc g => if (s.segs g).allocDone then some (s.setPc r (.addReady g)) else none
    | .addReady g =>
      some ((s.setSeg g { s.segs g with readyCount := (s.segs g).readyCount + 1 }).setPc r
        (.waitReady g))
    | .waitReady g =>
      if nranks ≤ (s.segs g).readyCount then some (s.setPc r (.addDestroy g)) else none
    | .addDestroy g =>
      some { (s.setSeg g { s.segs g with destroyCount := (s.segs g).destroyCount + 1 }).setPc r
          (if nranks ≤ (s.segs g).destroyCount + 1 then .unlink else .waitDestroy g) with
        left := s.left ++ [r] }
    | .unlink =>
      some { s.setPc r .idle with
        name := none
        unlinked := s.unlinked ++ (s.name.map fun g => (s.round r, (s.segs g).round)).toList }
    | .waitDestroy g =>
      if nranks ≤ (s.segs g).destroyCount then some (s.setPc r .idle) else none
  else none

end Sessions

/-- A rank starts its next round only when the name does not stand for a segment that all ranks
have left. -/
def NameFresh (nranks : Nat) (s : Sessions) (r : Nat) : Prop :=
  s.pc r = .idle → ∀ g, s.name = some g → (s.segs g).destroyCount < nranks

instance (nranks : Nat) : DecidableRel (NameFresh nranks) := fun s r =>
  match h : s.name with
  | none => .isTrue fun _ g hg => by rw [h] at hg; cases hg
  | some g => decidable_of_iff (s.pc r = .idle → (s.segs g).destroyCount < nranks)
      ⟨fun hlt hpc g' hg => by rw [h] at hg; cases hg; exact hlt hpc, fun hall hpc => hall hpc g h⟩

/-! ## Invariant -/

variable {n r r' g : Nat} {s s' : Sessions}
variable {pc : SessionPc}

/-- The youngest segment's header is set up. -/
def Open (s : Sessions) : Prop := ∀ g, g + 1 = s.created → (s.segs g).allocDone = true

/-- The rank is in the current round, in the youngest segment. -/
def Current (s : Sessions) (r g : Nat) : Prop := s.round r = s.created ∧ g + 1 = s.created

/-- What is true of a rank, by the place where it is. -/
def SessionOk (n : Nat) (s : Sessions) (r : Nat) : SessionPc → Prop
  | .idle =>
    -- it has left the current round with all others, or has not started it
    s.round r = s.created ∧ (0 < s.created → s.left.length = n ∧ Open s) ∨ s.round r + 1 = s.created
  | .truncate g | .header g | .publish g => Current s r g ∧ (s.segs g).allocDone = false
  | .openExisting => s.round r = s.created ∧ s.name ≠ none
  | .waitSize g | .waitAlloc g => Current s r g
  | .addReady g | .waitReady g | .addDestroy g => Current s r g ∧ Open s
  | .unlink => s.round r = s.created ∧ s.name ≠ none ∧ s.left.length = n ∧ Open s
  | .waitDestroy g => Current s r g ∧ Open s ∨
      -- the others may be in the next round already
      s.round r + 1 = s.created ∧ g + 2 = s.created ∧ n ≤ (s.segs g).destroyCount

/-- The rank is counted in `destroy_count`, if it is in the current round. -/
def SessionPc.gone : SessionPc → Bool
  | .idle | .unlink | .waitDestroy _ => true
  | _ => false

/-- The rank is setting up the segment that it has created. -/
def SessionPc.creator : SessionPc → Bool
  | .truncate _ | .header _ | .publish _ => true
  | _ => false

structure Sessions.Ok (n : Nat) (s : Sessions) : Prop where
  rank : ∀ r < n, SessionOk n s r (s.pc r)
  rounds : ∀ g < s.created, (s.segs g).round = g + 1
  name : ∀ g, s.name = some g → g + 1 = s.created
  free : s.name = none → 0 < s.created → s.left.length = n
  left : 0 < s.created →
    Roster (fun r => r < n ∧ s.round r = s.created ∧ (s.pc r).gone = true) s.left
  count : ∀ g, g + 1 = s.created → (s.segs g).destroyCount = s.left.length
  last : ∀ r < n, ∀ r' < n, s.pc r = .unlink → s.pc r' = .unlink → r = r'
  creator : ∀ r < n, ∀ r' < n, (s.pc r).creator = true → (s.pc r').creator = true → r = r'
  mapped : ∀ x ∈ s.mapped, x.2.2 + 1 = x.2.1 ∧ x.2.2 < s.created
  unlinked : ∀ x ∈ s.unlinked, x.2 = x.1
  failed : s.failed = 0

theorem Sessions.Ok.init (n : Nat) : Sessions.Ok n .init where
  rank _ _ := .inl ⟨rfl, fun h => absurd h (lt_irrefl 0)⟩
  rounds _ h := absurd h (Nat.not_lt_zero _)
  name := nofun
  free _ h := absurd h (lt_irrefl 0)
  left h := absurd h (lt_irrefl 0)
  count := nofun
  last := nofun
  creator := nofun
  mapped := nofun
  unlinked := nofun
  failed := rfl

/-- When all have left, all have left the current round. -/
theorem Sessions.Ok.all_left (h : Sessions.Ok n s) (hpos : 0 < s.created)
    (hfull : s.left.length = n) : ∀ r < n, s.round r = s.created ∧ (s.pc r).gone = true := by
  intro r hr
  refine ((h.left hpos).subset_of_length_le (range n) (fun x hx => ?_) ?_ r
    (mem_range.mpr hr)).2
  · exact mem_range.mpr hx.1
  · rw [length_range, hfull]

/-- Whoever has not left keeps the count below the number of ranks. -/
theorem Sessions.Ok.length_lt (h : Sessions.Ok n s) (hpos : 0 < s.created) (hr : r < n)
    (hnot : s.round r = s.created → (s.pc r).gone = false) : s.left.length < n := by
  refine (h.left hpos).length_lt (fun x hx => hx.1) hr ?_
  rintro ⟨-, hround, hgone⟩
  rw [hnot hround] at hgone
  cases hgone

/-- While the creator is at work nobody has left. -/
theorem Sessions.Ok.left_nil (h : Sessions.Ok n s) (hg : g + 1 = s.created)
    (hclosed : (s.segs g).allocDone = false) : s.left = [] := by
  refine eq_nil_iff_forall_not_mem.mpr fun x hx => ?_
  obtain ⟨hxn, hround, hgone⟩ := ((h.left (by omega)).mem_iff x).mp hx
  have hopen : Open s := by
    have hok := h.rank x hxn
    generalize s.pc x = pc at hok hgone
    cases pc with
    | idle =>
      rcases hok with ⟨-, hleft⟩ | hold
      · exact (hleft (by omega)).2
      · omega
    | unlink => exact hok.2.2.2
    | waitDestroy g' =>
      rcases hok with ⟨-, hopen⟩ | ⟨hold, -⟩
      · exact hopen
      · omega
    | _ => cases hgone
  rw [hopen g hg] at hclosed
  cases hclosed

/-! ## Steps inside a session -/

/-- A rank that does not move keeps what is true of it. -/
theorem SessionOk.later (h : SessionOk n s r pc) (hround : s'.round r = s.round r)
    (hcreated : s'.created = s.created) (hname : s'.name = s.name) (hleft : s'.left = s.left)
    (hopen : Open s → Open s') (hclosed : pc.creator = true → ∀ g, (s.segs g).allocDone = false →
      (s'.segs g).allocDone = false)
    (hdestroy : ∀ g, g + 2 = s.created → (s'.segs g).destroyCount = (s.segs g).destroyCount) :
    SessionOk n s' r pc := by
  cases pc with
  | idle =>
    simp only [SessionOk, hround, hcreated, hleft] at h ⊢
    exact h.imp_left fun ⟨hr, hrest⟩ => ⟨hr, fun hpos => ⟨(hrest hpos).1, hopen (hrest hpos).2⟩⟩
  | truncate g | header g | publish g =>
    simp only [SessionOk, Current, hround, hcreated] at h ⊢
    exact ⟨h.1, hclosed rfl g h.2⟩
  | openExisting =>
    simp only [SessionOk, hround, hcreated, hname] at h ⊢
    exact h
  | waitSize g | waitAlloc g =>
    simp only [SessionOk, Current, hround, hcreated] at h ⊢
    exact h
  | addReady g | waitReady g | addDestroy g =>
    simp only [SessionOk, Current, hround, hcreated] at h ⊢
    exact ⟨h.1, hopen h.2⟩
  | unlink =>
    simp only [SessionOk, hround, hcreated, hname, hleft] at h ⊢
    exact ⟨h.1, h.2.1, h.2.2.1, hopen h.2.2.2⟩
  | waitDestroy g =>
    simp only [SessionOk, Current, hround, hcreated] at h ⊢
    refine h.imp (fun ⟨hcur, ho⟩ => ⟨hcur, hopen ho⟩) fun ⟨hr, hg, hn⟩ => ⟨hr, hg, ?_⟩
    rw [hdestroy g hg]
    exact hn

/-- Who sets up a segment after rank `r` has moved did so before. -/
theorem creator_of_update {z : Nat} (hpc : pc.creator = true → (s.pc r).creator = true)
    (hz : (update s.pc r pc z).creator = true) : (s.pc z).creator = true := by
  rw [update_apply] at hz
  split_ifs at hz with hzr
  · rw [hzr]
    exact hpc hz
  · exact hz

/-- Rank `r` moves on; it may write to the header of the youngest segment. -/
theorem Sessions.Ok.turn (h : Sessions.Ok n s) (hpc' : s'.pc = update s.pc r pc)
    (hround : ∀ x, x ≠ r → s'.round x = s.round x) (hcreated : s'.created = s.created)
    (hname : s'.name = s.name) (hleft : s'.left = s.left) (hunlinked : s'.unlinked = s.unlinked)
    (hfailed : s'.failed = s.failed)
    (hmapped : ∀ x ∈ s'.mapped, x ∈ s.mapped ∨ x.2.2 + 1 = x.2.1 ∧ x.2.2 < s.created)
    (hrounds : ∀ g, (s'.segs g).round = (s.segs g).round)
    (hdestroy : ∀ g, (s'.segs g).destroyCount = (s.segs g).destroyCount) (hopen : Open s → Open s')
    (hclosed : ∀ x < n, x ≠ r → (s.pc x).creator = true → ∀ g, (s.segs g).allocDone = false →
      (s'.segs g).allocDone = false) (hgone : s'.round r = s.created ∧ pc.gone = true ↔
      s.round r = s.created ∧ (s.pc r).gone = true) (hunlink : pc ≠ .unlink)
    (hcreator : pc.creator = true → (s.pc r).creator = true) (hok : SessionOk n s' r pc) :
    Sessions.Ok n s' where
  rank x hx := by
    rw [hpc', update_apply]
    split
    · rename_i hxr
      rw [hxr]
      exact hok
    · rename_i hne
      exact (h.rank x hx).later (hround x hne) hcreated hname hleft hopen (hclosed x hx hne)
        fun g _ => hdestroy g
  rounds g hg := by
    rw [hcreated] at hg
    rw [hrounds]
    exact h.rounds g hg
  name := by rw [hname, hcreated]; exact h.name
  free := by rw [hname, hcreated, hleft]; exact h.free
  left hpos := by
    rw [hcreated] at hpos
    rw [hleft]
    refine (h.left hpos).congr fun x => and_congr_right fun _ => ?_
    rw [hpc', hcreated, update_apply]
    split
    · rename_i hxr
      rw [hxr]
      exact hgone
    · rename_i hne
      rw [hround x hne]
  count g hg := by
    rw [hcreated] at hg
    rw [hdestroy, hleft]
    exact h.count g hg
  last x hx y hy hux huy := by
    rw [hpc', update_apply] at hux huy
    split at hux
    · exact absurd hux hunlink
    · split at huy
      · exact absurd huy hunlink
      · exact h.last x hx y hy hux huy
  creator x hx y hy hcx hcy := by
    rw [hpc'] at hcx hcy
    exact h.creator x hx y hy (creator_of_update hcreator hcx) (creator_of_update hcreator hcy)
  mapped x hx := by
    rw [hcreated]
    exact (hmapped x hx).elim (h.mapped x) id
  unlinked := by rw [hunlinked]; exact h.unlinked
  failed := hfailed.trans h.failed

/-- Rank `r` only moves on. -/
theorem Sessions.Ok.move (h : Sessions.Ok n s)
    (hgone : s.round r = s.created ∧ pc.gone = true ↔ s.round r = s.created ∧ (s.pc r).gone = true)
    (hunlink : pc ≠ .unlink) (hcreator : pc.creator = true → (s.pc r).creator = true)
    (hok : SessionOk n s r pc) : Sessions.Ok n (s.setPc r pc) := by
  refine h.turn rfl (fun _ _ => rfl) rfl rfl rfl rfl rfl (fun _ => .inl) (fun _ => rfl)
    (fun _ => rfl) id (fun _ _ _ _ _ => id) hgone hunlink hcreator ?_
  exact hok.later rfl rfl rfl rfl id (fun _ _ => id) fun _ _ => rfl

theorem gone_iff {pc' : SessionPc} (hpc : s.pc r = pc) (h : pc.gone = false)
    (h' : pc'.gone = false) :
    s.round r = s.created ∧ pc'.gone = true ↔ s.round r = s.created ∧ (s.pc r).gone = true := by
  rw [hpc, h, h']

/-- A header field that a write leaves as it was. -/
theorem seg_update {α : Type} (f : Segment → α) {v : Segment} (hv : f v = f (s.segs g)) (x : Nat) :
    f (update s.segs g v x) = f (s.segs x) := by
  rw [update_apply]
  split_ifs with hxg
  · rw [hxg]
    exact hv
  · rfl

/-- Rank `r` writes to the header of its segment, but neither `alloc_done` nor the number of ranks
that have left. -/
theorem Sessions.Ok.write {v : Segment} {m : List (Nat × Nat × Nat)} (h : Sessions.Ok n s)
    (hm : ∀ x ∈ m, x ∈ s.mapped ∨ x.2.2 + 1 = x.2.1 ∧ x.2.2 < s.created)
    (hround : v.round = (s.segs g).round) (hdestroy : v.destroyCount = (s.segs g).destroyCount)
    (hdone : v.allocDone = (s.segs g).allocDone) (hold : (s.pc r).gone = false)
    (hgone : pc.gone = false) (hcreator : pc.creator = true → (s.pc r).creator = true)
    (hok : SessionOk n s r pc) :
    Sessions.Ok n ({ s with segs := update s.segs g v, mapped := m }.setPc r pc) := by
  have hdone' := seg_update (s := s) Segment.allocDone hdone
  have hdestroy' := seg_update (s := s) Segment.destroyCount hdestroy
  have hopen (ho : Open s) :
      Open ({ s with segs := update s.segs g v, mapped := m }.setPc r pc) :=
    fun x hx => (hdone' x).trans (ho x hx)
  have hclosed (x : Nat) (hx : (s.segs x).allocDone = false) :
      (update s.segs g v x).allocDone = false := (hdone' x).trans hx
  refine h.turn rfl (fun _ _ => rfl) rfl rfl rfl rfl rfl hm
    (seg_update (s := s) Segment.round hround)
    hdestroy' hopen (fun _ _ _ _ => hclosed) ?_ ?_ hcreator ?_
  · rw [hold, hgone]
    exact .rfl
  · rintro rfl
    cases hgone
  · exact hok.later rfl rfl rfl rfl hopen (fun _ => hclosed) fun x _ => hdestroy' x

/-- The creator opens its segment. -/
theorem Sessions.Ok.publish (h : Sessions.Ok n s) (hr : r < n) (hpc : s.pc r = .publish g) :
    Sessions.Ok n ((s.setSeg g { s.segs g with allocDone := true }).setPc r (.addReady g)) := by
  have hok := h.rank r hr
  rw [hpc] at hok
  obtain ⟨hcur, hclosed⟩ := hok
  have hopen : Open ((s.setSeg g { s.segs g with allocDone := true }).setPc r (.addReady g)) := by
    intro x hx
    have hxg : x = g := by
      have hx' : x + 1 = s.created := hx
      have := hcur.2
      omega
    show (update s.segs g _ x).allocDone = true
    rw [hxg, update_self]
  refine h.turn rfl (fun _ _ => rfl) rfl rfl rfl rfl rfl (fun _ => .inl)
    (seg_update (s := s) Segment.round rfl) (seg_update (s := s) Segment.destroyCount rfl)
    (fun _ => hopen) (fun x hx hne hc => ?_) (gone_iff hpc rfl rfl) nofun nofun ⟨hcur, hopen⟩
  -- nobody else is setting it up
  exact absurd (h.creator x hx r hr hc (by rw [hpc]; rfl)) hne

/-! ## Leaving -/

theorem Sessions.Ok.addDestroy (h : Sessions.Ok n s) (hr : r < n) (hpc : s.pc r = .addDestroy g) :
    Sessions.Ok n { (s.setSeg g { s.segs g with
        destroyCount := (s.segs g).destroyCount + 1 }).setPc r
          (if n ≤ (s.segs g).destroyCount + 1 then .unlink else .waitDestroy g) with
      left := s.left ++ [r] } := by
  have hok := h.rank r hr
  rw [hpc] at hok
  obtain ⟨⟨hround, hg⟩, hopen⟩ := hok
  have hlt := h.length_lt (r := r) (by omega) hr fun _ => by rw [hpc]; rfl
  have hcount := h.count g hg
  have hlen : (s.left ++ [r]).length = (s.segs g).destroyCount + 1 := by
    rw [length_append, hcount]
    rfl
  have hdone := seg_update (s := s) (g := g) Segment.allocDone
    (v := { s.segs g with destroyCount := (s.segs g).destroyCount + 1 }) rfl
  have hrounds := seg_update (s := s) (g := g) Segment.round
    (v := { s.segs g with destroyCount := (s.segs g).destroyCount + 1 }) rfl
  -- before this step the count was not complete, so nobody is unlinking or through
  have hnone (x : Nat) (hx : x < n) : s.pc x ≠ .unlink := by
    intro hu
    have hok := h.rank x hx
    rw [hu] at hok
    exact absurd hok.2.2.1 (by omega)
  have hother (x : Nat) (hne : x ≠ r) (pc : SessionPc) : update s.pc r pc x = s.pc x :=
    update_of_ne hne ..
  refine ⟨fun x hx => ?_, fun x hx => ?_, h.name, fun hname hpos => ?_, fun hpos => ?_,
    fun x hx => ?_, fun x hx y hy hux huy => ?_, fun x hx y hy hcx hcy => ?_, h.mapped, h.unlinked,
    h.failed⟩
  · show SessionOk n _ x (update s.pc r _ x)
    by_cases hxr : x = r
    · rw [hxr, update_self]
      split_ifs with hfull
      · refine ⟨hround, fun hname => ?_, ?_, fun y hy => (hdone y).trans (hopen y hy)⟩
        · have := h.free hname (by omega)
          omega
        · show (s.left ++ [r]).length = n
          omega
      · exact .inl ⟨⟨hround, hg⟩, fun y hy => (hdone y).trans (hopen y hy)⟩
    · rw [hother x hxr]
      have hokx := h.rank x hx
      generalize hxpc : s.pc x = pc at hokx
      cases pc with
      | idle =>
        rcases hokx with ⟨-, hfull⟩ | hold
        · have := (hfull (by omega)).1
          omega
        · exact .inr hold
      | unlink => exact absurd hxpc (hnone x hx)
      | waitDestroy g' =>
        refine hokx.imp (fun ⟨hcur, ho⟩ => ⟨hcur, fun y hy => (hdone y).trans (ho y hy)⟩)
          fun ⟨hr', hg', hn⟩ => ⟨hr', hg', ?_⟩
        show n ≤ (update s.segs g _ g').destroyCount
        rw [update_of_ne (by omega)]
        exact hn
      | truncate g' | header g' | publish g' => exact ⟨hokx.1, (hdone g').trans hokx.2⟩
      | openExisting | waitSize | waitAlloc => exact hokx
      | addReady | waitReady | addDestroy =>
        exact ⟨hokx.1, fun y hy => (hdone y).trans (hokx.2 y hy)⟩
  · exact (hrounds x).trans (h.rounds x hx)
  · have := h.free hname hpos
    omega
  · refine (h.left hpos).concat (fun hx => ?_) fun x => ?_
    · rw [hpc] at hx
      cases hx.2.2
    · show x < n ∧ s.round x = s.created ∧ (update s.pc r _ x).gone = true ↔ _
      by_cases hxr : x = r
      · subst hxr
        rw [update_self]
        refine iff_of_true ⟨hr, hround, ?_⟩ (.inr rfl)
        split <;> rfl
      · rw [hother x hxr]
        exact ⟨.inl, fun hx => hx.resolve_right hxr⟩
  · have hxg : x = g := by
      have hx' : x + 1 = s.created := hx
      omega
    show (update s.segs g _ x).destroyCount = (s.left ++ [r]).length
    rw [hxg, update_self, hlen]
  · have hself (z : Nat) (hz : z < n) (hu : update s.pc r
        (if n ≤ (s.segs g).destroyCount + 1 then .unlink else .waitDestroy g) z = .unlink) :
    z = r := by
      by_contra hne
      rw [hother z hne] at hu
      exact hnone z hz hu
    exact (hself x hx hux).trans (hself y hy huy).symm
  · have hpc' : (if n ≤ (s.segs g).destroyCount + 1 then .unlink else .waitDestroy g :
        SessionPc).creator = true → (s.pc r).creator = true := by
      split <;> nofun
    exact h.creator x hx y hy (creator_of_update hpc' hcx) (creator_of_update hpc' hcy)

/-- The last rank unlinks the name: it stands for the segment that all have just left. -/
theorem Sessions.Ok.unlink (h : Sessions.Ok n s) (hr : r < n) (hpc : s.pc r = .unlink) :
    Sessions.Ok n { s.setPc r .idle with
      name := none
      unlinked := s.unlinked ++ (s.name.map fun g => (s.round r, (s.segs g).round)).toList } := by
  have hok := h.rank r hr
  rw [hpc] at hok
  obtain ⟨hround, hname, hfull, hopen⟩ := hok
  obtain ⟨g, hg⟩ := ne_none_iff_exists'.mp hname
  have hcur := h.name g hg
  have hall := h.all_left (by omega) hfull
  refine ⟨fun x hx => ?_, h.rounds, nofun, fun _ _ => hfull, fun hpos => ?_, h.count,
    fun x hx y hy hux huy => ?_, fun x hx y hy hcx hcy => ?_, h.mapped, fun x hx => ?_, h.failed⟩
  · show SessionOk n _ x (update s.pc r .idle x)
    by_cases hxr : x = r
    · rw [hxr, update_self]
      exact .inl ⟨hround, fun _ => ⟨hfull, hopen⟩⟩
    · rw [update_of_ne hxr]
      have hokx := h.rank x hx
      have hgone := (hall x hx).2
      generalize hxpc : s.pc x = pc at hokx hgone
      cases pc with
      | idle | waitDestroy => exact hokx
      | unlink => exact absurd (h.last x hx r hr hxpc hpc) hxr
      | _ => cases hgone
  · refine (h.left hpos).congr fun x => and_congr_right fun _ => and_congr_right fun _ => ?_
    show (update s.pc r .idle x).gone = true ↔ _
    rw [update_apply]
    split_ifs with hxr
    · rw [hxr, hpc]
      exact .rfl
    · exact .rfl
  · have hnot (z : Nat) (hz : z < n) (hu : update s.pc r .idle z = .unlink) : False := by
      by_cases hzr : z = r
      · rw [hzr, update_self] at hu
        cases hu
      · rw [update_of_ne hzr] at hu
        exact hzr (h.last z hz r hr hu hpc)
    exact (hnot x hx hux).elim
  · have hidle : SessionPc.idle.creator = true → (s.pc r).creator = true := nofun
    exact h.creator x hx y hy (creator_of_update hidle hcx) (creator_of_update hidle hcy)
  · rw [hg] at hx
    rcases mem_append.mp hx with hx | hx
    · exact h.unlinked x hx
    · cases mem_singleton.mp hx
      show (s.segs g).round = s.round r
      rw [h.rounds g (by omega), hround, hcur]

/-! ## Starting a round -/

/-- The name is free: all ranks have left the last round, and the next one begins. -/
theorem Sessions.Ok.create (h : Sessions.Ok n s) (hr : r < n)
    (hname : s.name = none) : Sessions.Ok n (s.create r) := by
  -- everybody is through with the segments there are
  have hleft (x : Nat) (hx : x < n) : s.round x = s.created ∧
      (s.pc x = .idle ∨ ∃ g, s.pc x = .waitDestroy g ∧ g + 1 = s.created ∧
        n ≤ (s.segs g).destroyCount) := by
    have hokx := h.rank x hx
    rcases Nat.eq_zero_or_pos s.created with hzero | hpos
    · generalize s.pc x = pc at hokx
      cases pc with
      | idle =>
        rcases hokx with ⟨hround, -⟩ | hround
        · exact ⟨hround, .inl rfl⟩
        · omega
      | waitSize | waitAlloc =>
        have := hokx.2
        omega
      | openExisting => exact absurd hname hokx.2
      | unlink => exact absurd hname hokx.2.1
      | waitDestroy g =>
        rcases hokx with ⟨hcur, -⟩ | ⟨-, hg, -⟩
        · have := hcur.2
          omega
        · omega
      | _ =>
        have := hokx.1.2
        omega
    · have hfull := h.free hname hpos
      obtain ⟨hround, hgone⟩ := h.all_left hpos hfull x hx
      refine ⟨hround, ?_⟩
      generalize s.pc x = pc at hokx hgone
      cases pc with
      | idle => exact .inl rfl
      | unlink => exact absurd hname hokx.2.1
      | waitDestroy g =>
        rcases hokx with ⟨hcur, -⟩ | ⟨hold, -, -⟩
        · refine .inr ⟨g, rfl, hcur.2, ?_⟩
          rw [h.count g hcur.2, hfull]
        · omega
      | _ => cases hgone
  have hround := (hleft r hr).1
  have hother (x : Nat) (hne : x ≠ r) (pc : SessionPc) : update s.pc r pc x = s.pc x :=
    update_of_ne hne ..
  refine ⟨fun x hx => ?_, fun x hx => ?_, fun x hx => ?_, nofun, fun _ => ⟨nodup_nil, fun x =>
    ⟨nofun, fun hx => ?_⟩⟩, fun x hx => ?_, fun x hx y hy hux huy => ?_,
      fun x hx y hy hcx hcy => ?_,
    fun x hx => ⟨(h.mapped x hx).1, Nat.lt_succ_of_lt (h.mapped x hx).2⟩, h.unlinked, h.failed⟩
  · show SessionOk n _ x (update s.pc r _ x)
    by_cases hxr : x = r
    · rw [hxr, update_self]
      refine ⟨⟨?_, rfl⟩, ?_⟩
      · show update s.round r (s.round r + 1) r = s.created + 1
        rw [update_self, hround]
      · show (update s.segs s.created _ s.created).allocDone = false
        rw [update_self]
    · rw [hother x hxr]
      obtain ⟨hxround, hxpc⟩ := hleft x hx
      have hround' : (s.create r).round x = s.round x := update_of_ne hxr ..
      rcases hxpc with hxpc | ⟨g, hxpc, hg, hfull⟩
      · rw [hxpc]
        refine .inr ?_
        rw [hround', hxround]
        rfl
      · rw [hxpc]
        refine .inr ⟨?_, ?_, ?_⟩
        · rw [hround', hxround]
          rfl
        · show g + 2 = s.created + 1
          omega
        · show n ≤ (update s.segs s.created _ g).destroyCount
          rw [update_of_ne (by omega)]
          exact hfull
  · show (update s.segs s.created _ x).round = x + 1
    rw [update_apply]
    split
    · rename_i hxc
      show s.round r + 1 = x + 1
      rw [hround, hxc]
    · rename_i hne
      have hx' : x < s.created + 1 := hx
      exact h.rounds x (by omega)
  · cases hx
    rfl
  · -- in the new round only the creator has started
    obtain ⟨hxn, hxround, hxgone⟩ := hx
    replace hxround : update s.round r (s.round r + 1) x = s.created + 1 := hxround
    replace hxgone : (update s.pc r (.truncate s.created) x).gone = true := hxgone
    by_cases hxr : x = r
    · rw [hxr, update_self] at hxgone
      cases hxgone
    · rw [update_of_ne hxr, (hleft x hxn).1] at hxround
      omega
  · have hxc : x = s.created := Nat.succ.inj hx
    show (update s.segs s.created _ x).destroyCount = 0
    rw [hxc, update_self]
  · have hnot (z : Nat) (hz : z < n)
        (hu : update s.pc r (.truncate s.created) z = .unlink) : False := by
      by_cases hzr : z = r
      · rw [hzr, update_self] at hu
        cases hu
      · rw [hother z hzr] at hu
        rcases (hleft z hz).2 with hi | ⟨g, hg, -⟩
        · rw [hi] at hu
          cases hu
        · rw [hg] at hu
          cases hu
    exact (hnot x hx hux).elim
  · have hself (z : Nat) (hz : z < n)
        (hc : (update s.pc r (.truncate s.created) z).creator = true) : z = r := by
      by_contra hne
      rw [hother z hne] at hc
      rcases (hleft z hz).2 with hi | ⟨g, hg, -⟩
      · rw [hi] at hc
        cases hc
      · rw [hg] at hc
        cases hc
    exact (hself x hx hcx).trans (hself y hy hcy).symm

/-- The name stands for a segment that somebody has not left: it is that of the round to start. -/
theorem Sessions.Ok.join (h : Sessions.Ok n s) (hr : r < n) (hpc : s.pc r = .idle)
    (hname : s.name = some g) (hfresh : (s.segs g).destroyCount < n) :
    Sessions.Ok n { s.setPc r .openExisting with
      round := update s.round r (s.round r + 1) } := by
  have hcur := h.name g hname
  have hround : s.round r + 1 = s.created := by
    have hok := h.rank r hr
    rw [hpc] at hok
    refine hok.resolve_left fun ⟨_, hfull⟩ => ?_
    have := (hfull (by omega)).1
    rw [h.count g hcur] at hfresh
    omega
  have hself : update s.round r (s.round r + 1) r = s.created := by
    rw [update_self, hround]
  have hbound : s.name ≠ none := by
    rw [hname]
    nofun
  refine h.turn rfl (fun x hne => update_of_ne hne ..) rfl rfl rfl rfl rfl (fun _ => .inl)
    (fun _ => rfl) (fun _ => rfl) id (fun _ _ _ _ _ => id) ?_ nofun nofun
    ⟨hself, hbound⟩
  refine iff_of_false (fun hx => ?_) fun hx => ?_
  · cases hx.2
  · omega

/-! ## Runs -/

/-- The segment of the current round is mapped in it. -/
theorem mem_map (h : Current s r g) (x : Nat × Nat × Nat)
    (hx : x ∈ s.mapped ++ [(r, s.round r, g)]) :
    x ∈ s.mapped ∨ x.2.2 + 1 = x.2.1 ∧ x.2.2 < s.created := by
  rcases mem_append.mp hx with hx | hx
  · exact .inl hx
  · cases mem_singleton.mp hx
    exact .inr ⟨h.2.trans h.1.symm, Nat.lt_of_succ_le h.2.le⟩

theorem Sessions.Ok.step (h : Sessions.Ok n s) (hfresh : NameFresh n s r)
    (hs : s.step n r = some s') : Sessions.Ok n s' := by
  obtain ⟨hr, hs⟩ := ite_none_right_eq_some.mp hs
  have hok := h.rank r hr
  generalize hpc : s.pc r = pc at hs hok
  cases pc with
  | idle =>
    cases hname : s.name with
    | none =>
      simp only [hname] at hs
      cases hs
      exact h.create hr hname
    | some g =>
      simp only [hname] at hs
      cases hs
      exact h.join hr hpc hname (hfresh hpc g hname)
  | truncate g =>
    cases hs
    exact h.write (mem_map hok.1) rfl rfl rfl (by rw [hpc]; rfl) rfl (fun _ => by rw [hpc]; rfl) hok
  | header g =>
    cases hs
    refine h.write (fun _ => .inl) rfl ?_ rfl (by rw [hpc]; rfl) rfl (fun _ => by rw [hpc]; rfl) hok
    -- nobody has been counted yet
    show 0 = (s.segs g).destroyCount
    rw [h.count g hok.1.2, h.left_nil hok.1.2 hok.2]
    rfl
  | publish g =>
    cases hs
    exact h.publish hr hpc
  | openExisting =>
    obtain ⟨g, hg⟩ := ne_none_iff_exists'.mp hok.2
    simp only [hg] at hs
    cases hs
    exact h.move (gone_iff hpc rfl rfl) nofun nofun ⟨hok.1, h.name g hg⟩
  | waitSize g =>
    obtain ⟨-, hs⟩ := ite_none_right_eq_some.mp hs
    cases hs
    exact h.turn rfl (fun _ _ => rfl) rfl rfl rfl rfl rfl (mem_map hok) (fun _ => rfl)
      (fun _ => rfl) id (fun _ _ _ _ _ => id) (gone_iff hpc rfl rfl) nofun nofun hok
  | waitAlloc g =>
    obtain ⟨hdone, hs⟩ := ite_none_right_eq_some.mp hs
    cases hs
    refine h.move (gone_iff hpc rfl rfl) nofun nofun ⟨hok, fun x hx => ?_⟩
    have hxg : x = g := by
      have := hok.2
      omega
    rw [hxg]
    exact hdone
  | addReady g =>
    cases hs
    exact h.write (fun _ => .inl) rfl rfl rfl (by rw [hpc]; rfl) rfl nofun hok
  | waitReady g =>
    obtain ⟨-, hs⟩ := ite_none_right_eq_some.mp hs
    cases hs
    exact h.move (gone_iff hpc rfl rfl) nofun nofun hok
  | addDestroy g =>
    cases hs
    exact h.addDestroy hr hpc
  | unlink =>
    cases hs
    exact h.unlink hr hpc
  | waitDestroy g =>
    obtain ⟨hfull, hs⟩ := ite_none_right_eq_some.mp hs
    cases hs
    refine h.move (by rw [hpc]; exact .rfl) nofun nofun ?_
    rcases hok with ⟨⟨hround, hg⟩, hopen⟩ | ⟨hround, -, -⟩
    · refine .inl ⟨hround, fun hpos => ⟨?_, hopen⟩⟩
      have hle := (h.left hpos).length_le (n := n) fun x hx => hx.1
      rw [h.count g hg] at hfull
      omega
    · exact .inr hround

theorem Sessions.Ok.reach (h : Reach (Sessions.step n) (NameFresh n) .init s) : Sessions.Ok n s :=
  h.invariant (Sessions.Ok.init n) fun _ _ _ _ hinv hfresh hs => hinv.step hfresh hs

/--
**Sessions do not mix.** For every number of ranks, in every run in which no rank starts a round
while the name stands for a segment that all ranks have left: two ranks that map a segment in the
same round map the same one, which was created for that round; no rank finds the name gone; and
what a rank unlinks was created for its own round.
-/
theorem sessions_do_not_mix (h : Reach (Sessions.step n) (NameFresh n) .init s) :
    (∀ x ∈ s.mapped, (s.segs x.2.2).round = x.2.1) ∧
      (∀ x ∈ s.mapped, ∀ y ∈ s.mapped, x.2.1 = y.2.1 → x.2.2 = y.2.2) ∧
      s.failed = 0 ∧ ∀ x ∈ s.unlinked, x.2 ≤ x.1 := by
  have hok := Sessions.Ok.reach h
  refine ⟨fun x hx => ?_, fun x hx y hy hxy => ?_, hok.failed,
    fun x hx => le_of_eq (hok.unlinked x hx)⟩
  · obtain ⟨hround, hlt⟩ := hok.mapped x hx
    rw [hok.rounds _ hlt, hround]
  · have hx' := (hok.mapped x hx).1
    have hy' := (hok.mapped y hy).1
    omega

/-- Ranks 0 and 1 have gone through round 1, up to the `shm_unlink` of rank 1. -/
def allButUnlinked : List Nat := [0, 0, 0, 0, 0, 1, 1, 1, 1, 1, 1, 0, 0, 1]

/-- Two ranks, two rounds: both map segment 0, then segment 1. -/
theorem sessions_do_not_mix_two : ∃ s, Reach (Sessions.step 2) (NameFresh 2) .init s ∧
    s.mapped = [(0, 1, 0), (1, 1, 0), (1, 2, 1), (0, 2, 1)] ∧
      (∀ x ∈ s.mapped, (s.segs x.2.2).round = x.2.1) ∧ s.failed = 0 := by
  obtain ⟨s, hs, hmapped⟩ : ∃ s, Reach (Sessions.step 2) (NameFresh 2) .init s ∧
      s.mapped = [(0, 1, 0), (1, 1, 0), (1, 2, 1), (0, 2, 1)] := by
    refine Reach.exists_of_run (allButUnlinked ++ [1, 1, 1, 0, 0, 0, 0]) ?_
    decide +kernel
  obtain ⟨hround, -, hfailed, -⟩ := sessions_do_not_mix hs
  exact ⟨s, hs, hmapped, hround, hfailed⟩

/-- Rank 1 is about to unlink. Rank 0 comes back and maps the segment of round 1 in round 2; it
leaves again, unlinks the name itself, and creates a segment for round 3. That one is what rank 1
then unlinks. -/
theorem sessions_mix : ∃ s, Reach (Sessions.step 2) free .init s ∧
    (0, 2, 0) ∈ s.mapped ∧ (s.segs 0).round = 1 ∧ (1, 3) ∈ s.unlinked := by
  refine Reach.exists_of_run (allButUnlinked ++ [0, 0, 0, 0, 0, 0, 0, 0, 0, 0, 1]) ?_
  decide +kernel

end PtoRuntime.Comm
