import Mathlib

/-!
# Bump allocation in a ring

A ring of `cap` addresses is handed out from `top` upwards and given back at `tail`, in
the order of allocation. Only `top` and `tail` are kept; `Live cap tail top L` says what
they stand for when `L` lists the segments that are out, oldest first. Either the
segments lie one after the other between `tail` and `top`, or they have wrapped: the
older ones lie between `tail` and the end, the younger ones between the start and `top`,
and `top` stays strictly below `tail`.

Segments may be empty, and gaps between them are allowed: an allocation that does not fit
before the end leaves one there.

Main results: `Live.push_end`, `Live.push_wrap`, `Live.push_gap`, `Live.retire`,
`Live.pairwise_disjoint`, `Live.hi_le`.
-/

namespace PtoRuntime.Lib

open List

/-- The addresses from `lo` up to `hi`, which is not included. -/
structure Segment where
  lo : Nat
  hi : Nat
  deriving DecidableEq, Repr

/-- No address is in both segments. -/
def Segment.Disjoint (a b : Segment) : Prop :=
  ∀ x, a.lo ≤ x → x < a.hi → ¬ (b.lo ≤ x ∧ x < b.hi)

theorem Segment.disjoint_of_le {a b : Segment} (h : a.hi ≤ b.lo) : a.Disjoint b := by
  intro x _ hx hb
  omega

theorem Segment.disjoint_of_ge {a b : Segment} (h : b.hi ≤ a.lo) : a.Disjoint b := by
  intro x hx _ hb
  omega

/-- Segments inside a segment that share no address are together no longer than it. -/
theorem Segment.sum_length_le {ι : Type} [DecidableEq ι] (I : Finset ι) (seg : ι → Segment)
    (x : Segment) (hin : ∀ i ∈ I, x.lo ≤ (seg i).lo ∧ (seg i).hi ≤ x.hi)
    (hdisj : ∀ i ∈ I, ∀ j ∈ I, i ≠ j → (seg i).Disjoint (seg j)) :
    ∑ i ∈ I, ((seg i).hi - (seg i).lo) ≤ x.hi - x.lo := by
  have hcard : (I.biUnion fun i => Finset.Ico (seg i).lo (seg i).hi).card =
      ∑ i ∈ I, (Finset.Ico (seg i).lo (seg i).hi).card := by
    refine Finset.card_biUnion fun i hi j hj hne => Finset.disjoint_left.mpr fun a ha ha' => ?_
    rw [Finset.mem_Ico] at ha ha'
    exact hdisj i hi j hj hne a ha.1 ha.2 ha'
  simp only [Nat.card_Ico] at hcard
  rw [← hcard, ← Nat.card_Ico]
  refine Finset.card_le_card (Finset.biUnion_subset.mpr fun i hi => ?_)
  exact Finset.Ico_subset_Ico (hin i hi).1 (hin i hi).2

/-- `v` rounded up to a multiple of `align`. -/
def alignUp (v align : Nat) : Nat := (v + align - 1) / align * align

/-- Rounding up does not shrink. -/
theorem le_alignUp {v align : Nat} (h : 0 < align) : v ≤ alignUp v align := by
  have hdiv := Nat.div_add_mod (v + align - 1) align
  have hlt := Nat.mod_lt (v + align - 1) h
  rw [alignUp, mul_comm]
  omega

namespace BumpRing

variable {cap tail top n a b c : Nat} {x : Segment} {L L₁ L₂ M : List Segment}

/-- The segments lie between `a` and `b`, in this order. -/
def Chain : Nat → List Segment → Nat → Prop
  | a, [], b => a ≤ b
  | a, x :: L, b => a ≤ x.lo ∧ x.lo ≤ x.hi ∧ Chain x.hi L b

theorem Chain.le : ∀ {a : Nat} {L : List Segment}, Chain a L b → a ≤ b
  | _, [], h => h
  | _, x :: L, ⟨h₁, h₂, h⟩ => by
    have := Chain.le h
    omega

theorem Chain.mono (h : Chain a L b) (hb : b ≤ c) : Chain a L c := by
  induction L generalizing a with
  | nil => exact Nat.le_trans h hb
  | cons x L ih => exact ⟨h.1, h.2.1, ih h.2.2⟩

/-- A segment at the end. -/
theorem Chain.append (h : Chain a L b) (hx : b ≤ x.lo) (hle : x.lo ≤ x.hi) :
    Chain a (L ++ [x]) x.hi := by
  induction L generalizing a with
  | nil => exact ⟨Nat.le_trans h hx, hle, Nat.le_refl _⟩
  | cons y L ih => exact ⟨h.1, h.2.1, ih h.2.2⟩

/-- What is left of a chain behind one of its segments. -/
theorem Chain.drop (h : Chain a (L₁ ++ x :: L₂) b) : a ≤ x.hi ∧ Chain x.hi L₂ b := by
  induction L₁ generalizing a with
  | nil => exact ⟨Nat.le_trans h.1 h.2.1, h.2.2⟩
  | cons y L₁ ih =>
    obtain ⟨hle, hch⟩ := ih h.2.2
    have := h.1
    have := h.2.1
    exact ⟨by omega, hch⟩

/-- The segments lie between the ends. -/
theorem Chain.bounds (h : Chain a L b) (hx : x ∈ L) : a ≤ x.lo ∧ x.lo ≤ x.hi ∧ x.hi ≤ b := by
  induction L generalizing a with
  | nil => cases hx
  | cons y L ih =>
    rcases mem_cons.mp hx with rfl | hx
    · exact ⟨h.1, h.2.1, h.2.2.le⟩
    · have hb := ih h.2.2 hx
      have := h.1
      have := h.2.1
      exact ⟨by omega, hb.2⟩

/-- Segments of a chain do not meet. -/
theorem Chain.pairwise (h : Chain a L b) : L.Pairwise Segment.Disjoint := by
  induction L generalizing a with
  | nil => exact List.Pairwise.nil
  | cons y L ih =>
    refine pairwise_cons.mpr ⟨fun z hz => ?_, ih h.2.2⟩
    exact Segment.disjoint_of_le (h.2.2.bounds hz).1

/-- What `tail` and `top` say about the segments that are out, oldest first. -/
inductive Live (cap tail top : Nat) : List Segment → Prop
  | linear {L : List Segment} : Chain tail L top → top ≤ cap → Live cap tail top L
  | wrapped {L M : List Segment} : top < tail → Chain tail L cap → Chain 0 M top →
      Live cap tail top (L ++ M)

namespace Live

theorem top_le (h : Live cap tail top L) : top ≤ cap := by
  cases h with
  | linear _ hle => exact hle
  | wrapped hlt hL _ =>
    have := hL.le
    omega

/-- Everything up to a segment is given back. -/
theorem retire (h : Live cap tail top (L₁ ++ x :: L₂)) : Live cap x.hi top L₂ := by
  generalize hL : L₁ ++ x :: L₂ = L at h
  cases h with
  | linear hch hle =>
    subst hL
    exact .linear hch.drop.2 hle
  | @wrapped A B hlt hA hB =>
    rcases append_eq_append_iff.mp hL with ⟨A', rfl, hx⟩ | ⟨B', rfl, hx⟩
    · cases A' with
      | nil =>
        -- the oldest of the younger half
        obtain rfl : B = x :: L₂ := hx.symm
        exact .linear hB.2.2 (by have := hA.le; omega)
      | cons y A'' =>
        -- one of the older half, the rest of which stays behind the tail
        obtain ⟨rfl, rfl⟩ : x = y ∧ L₂ = A'' ++ B := by simpa using hx
        obtain ⟨hle, hch⟩ := hA.drop
        exact .wrapped (by omega) hch hB
    · subst hx
      exact .linear hB.drop.2 (by have := hA.le; omega)

/-- Space behind the top. -/
theorem push_end (h : Live cap tail top L) (hle : tail ≤ top) (hn : top + n ≤ cap) :
    Live cap tail (top + n) (L ++ [⟨top, top + n⟩]) := by
  cases h with
  | linear hch _ => exact .linear (hch.append (Nat.le_refl _) (Nat.le_add_right ..)) hn
  | wrapped hlt => omega

/-- Space before the tail, after a turn. -/
theorem push_wrap (h : Live cap tail top L) (hle : tail ≤ top) (hn : n < tail) :
    Live cap tail n (L ++ [⟨0, n⟩]) := by
  cases h with
  | linear hch htop =>
    exact .wrapped hn (hch.mono htop) ⟨Nat.le_refl _, Nat.zero_le _, Nat.le_refl _⟩
  | wrapped hlt => omega

/-- Space between the top and the tail. -/
theorem push_gap (h : Live cap tail top L) (hlt : top < tail) (hn : top + n < tail) :
    Live cap tail (top + n) (L ++ [⟨top, top + n⟩]) := by
  cases h with
  | linear hch _ =>
    have := hch.le
    omega
  | wrapped _ hL hM =>
    rw [append_assoc]
    exact .wrapped hn hL (hM.append (Nat.le_refl _) (Nat.le_add_right ..))

/-- An empty segment fits everywhere. -/
theorem push_empty (h : Live cap tail top L) : Live cap tail top (L ++ [⟨top, top⟩]) := by
  rcases Nat.lt_or_ge top tail with hlt | hle
  · exact h.push_gap (n := 0) hlt hlt
  · exact h.push_end (n := 0) hle h.top_le

/-- Segments lie in the heap. -/
theorem hi_le (h : Live cap tail top L) (hx : x ∈ L) : x.lo ≤ x.hi ∧ x.hi ≤ cap := by
  cases h with
  | linear hch hle =>
    have := hch.bounds hx
    omega
  | wrapped hlt hL hM =>
    have := hL.le
    rcases mem_append.mp hx with hx | hx
    · exact (hL.bounds hx).2
    · have := hM.bounds hx
      omega

/-- Live segments do not meet. -/
theorem pairwise_disjoint (h : Live cap tail top L) : L.Pairwise Segment.Disjoint := by
  cases h with
  | linear hch _ => exact hch.pairwise
  | wrapped hlt hL hM =>
    refine pairwise_append.mpr ⟨hL.pairwise, hM.pairwise, fun x hx y hy => ?_⟩
    -- the younger half ends below the tail, the older half starts there
    have := hL.bounds hx
    have := hM.bounds hy
    exact Segment.disjoint_of_ge (by omega)

end Live

end BumpRing

end PtoRuntime.Lib
