import PtoRuntime.Tmrb.TensorViews

/-!
# Soundness of the overlap test

`check_overlap` compares the region of an entry with the region of a later access, and the
orchestrator drops a dependency on `NO_OVERLAP` and the entry on `COVERED`. The ranges that it
compares first are ranges of elements, so views of one buffer with element sizes that differ
are compared in different units. With one element size the test is sound, for every pair of
views that the constructors and the view operations make and whose ranges end below 2^64. An
extent of 2^64 elements wraps to 0, and is then disjoint from everything. In range:

* a wrapped stride is smaller than the product it stands for, so the range that a tensor reports
  still covers its elements;
* views that fit the reference shape have a unique digit for each dimension, and the digit of
  the first dimension may be cut to 32 bits, as the ranges of the views intersect.

Main results: `overlap_sound_iff`, `int8_view_missed`.
-/

namespace PtoRuntime.Tmrb

open Lib List

/-! ## The range of a tensor -/

namespace Tensor

variable {t : Tensor}

/-- The extent, without wrapping. -/
def span (t : Tensor) : Nat :=
  if t.isContiguous then t.shapes.prod else 1 + dot (lastIndex t.shapes) t.strides

/-- Condition on a tensor: its range ends below 2^64. -/
def Within64 (t : Tensor) : Prop := t.startOffset + t.span < 2 ^ 64

instance (t : Tensor) : Decidable t.Within64 := inferInstanceAs (Decidable (_ < _))

/-- An element of the view. -/
def Elem (t : Tensor) (a : Nat) : Prop :=
  ∃ idx, Forall₂ (· < ·) idx t.shapes ∧ a = t.startOffset + dot idx t.strides

/-- A byte of the view. -/
def Addresses (t : Tensor) (b : Nat) : Prop :=
  ∃ idx, Forall₂ (· < ·) idx t.shapes ∧
    ∃ k < t.dtype.elementSize, b = t.computeFlatOffset idx * t.dtype.elementSize + k

/-- What holds of the range of every tensor. -/
structure Measured (t : Tensor) : Prop where
  formed : t.Formed
  extent : t.extentElem = t.span % 2 ^ 64

theorem extentElem_of_contiguous (h : t.isContiguous = true) : t.extentElem = t.span % 2 ^ 64 := by
  rw [extentElem, span, if_pos h, if_pos h, numel_eq]

theorem extentElem_refreshDerived (t : Tensor) :
    t.refreshDerived.extentElem = t.refreshDerived.span % 2 ^ 64 := by
  by_cases h : t.refreshDerived.isContiguous = true
  · exact extentElem_of_contiguous h
  · rw [extentElem, span, if_neg h, if_neg h]
    rfl

/-- Extents are spans in every chain of views. -/
theorem Measured.reach {root : Tensor} (hroot : root.Fresh) (h : Reach step InArrays root t) :
    t.Measured := by
  refine ⟨.reach hroot h, ?_⟩
  cases h with
  | init => exact extentElem_of_contiguous hroot.rowMajorStrides_eq.2.1
  | @step s _ op _ _ hst =>
    -- the extent is the product of the dimensions, or what `refresh_derived` computes
    obtain ⟨-, ⟨⟩⟩ := Option.ite_none_right_eq_some.mp hst
    cases op.1 with
    | reshape shapes => exact extentElem_of_contiguous rfl
    | _ => exact extentElem_refreshDerived _

theorem dot_map_mod_le (idx strides : List Nat) (m : Nat) :
    dot idx (strides.map (· % m)) ≤ dot idx strides := by
  induction idx generalizing strides with
  | nil => exact le_rfl
  | cons i idx ih =>
    cases strides with
    | nil => exact le_rfl
    | cons s strides =>
      exact Nat.add_le_add (Nat.mul_le_mul_left i (Nat.mod_le s m)) (ih strides)

namespace Measured

variable {idx : List Nat} (h : t.Measured)
include h

/-- Elements lie inside the span. -/
theorem dot_lt_span (hidx : Forall₂ (· < ·) idx t.shapes) : dot idx t.strides < t.span := by
  unfold span
  split_ifs with hc
  · have hle := dot_map_mod_le idx (rowMajor t.shapes) (2 ^ 32)
    have hlt := dot_rowMajor_lt hidx
    rw [h.formed.rowMajor hc, rowMajorStrides_eq]
    exact lt_of_le_of_lt hle hlt
  · have hle : dot idx t.strides ≤ dot (lastIndex t.shapes) t.strides := dot_le_lastIndex hidx
    omega

/-- The source's offset, where nothing wraps. -/
theorem computeFlatOffset_eq (hw : t.Within64) (hidx : Forall₂ (· < ·) idx t.shapes) :
    t.computeFlatOffset idx = t.startOffset + dot idx t.strides := by
  have hlt := h.dot_lt_span hidx
  unfold Within64 at hw
  exact Nat.mod_eq_of_lt (by omega)

/-- Bytes of a view, by elements. -/
theorem addresses_iff (hw : t.Within64) (b : Nat) :
    t.Addresses b ↔ t.Elem (b / t.dtype.elementSize) := by
  have hsize : 0 < t.dtype.elementSize := by
    cases t.dtype <;> decide
  constructor
  · rintro ⟨idx, hidx, k, hk, rfl⟩
    refine ⟨idx, hidx, ?_⟩
    rw [h.computeFlatOffset_eq hw hidx, add_comm, Nat.add_mul_div_right _ _ hsize,
      Nat.div_eq_of_lt hk, zero_add]
  · rintro ⟨idx, hidx, hb⟩
    refine ⟨idx, hidx, b % t.dtype.elementSize, Nat.mod_lt _ hsize, ?_⟩
    rw [h.computeFlatOffset_eq hw hidx, ← hb, mul_comm, Nat.div_add_mod]

/-- The ranges that are compared first. -/
theorem range_eq (hw : t.Within64) :
    (t.startOffset + t.extentElem) % 2 ^ 64 = t.startOffset + t.span := by
  unfold Within64 at hw
  rw [h.extent, Nat.mod_eq_of_lt (by omega : t.span < 2 ^ 64), Nat.mod_eq_of_lt hw]

end Measured

end Tensor

/-! ## Digits -/

namespace Entry

variable {strides shapes idx : List Nat} {a a' p : Nat}

theorem length_decompose (strides : List Nat) (a : Nat) :
    (decompose strides a).1.length = strides.length := by
  induction strides generalizing a with
  | nil => rfl
  | cons s strides ih => exact congrArg (· + 1) (ih (a % s))

/-- The digits of a number that fits a word determine it. -/
theorem decompose_inj (ha : a < 2 ^ 32) (ha' : a' < 2 ^ 32)
    (h : decompose strides a = decompose strides a') : a = a' := by
  induction strides generalizing a a' with
  | nil => exact (Prod.mk.inj h).2
  | cons s strides ih =>
    obtain ⟨hdigits, hleft⟩ := Prod.mk.inj h
    obtain ⟨hdigit, hrest⟩ := cons.inj hdigits
    have hmod : a % s = a' % s :=
      ih (lt_of_le_of_lt (Nat.mod_le ..) ha) (lt_of_le_of_lt (Nat.mod_le ..) ha')
        (Prod.ext hrest hleft)
    rw [Nat.mod_eq_of_lt (lt_of_le_of_lt (Nat.div_le_self ..) ha),
      Nat.mod_eq_of_lt (lt_of_le_of_lt (Nat.div_le_self ..) ha')] at hdigit
    rw [← Nat.div_add_mod a s, ← Nat.div_add_mod a' s, hdigit, hmod]

/-- A view fits the reference shape of its inner dimensions: the stride before them is `p`. -/
def FitsInner (p : Nat) (strides shapes : List Nat) (a : Nat) : Prop :=
  fitsRef (decompose strides a).1 shapes (innerRefShapes (p :: strides)) = true

theorem FitsInner.cons {s n : Nat} (h : FitsInner p (s :: strides) (n :: shapes) a) :
    a / s % 2 ^ 32 + n ≤ p / s ∧ FitsInner s strides shapes (a % s) := by
  simpa [FitsInner, decompose, innerRefShapes, fitsRef] using h

theorem pos_of_le_div {n s : Nat} (h : n ≤ p / s) (hn : 0 < n) : 0 < s ∧ s ≤ p := by
  have hpos : 0 < p / s := lt_of_lt_of_le hn h
  have hs : s ≠ 0 := fun h0 => by simp [h0] at hpos
  exact ⟨Nat.pos_of_ne_zero hs, (Nat.div_pos_iff.mp hpos).2⟩

/-- In the inner dimensions the digits of an element are those of the start plus the index. -/
theorem FitsInner.decompose_add (h : FitsInner p strides shapes a) (ha : a < p) (hp : p < 2 ^ 32)
    (hlen : strides.length = shapes.length) (hidx : Forall₂ (· < ·) idx shapes) :
    a + dot idx strides < p ∧
      decompose strides (a + dot idx strides) =
        (zipWith (· + ·) (decompose strides a).1 idx, (decompose strides a).2) := by
  induction strides generalizing a p shapes idx with
  | nil =>
    rw [length_eq_zero_iff.mp hlen.symm, forall₂_nil_right_iff] at hidx
    subst hidx
    exact ⟨ha, rfl⟩
  | cons s strides ih =>
    match shapes, hlen with
    | n :: shapes, hlen =>
      obtain ⟨i, idx, hi, htail, rfl⟩ := forall₂_cons_right_iff.mp hidx
      obtain ⟨hn, hinner⟩ := h.cons
      obtain ⟨hs, hsp⟩ :=
        pos_of_le_div (Nat.le_trans (Nat.le_add_left ..) hn) (Nat.zero_lt_of_lt hi)
      obtain ⟨hlt, hdec⟩ :=
        ih hinner (Nat.mod_lt a hs) (Nat.lt_of_le_of_lt hsp hp) (Nat.succ.inj hlen) htail
      have hword : a / s % 2 ^ 32 = a / s :=
        Nat.mod_eq_of_lt (Nat.lt_of_le_of_lt (Nat.div_le_self ..) (ha.trans hp))
      have hsum : a % s + dot idx strides + s * (a / s + i) =
          a + dot (i :: idx) (s :: strides) := by
        rw [dot, Nat.mul_add, Nat.mul_comm i s]
        have hdiv := Nat.div_add_mod a s
        omega
      obtain ⟨hdiv, hmod⟩ := (Nat.div_mod_unique hs).mpr ⟨hsum, hlt⟩
      have hbound : a + dot (i :: idx) (s :: strides) < p := by
        have hle : s * (a / s + i + 1) ≤ p :=
          (Nat.mul_le_mul_left s (by omega)).trans (Nat.mul_div_le p s)
        rw [Nat.mul_add, Nat.mul_one] at hle
        omega
      refine ⟨hbound, ?_⟩
      rw [decompose, decompose, hdiv, hmod, hdec, hword, zipWith_cons_cons,
        Nat.mod_eq_of_lt (Nat.lt_of_le_of_lt (hdiv ▸ Nat.div_le_self ..) (hbound.trans hp))]

theorem FitsInner.prod_le (h : FitsInner p strides shapes a) (hp : 0 < p)
    (hlen : strides.length = shapes.length) (hne : ∀ n ∈ shapes, 0 < n) : shapes.prod ≤ p := by
  induction strides generalizing a p shapes with
  | nil =>
    rw [length_eq_zero_iff.mp hlen.symm]
    exact hp
  | cons s strides ih =>
    match shapes, hlen with
    | n :: shapes, hlen =>
      obtain ⟨hn, hinner⟩ := h.cons
      obtain ⟨hpos, hne⟩ := forall_mem_cons.mp hne
      have hle : n ≤ p / s := Nat.le_trans (Nat.le_add_left ..) hn
      have ih := ih hinner (pos_of_le_div hle hpos).1 (Nat.succ.inj hlen) hne
      rw [prod_cons]
      exact (Nat.mul_le_mul hle ih).trans (Nat.div_mul_le_self p s)

/-! ## Boxes -/

/-- Boxes found apart share no index. -/
theorem compareBoxes_noOverlap {io ins eo es jdx : List Nat} {c : Bool}
    (h : compareBoxes io ins eo es c = .noOverlap) (hj : Forall₂ (· < ·) jdx ins)
    (hi : Forall₂ (· < ·) idx es) : zipWith (· + ·) io jdx ≠ zipWith (· + ·) eo idx := by
  fun_induction compareBoxes io ins eo es c generalizing jdx idx with
  | case1 i io n ins e eo m es c _ ih =>
    obtain ⟨j, jdx, -, hjs, rfl⟩ := forall₂_cons_right_iff.mp hj
    obtain ⟨x, idx, -, his, rfl⟩ := forall₂_cons_right_iff.mp hi
    exact fun heq => ih h hjs his (cons.inj heq).2
  | case2 i io n ins e eo m es c hdis =>
    obtain ⟨j, jdx, hlt, -, rfl⟩ := forall₂_cons_right_iff.mp hj
    obtain ⟨x, idx, hlt', -, rfl⟩ := forall₂_cons_right_iff.mp hi
    intro heq
    -- the first coordinates are in disjoint ranges
    have hhead : i + j = e + x := (cons.inj heq).1
    simp [segmentsIntersect] at hdis
    omega
  | case3 | case4 => cases h

/-- A covered box is inside the other. -/
theorem compareBoxes_covered {io ins eo es : List Nat} {c : Bool}
    (h : compareBoxes io ins eo es c = .covered) (hio : io.length = ins.length)
    (heo : eo.length = es.length) (hlen : ins.length = es.length) :
    c = true ∧ ∀ idx, Forall₂ (· < ·) idx es →
      ∃ jdx, Forall₂ (· < ·) jdx ins ∧ zipWith (· + ·) io jdx = zipWith (· + ·) eo idx := by
  fun_induction compareBoxes io ins eo es c with
  | case1 i io n ins e eo m es c _ ih =>
    obtain ⟨hc, hrest⟩ := ih h (Nat.succ.inj hio) (Nat.succ.inj heo) (Nat.succ.inj hlen)
    simp only [Bool.and_eq_true, segmentContains, decide_eq_true_eq] at hc
    refine ⟨hc.1, fun idx hidx => ?_⟩
    obtain ⟨x, idx, hx, htail, rfl⟩ := forall₂_cons_right_iff.mp hidx
    obtain ⟨jdx, hjdx, heq⟩ := hrest idx htail
    -- the same element, counted from the other corner
    refine ⟨(e + x - i) :: jdx, .cons (by omega) hjdx, ?_⟩
    rw [zipWith_cons_cons, zipWith_cons_cons, heq, Nat.add_sub_cancel' (by omega)]
  | case2 | case4 => cases h
  | case3 io ins eo es hne =>
    refine ⟨rfl, fun idx hidx => ?_⟩
    match es, ins, io, eo, hlen, hio, heo with
    | [], [], [], [], _, _, _ => exact ⟨[], .nil, by cases hidx; rfl⟩
    | m :: es, n :: ins, i :: io, e :: eo, _, _, _ =>
      exact (hne i io n ins e eo m es rfl rfl rfl rfl).elim

end Entry

open Entry

namespace Tensor

variable {t input : Tensor} {idx rest ns ms : List Nat} {a s n m : Nat}

/-- A view in the reference shape of its strides. -/
structure Placed (t : Tensor) (s : Nat) (rest : List Nat) (n : Nat) (ns : List Nat) : Prop where
  shapes : t.shapes = n :: ns
  strides : t.strides = s :: rest
  len : rest.length = ns.length
  pos : 0 < n → 0 < s
  narrow : s < 2 ^ 32
  outer : t.startOffset / s % 2 ^ 32 + n < 2 ^ 32
  inner : FitsInner s rest ns (t.startOffset % s)
  exact : (decompose rest (t.startOffset % s)).2 = 0

namespace Placed

variable (h : t.Placed s rest n ns)
include h

/-- The digits of an element of the view; the block of 2^32 rows is that of its start. -/
theorem decompose_elem (hidx : Forall₂ (· < ·) idx t.shapes) :
    (decompose (s :: rest) (t.startOffset + dot idx t.strides)).1 =
        zipWith (· + ·) (decompose (s :: rest) t.startOffset).1 idx ∧
      (decompose rest ((t.startOffset + dot idx t.strides) % s)).2 = 0 ∧
      (t.startOffset + dot idx t.strides) / s / 2 ^ 32 = t.startOffset / s / 2 ^ 32 ∧
      (t.startOffset + dot idx t.strides) % s < s := by
  rw [h.shapes] at hidx
  rw [h.strides]
  obtain ⟨i, idx, hi, htail, rfl⟩ := forall₂_cons_right_iff.mp hidx
  have hs := h.pos (Nat.zero_lt_of_lt hi)
  obtain ⟨hlt, hdec⟩ := h.inner.decompose_add (Nat.mod_lt _ hs) h.narrow h.len htail
  have hsum : t.startOffset % s + dot idx rest + s * (t.startOffset / s + i) =
      t.startOffset + dot (i :: idx) (s :: rest) := by
    rw [dot, Nat.mul_add, mul_comm i s]
    have hdiv := Nat.div_add_mod t.startOffset s
    omega
  -- quotient and remainder by the outer stride
  obtain ⟨hdiv, hmod⟩ := (Nat.div_mod_unique hs).mpr ⟨hsum, hlt⟩
  have houter := h.outer
  refine ⟨?_, ?_, ?_, ?_⟩
  · rw [decompose, decompose, hdiv, hmod, hdec, zipWith_cons_cons]
    exact congrArg (· :: _) (by omega)
  · rw [hmod, hdec]
    exact h.exact
  · rw [hdiv]
    omega
  · rw [hmod]
    exact hlt

/-- The span is at most the outer dimension. -/
theorem span_le (hne : ∀ k ∈ t.shapes, 0 < k) : t.span ≤ n * s := by
  rw [h.shapes] at hne
  obtain ⟨hn, hns⟩ := forall_mem_cons.mp hne
  have hs := h.pos hn
  rw [span, h.shapes, h.strides]
  split
  · rw [prod_cons]
    exact Nat.mul_le_mul_left n (h.inner.prod_le hs h.len hns)
  · have hlt := (h.inner.decompose_add (Nat.mod_lt _ hs) h.narrow h.len (lastIndex_lt hns)).1
    have hsplit : n * s = (n - 1) * s + s := by
      rw [← Nat.succ_mul, Nat.succ_eq_add_one, Nat.sub_add_cancel hn]
    rw [lastIndex, map_cons, dot, ← lastIndex]
    omega

/-- The range of the view ends in the block of 2^32 rows in which it starts. -/
theorem end_div_le (hne : ∀ k ∈ t.shapes, 0 < k) :
    (t.startOffset + t.span) / s / 2 ^ 32 ≤ t.startOffset / s / 2 ^ 32 := by
  have hs : 0 < s := h.pos (hne n (h.shapes ▸ mem_cons_self))
  have houter := h.outer
  have hend : (t.startOffset + t.span) / s ≤ t.startOffset / s + n := by
    rw [← Nat.add_mul_div_right _ _ hs]
    exact Nat.div_le_div_right (Nat.add_le_add_left (h.span_le hne) _)
  omega

end Placed

/-- Two placed views with one stride list, whose ranges intersect. -/
theorem Placed.covered (h : t.Placed s rest n ns) (h' : input.Placed s rest m ms)
    (hw : t.startOffset < input.startOffset + input.span)
    (hw' : input.startOffset < t.startOffset + t.span) {jdx : List Nat}
    (hidx : Forall₂ (· < ·) idx t.shapes) (hjdx : Forall₂ (· < ·) jdx input.shapes)
    (heq : zipWith (· + ·) (decompose (s :: rest) input.startOffset).1 jdx =
      zipWith (· + ·) (decompose (s :: rest) t.startOffset).1 idx) :
    input.startOffset + dot jdx input.strides = t.startOffset + dot idx t.strides := by
  obtain ⟨hdigits, hleft, hblock, hlt⟩ := h.decompose_elem hidx
  obtain ⟨hdigits', hleft', hblock', hlt'⟩ := h'.decompose_elem hjdx
  have hsame : t.startOffset / s / 2 ^ 32 = input.startOffset / s / 2 ^ 32 := by
    have hend := h.end_div_le (pos_of_forall₂_lt hidx)
    have hend' := h'.end_div_le (pos_of_forall₂_lt hjdx)
    have hle := Nat.div_le_div_right (c := 2 ^ 32) (Nat.div_le_div_right (c := s) hw.le)
    have hle' := Nat.div_le_div_right (c := 2 ^ 32) (Nat.div_le_div_right (c := s) hw'.le)
    omega
  rw [← hdigits, ← hdigits'] at heq
  obtain ⟨hhead, htail⟩ := cons.inj heq
  have hdiv : (input.startOffset + dot jdx input.strides) / s =
      (t.startOffset + dot idx t.strides) / s := by
    omega
  have hmod := decompose_inj (hlt'.trans h.narrow) (hlt.trans h.narrow)
    (Prod.ext htail (hleft'.trans hleft.symm))
  rw [← Nat.div_add_mod (input.startOffset + dot jdx input.strides) s, hdiv, hmod, Nat.div_add_mod]

end Tensor

/-! ## The test -/

variable {t input : Tensor} {producer : TaskId} {r : OverlapStatus}

/-- What a decision needs. -/
theorem compareViews_inv {s n m : Nat} {rest ns ms : List Nat}
    (h : (Entry.fullCopy t producer).compareViews input = r) (hr : r ≠ .other)
    (ht : t.Formed) (hi : input.Formed)
    (hst : t.strides = s :: rest) (hstrides : input.strides = t.strides) (hns : t.shapes = n :: ns)
    (hms : input.shapes = m :: ms) :
    t.Placed s rest n ns ∧ input.Placed s rest m ms ∧
      compareBoxes (decompose (s :: rest) input.startOffset).1 input.shapes
        (decompose (s :: rest) t.startOffset).1 t.shapes true = r := by
  have hnarrow : s < 2 ^ 32 := ht.narrow s (hst ▸ mem_cons_self)
  have hlen : rest.length = ns.length := by
    simpa [hst, hns] using ht.len
  have hlen' : rest.length = ms.length := by
    simpa [hst, hms, hstrides] using hi.len
  simp only [compareViews, Entry.fullCopy, hst, headD_cons] at h
  split_ifs at h with hdvd hleft hfit
  · exact absurd h.symm hr
  · exact absurd h.symm hr
  · obtain ⟨hleft, hleft'⟩ := not_or.mp hleft
    rw [hns, hms] at hfit
    simp only [decompose, fitsRef, Bool.and_eq_true, decide_eq_true_eq] at hfit hleft hleft'
    have hpos {k o : Nat} (hle : o + k ≤ input.size / t.dtype.elementSize / s % 2 ^ 32)
        (hk : 0 < k) :
        0 < s := Nat.pos_of_ne_zero fun h0 => by simp [h0] at hle; omega
    exact ⟨⟨hns, hst, hlen, hpos hfit.2.1, hnarrow, by omega, hfit.2.2, not_not.mp hleft'⟩,
      ⟨hms, hstrides.trans hst, hlen', hpos hfit.1.1, hnarrow, by omega, hfit.1.2,
        not_not.mp hleft⟩, h⟩
  · exact absurd h.symm hr

/-- What a decision of the whole check needs. -/
theorem checkOverlap_inv (hver : input.version = t.version)
    (h : (Entry.fullCopy t producer).checkOverlap input = r) (hr : r ≠ .other) :
    let intersect := segmentsIntersect
      ⟨input.startOffset, (input.startOffset + input.extentElem) % 2 ^ 64⟩
      ⟨t.startOffset, (t.startOffset + t.extentElem) % 2 ^ 64⟩
    intersect = false ∧ r = .noOverlap ∨
    intersect = true ∧ input.shapes.length = t.shapes.length ∧ t.shapes ≠ [] ∧
      input.strides = t.strides ∧ (Entry.fullCopy t producer).compareViews input = r := by
  have hext : (Entry.fullCopy t producer).effectiveExtentElem = t.extentElem := rfl
  simp only [checkOverlap, hext] at h
  split_ifs at h with hnewer hsegs hlayout hstrides
  · exact absurd hnewer (by rw [hver]; exact lt_irrefl _)
  · exact absurd h.symm hr
  · exact absurd h.symm hr
  · exact absurd h.symm hr
  · simp only [not_or, not_not] at hlayout hstrides
    refine .inr ⟨hsegs, hlayout.2.1, ?_, hstrides, h⟩
    exact fun h0 => hlayout.2.2 (congrArg length h0)
  · exact .inl ⟨Bool.not_eq_true _ ▸ hsegs, h.symm⟩

/-- With one element size the test is sound. -/
theorem elem_sound (ht : t.Measured) (hi : input.Measured) (hwt : t.Within64) (hwi : input.Within64)
    (hver : input.version = t.version) (h : (Entry.fullCopy t producer).checkOverlap input = r) :
    (r = .noOverlap → ∀ a, t.Elem a → ¬ input.Elem a) ∧
      (r = .covered → ∀ a, t.Elem a → input.Elem a) := by
  by_cases hr : r = .other
  · subst hr
    exact ⟨nofun, nofun⟩
  have hinv := checkOverlap_inv hver h hr
  simp only [ht.range_eq hwt, hi.range_eq hwi] at hinv
  rcases hinv with ⟨hsegs, rfl⟩ | ⟨hsegs, hlen, hne, hstrides, hviews⟩
  · refine ⟨?_, nofun⟩
    rintro - a ⟨idx, hidx, rfl⟩ ⟨jdx, hjdx, heq⟩
    have hlt := ht.dot_lt_span hidx
    have hlt' := hi.dot_lt_span hjdx
    simp [segmentsIntersect] at hsegs
    omega
  · obtain ⟨n, ns, hns⟩ := exists_cons_of_ne_nil hne
    obtain ⟨m, ms, hms⟩ := exists_cons_of_length_pos (l := input.shapes) (by simp [hlen, hns])
    obtain ⟨s, rest, hst⟩ :=
      exists_cons_of_length_pos (l := t.strides) (by simp [ht.formed.len, hns])
    obtain ⟨hp, hp', hbox⟩ := compareViews_inv hviews hr ht.formed hi.formed hst hstrides hns hms
    simp only [segmentsIntersect, Bool.and_eq_true, decide_eq_true_eq] at hsegs
    constructor
    · rintro rfl a ⟨idx, hidx, rfl⟩ ⟨jdx, hjdx, heq⟩
      refine compareBoxes_noOverlap hbox hjdx hidx ?_
      rw [← (hp'.decompose_elem hjdx).1, ← (hp.decompose_elem hidx).1, heq]
    · rintro rfl a ⟨idx, hidx, rfl⟩
      obtain ⟨-, hall⟩ := compareBoxes_covered hbox (by simp [length_decompose, hms, hp'.len])
        (by simp [length_decompose, hns, hp.len]) hlen
      obtain ⟨jdx, hjdx, heq⟩ := hall idx hidx
      exact ⟨jdx, hjdx, (hp.covered hp' hsegs.1 hsegs.2 hidx hjdx heq).symm⟩

/-- One element of a tensor of nine. -/
def Tensor.oneOfNine (d : DataType) (k : Nat) : Tensor :=
  (ViewOp.view [1] [k]).apply (.initExternal 0 72 [9] d 0 false) false

theorem DataType.elementSize_le (d : DataType) : d.elementSize ≤ 8 := by
  cases d <;> decide

section OneOfNine

variable {d : DataType} {k : Nat}

theorem Tensor.oneOfNine_reach (d : DataType) (k : Nat) :
    ∃ root : Tensor, root.Fresh ∧ Reach step InArrays root (.oneOfNine d k) :=
  ⟨.initExternal 0 72 [9] d 0 false, .external _ _ _ _ _ (by decide) (by decide) (by decide),
    .step .init (a := (.view [1] [k], false)) trivial
      (if_pos ⟨(by decide : 1 ≤ maxTensorDims), rfl, rfl, by decide⟩)⟩

theorem Tensor.oneOfNine_start (hk : k ≤ 8) : (oneOfNine d k).startOffset = k := by
  show (0 + (k * 1 + 0)) % 2 ^ 64 = k
  omega

theorem Tensor.oneOfNine_addresses (hk : k ≤ 8) :
    (oneOfNine d k).Addresses (k * d.elementSize) := by
  refine ⟨[0], .cons Nat.one_pos .nil, 0, ?_, ?_⟩
  · show 0 < d.elementSize
    cases d <;> decide
  · show k * d.elementSize = ((oneOfNine d k).startOffset + (0 * 1 + 0)) % 2 ^ 64 *
      d.elementSize + 0
    rw [oneOfNine_start hk, Nat.mod_eq_of_lt (by omega)]
    rfl

end OneOfNine

/-- The two views have byte `d.elementSize * d'.elementSize` in common. -/
theorem checkOverlap_oneOfNine {d d' : DataType} (h : d.elementSize ≠ d'.elementSize) :
    (Entry.copyFromTensor (.oneOfNine d d'.elementSize) producer).checkOverlap
      (.oneOfNine d' d.elementSize) = .noOverlap := by
  have hd := d.elementSize_le
  have hd' := d'.elementSize_le
  obtain ⟨root, hroot, hreach⟩ := Tensor.oneOfNine_reach d d'.elementSize
  rw [(Tensor.Formed.reach hroot hreach).checkOverlap_copy]
  have hext (d : DataType) (k : Nat) : (Tensor.oneOfNine d k).extentElem = 1 := rfl
  have hfull : (Entry.fullCopy (.oneOfNine d d'.elementSize) producer).effectiveExtentElem = 1 :=
    rfl
  have hstart : (Entry.fullCopy (.oneOfNine d d'.elementSize) producer).startOffset =
      d'.elementSize :=
    Tensor.oneOfNine_start hd'
  rw [checkOverlap, if_neg (by exact lt_irrefl (0 : Int)), if_pos]
  rw [hext, hfull, hstart, Tensor.oneOfNine_start hd, segmentsIntersect]
  simp
  omega

/-- Condition on the two views of a call: their ranges end below 2^64, and no stride that the
test divides by is 0. -/
structure Comparable (t input : Tensor) : Prop where
  range : t.Within64
  inputRange : input.Within64
  strides : ∀ s ∈ t.strides, 0 < s

/-- The test is sound for entries of data type `d` and inputs of `d'`, on one buffer, with one
version: `NO_OVERLAP` means that the views have no byte in common, `COVERED` that every byte of
the entry is one of the input. -/
def OverlapSound (d d' : DataType) : Prop :=
  ∀ root root' t input : Tensor, ∀ producer : TaskId, root.Fresh → root'.Fresh →
    Reach Tensor.step Tensor.InArrays root t → Reach Tensor.step Tensor.InArrays root' input →
    t.dtype = d → input.dtype = d' → input.addr = t.addr → input.version = t.version →
    Comparable t input →
    ((Entry.copyFromTensor t producer).checkOverlap input = .noOverlap →
      ∀ b, t.Addresses b → ¬ input.Addresses b) ∧
    ((Entry.copyFromTensor t producer).checkOverlap input = .covered →
      ∀ b, t.Addresses b → input.Addresses b)

/--
**Overlap test.** It is sound for two data types, over all comparable views that the constructors
and the view operations make, iff the elements of the two types have the same size.
-/
theorem overlap_sound_iff (d d' : DataType) :
    OverlapSound d d' ↔ d.elementSize = d'.elementSize := by
  constructor
  · intro h
    by_contra hne
    obtain ⟨root, hroot, hreach⟩ := Tensor.oneOfNine_reach d d'.elementSize
    obtain ⟨root', hroot', hreach'⟩ := Tensor.oneOfNine_reach d' d.elementSize
    have hle := d.elementSize_le
    have hle' := d'.elementSize_le
    have hwithin {d : DataType} {k : Nat} (hk : k ≤ 8) : (Tensor.oneOfNine d k).Within64 := by
      show (Tensor.oneOfNine d k).startOffset + 1 < 2 ^ 64
      rw [Tensor.oneOfNine_start hk]
      omega
    have hstrides : ∀ s ∈ (Tensor.oneOfNine d d'.elementSize).strides, 0 < s :=
      fun s hs => mem_singleton.mp hs ▸ Nat.one_pos
    have hsound := h root root' _ _ ⟨0, 0⟩ hroot hroot' hreach hreach' rfl rfl rfl rfl
      ⟨hwithin hle', hwithin hle, hstrides⟩
    refine hsound.1 (checkOverlap_oneOfNine hne) _ (Tensor.oneOfNine_addresses hle') ?_
    rw [mul_comm]
    exact Tensor.oneOfNine_addresses hle
  · rintro hsize root root' t input producer hroot hroot' hreach hreach' rfl rfl - hver hcmp
    have hwt := hcmp.range
    have hwi := hcmp.inputRange
    have ht := Tensor.Measured.reach hroot hreach
    have hi := Tensor.Measured.reach hroot' hreach'
    obtain ⟨hno, hcov⟩ := elem_sound ht hi hwt hwi hver
      (ht.formed.checkOverlap_copy producer input).symm
    constructor
    · intro h b hb hb'
      rw [ht.addresses_iff hwt] at hb
      rw [hi.addresses_iff hwi, ← hsize] at hb'
      exact hno h _ hb hb'
    · intro h b hb
      rw [ht.addresses_iff hwt] at hb
      rw [hi.addresses_iff hwi, ← hsize]
      exact hcov h _ hb

/-- Types of one size. -/
theorem overlap_sound_float32_int32 : OverlapSound .float32 .int32 :=
  (overlap_sound_iff .float32 .int32).mpr rfl

/-- A tensor of four `float32`, and a view of the bytes 8 to 11 of its buffer as `int8`, are
reported as disjoint. So is a tensor of 2^64 elements from itself, out of the range. -/
theorem int8_view_missed : (∃ root root' t input : Tensor, root.Fresh ∧ root'.Fresh ∧
    Reach Tensor.step Tensor.InArrays root t ∧ Reach Tensor.step Tensor.InArrays root' input ∧
    t.dtype = .float32 ∧ input.dtype = .int8 ∧ input.addr = t.addr ∧ input.version = t.version ∧
    Comparable t input ∧
    (Entry.copyFromTensor t ⟨0, 0⟩).checkOverlap input = .noOverlap ∧
    t.Addresses 8 ∧ input.Addresses 8) ∧
    ∃ t : Tensor, t.Fresh ∧ t.shapes.prod = 2 ^ 64 ∧
      (Entry.copyFromTensor t ⟨0, 0⟩).checkOverlap t = .noOverlap ∧ t.Addresses 0 := by
  refine ⟨⟨.initExternal 0 16 [4] .float32 0 false, .initExternal 0 16 [16] .int8 0 false, _,
    (ViewOp.view [4] [8]).apply (.initExternal 0 16 [16] .int8 0 false) false,
    .external _ _ _ _ _ (by decide) (by decide) (by decide),
    .external _ _ _ _ _ (by decide) (by decide) (by decide), .init,
    .step .init (a := (.view [4] [8], false)) trivial
      (if_pos ⟨by decide, rfl, rfl, by decide⟩),
    rfl, rfl, rfl, rfl, ⟨by decide, by decide, by decide⟩, by decide, ?_, ?_⟩,
    .initExternal 0 (2 ^ 63) [2 ^ 16, 2 ^ 16, 2 ^ 16, 2 ^ 16] .float32 0 false,
    .external _ _ _ _ _ (by decide) (by decide) (by decide), by decide, by decide, ?_⟩
  · exact ⟨[2], .cons (by decide) .nil, 0, by decide, by decide⟩
  · exact ⟨[0], .cons (by decide) .nil, 0, by decide, by decide⟩
  · exact ⟨[0, 0, 0, 0], by simp [Tensor.initExternal], 0, by decide, by decide⟩

end PtoRuntime.Tmrb
