import Mathlib

/-!
# Strided layouts

A strided view of a block of memory has a shape and a stride for each of its dimensions; the
element at an index lies at the sum of the products of index and stride. An index belongs to
the view when it is below the shape in every dimension, `List.Forall₂ (· < ·) idx shape`. The
row-major strides of a shape are the products of the dimensions after each one; under them the
indices of the shape are numbered from 0 without gaps, and `unravel` finds the index of a
number.
-/

namespace PtoRuntime.Lib

open List

/-- The offset of an index. -/
def dot : List Nat → List Nat → Nat
  | i :: idx, s :: strides => i * s + dot idx strides
  | _, _ => 0

/-- The row-major strides of a shape. -/
def rowMajor : List Nat → List Nat
  | [] => []
  | _ :: shape => shape.prod :: rowMajor shape

/-- The index of a number, row by row. -/
def unravel : List Nat → Nat → List Nat
  | [], _ => []
  | _ :: shape, m => m / shape.prod :: unravel shape (m % shape.prod)

/-- The last index of a shape. -/
def lastIndex (shape : List Nat) : List Nat := shape.map (· - 1)

variable {idx idx' shape shape' strides : List Nat}

@[simp] theorem length_rowMajor (shape : List Nat) : (rowMajor shape).length = shape.length := by
  induction shape with
  | nil => rfl
  | cons n shape ih => rw [rowMajor, length_cons, length_cons, ih]

/-- Row-major offsets stay below the size. -/
theorem dot_rowMajor_lt (h : Forall₂ (· < ·) idx shape) :
    dot idx (rowMajor shape) < shape.prod := by
  induction h with
  | nil => exact Nat.one_pos
  | @cons i n idx shape hi _ ih =>
    rw [rowMajor, dot, prod_cons]
    -- the first dimension weighs as much as all others
    have hle := Nat.mul_le_mul_right shape.prod (Nat.succ_le_of_lt hi)
    rw [Nat.succ_mul] at hle
    omega

/-- `unravel` inverts the row-major offset. -/
theorem unravel_spec {m : Nat} (h : m < shape.prod) :
    Forall₂ (· < ·) (unravel shape m) shape ∧ dot (unravel shape m) (rowMajor shape) = m := by
  induction shape generalizing m with
  | nil => exact ⟨.nil, by simp [unravel, rowMajor, dot] at h ⊢; omega⟩
  | cons n shape ih =>
    rw [prod_cons] at h
    have hpos : 0 < shape.prod := Nat.pos_of_ne_zero fun h0 => by simp [h0] at h
    -- the first digit is the quotient
    obtain ⟨hlt, hdot⟩ := ih (Nat.mod_lt m hpos)
    refine ⟨.cons ((Nat.div_lt_iff_lt_mul hpos).mpr h) hlt, ?_⟩
    rw [unravel, rowMajor, dot, hdot, mul_comm, Nat.div_add_mod]

/-- The last index has the largest offset. -/
theorem dot_le_lastIndex (h : Forall₂ (· < ·) idx shape) :
    dot idx strides ≤ dot (lastIndex shape) strides := by
  induction h generalizing strides with
  | nil => exact le_rfl
  | cons hi _ ih =>
    cases strides with
    | nil => exact le_rfl
    | cons s strides => exact add_le_add (Nat.mul_le_mul_right s (Nat.le_pred_of_lt hi)) ih

theorem lastIndex_lt (h : ∀ n ∈ shape, 0 < n) : Forall₂ (· < ·) (lastIndex shape) shape :=
  forall₂_map_left_iff.mpr (forall₂_same.mpr fun n hn => Nat.sub_lt (h n hn) Nat.one_pos)

/-- A row-major array ends with its last index. -/
theorem succ_dot_lastIndex_rowMajor (h : ∀ n ∈ shape, 0 < n) :
    1 + dot (lastIndex shape) (rowMajor shape) = shape.prod := by
  induction shape with
  | nil => rfl
  | cons n shape ih =>
    obtain ⟨hn, hrest⟩ := forall_mem_cons.mp h
    have ih := ih hrest
    rw [lastIndex, map_cons, rowMajor, dot, prod_cons, ← lastIndex]
    have hsplit : n * shape.prod = (n - 1) * shape.prod + shape.prod := by
      rw [← Nat.succ_mul, Nat.succ_eq_add_one, Nat.sub_add_cancel hn]
    omega

/-! ## Sub-boxes, steps and permutations of the dimensions -/

/-- Offsets add up. -/
theorem dot_zipWith_add (h : idx.length = idx'.length) :
    dot (zipWith (· + ·) idx idx') strides = dot idx strides + dot idx' strides := by
  induction idx generalizing idx' strides with
  | nil => cases idx' <;> cases strides <;> simp_all [dot]
  | cons i idx ih =>
    match idx', strides with
    | i' :: idx', [] => rfl
    | i' :: idx', s :: strides =>
      simp only [zipWith_cons_cons, dot, ih (Nat.succ.inj h)]
      ring

/-- A dimension walked in steps, from an index on. -/
theorem dot_slice {d : Nat} (start step : Nat) (hd : d < idx.length)
    (hlen : idx.length = strides.length) :
    start * strides.getD d 0 + dot idx (strides.set d (strides.getD d 0 * step)) =
      dot (idx.set d (start + idx.getD d 0 * step)) strides := by
  induction idx generalizing d strides with
  | nil => cases hd
  | cons i idx ih =>
    match d, strides with
    -- the dimension itself, or a later one
    | 0, s :: strides =>
      simp only [getD_cons_zero, set_cons_zero, dot]
      ring
    | d + 1, s :: strides =>
      have ih := ih (Nat.lt_of_succ_lt_succ hd) (Nat.succ.inj hlen)
      simp only [set_cons_succ, dot, getD_cons_succ] at ih ⊢
      omega

theorem pos_of_forall₂_lt (h : Forall₂ (· < ·) idx shape) : ∀ n ∈ shape, 0 < n := by
  induction h with
  | nil => simp
  | cons hi _ ih => exact forall_mem_cons.mpr ⟨Nat.zero_lt_of_lt hi, ih⟩

/-- The index of a shortened dimension. -/
theorem getD_lt_of_set {d m : Nat} (h : Forall₂ (· < ·) idx (shape.set d m))
    (hd : d < shape.length) : idx.getD d 0 < m := by
  induction shape generalizing d idx with
  | nil => cases hd
  | cons n shape ih =>
    cases d with
    | zero =>
      obtain ⟨i, idx, hi, -, rfl⟩ := forall₂_cons_right_iff.mp h
      exact hi
    | succ d =>
      obtain ⟨i, idx, -, htail, rfl⟩ := forall₂_cons_right_iff.mp h
      have hlt : idx.getD d 0 < m := ih htail (Nat.lt_of_succ_lt_succ hd)
      exact hlt

/-- An index with one entry replaced. -/
theorem forall₂_set {d v m : Nat} (h : Forall₂ (· < ·) idx (shape.set d m))
    (hv : v < shape.getD d 0) : Forall₂ (· < ·) (idx.set d v) shape := by
  induction shape generalizing d idx with
  | nil => simpa using h
  | cons n shape ih =>
    cases d with
    | zero =>
      obtain ⟨i, idx, hi, htail, rfl⟩ := forall₂_cons_right_iff.mp h
      exact .cons (by simpa using hv) htail
    | succ d =>
      obtain ⟨i, idx, hi, htail, rfl⟩ := forall₂_cons_right_iff.mp h
      exact .cons hi (ih htail (by simpa using hv))

theorem dot_map_map {ι : Type} (l : List ι) (f g : ι → Nat) :
    dot (l.map f) (l.map g) = (l.map fun k => f k * g k).sum := by
  induction l with
  | nil => rfl
  | cons k l ih => simp only [map_cons, dot, ih, sum_cons]

theorem map_range_getD (l : List Nat) : (range l.length).map (l.getD · 0) = l :=
  ext_getElem (by simp) fun i h h' => by simp [h']

/-- The index in the order of the original dimensions. -/
def unpermute (order idx : List Nat) : List Nat :=
  (range order.length).map fun k => idx.getD (order.idxOf k) 0

section Permute

variable {order : List Nat} (hperm : order ~ range order.length)
include hperm

theorem map_idxOf (hlen : idx.length = order.length) :
    order.map (fun k => idx.getD (order.idxOf k) 0) = idx := by
  have hnodup : order.Nodup := hperm.nodup_iff.mpr nodup_range
  exact ext_getElem (by simp [hlen]) fun i h h' => by simp [hnodup.idxOf_getElem, h']

/-- The offset of a permuted view. -/
theorem dot_unpermute (hlen : idx.length = order.length) (hs : strides.length = order.length) :
    dot (unpermute order idx) strides = dot idx (order.map (strides.getD · 0)) := by
  calc dot (unpermute order idx) strides
      = dot (unpermute order idx) ((range order.length).map (strides.getD · 0)) := by
        rw [← hs, map_range_getD]
    _ = dot (order.map fun k => idx.getD (order.idxOf k) 0) (order.map (strides.getD · 0)) := by
        rw [unpermute, dot_map_map, dot_map_map, (hperm.map _).sum_eq]
    _ = dot idx (order.map (strides.getD · 0)) := by rw [map_idxOf hperm hlen]

/-- Indices of a permuted view are in range. -/
theorem forall₂_unpermute (hs : shape.length = order.length)
    (h : Forall₂ (· < ·) idx (order.map (shape.getD · 0))) :
    Forall₂ (· < ·) (unpermute order idx) shape := by
  have hlen : idx.length = order.length := by simpa using h.length_eq
  rw [← map_idxOf hperm hlen, forall₂_map_left_iff, forall₂_map_right_iff, forall₂_same] at h
  rw [unpermute, ← map_range_getD shape, hs, forall₂_map_left_iff, forall₂_map_right_iff,
    forall₂_same]
  exact fun k hk => h k (hperm.mem_iff.mpr hk)

end Permute

end PtoRuntime.Lib
