import PtoRuntime.Lib.Strided
import PtoRuntime.Tmrb.Tensor

/-!
# Views of a tensor

A tensor is made over a whole buffer, in row-major order, and `view`, `transpose`, `permute`,
`slice` and `reshape` make further ones that address parts of it. All of them rewrite the shape,
the strides and the start offset; `refresh_derived` then computes the extent and whether the
view is contiguous.

Strides and slice lengths are computed in `uint32_t`, extents and offsets in `uint64_t`. The
assertions of the operations do not say that these do not wrap, and `permute` does not assert
that its order names every dimension once. `reshape` does not compare the number of dimensions
with the size of the arrays either: a sixth one is written behind `shapes`, where the struct has
`extent_elem_cache`.

Main results: `copies_agree`, `reshape_overruns`, `view_algebra`, `slice_loses_rows`.
-/

namespace PtoRuntime.Tmrb

open Lib List

namespace Tensor

/-- `init_external`. -/
def initExternal (addr size : Nat) (shapes : List Nat) (dtype : DataType) (version : Int)
    (manualDep : Bool) : Tensor where
  addr := addr
  size := size
  owner := none
  startOffset := 0
  version := version
  dtype := dtype
  manualDep := manualDep
  isContiguous := true
  shapes := shapes
  extentElemCache := (rowMajorStrides shapes).2
  strides := (rowMajorStrides shapes).1

/-- `init_from_create_info`: the version of a create-info is 0. -/
def initFromCreateInfo (info : TensorCreateInfo) (manualDep : Bool) (addr size : Nat) : Tensor :=
  initExternal addr size info.shapes info.dtype 0 manualDep

/-- `init_from`. -/
def initFrom (t : Tensor) : Tensor :=
  if t.isContiguous ∧ t.startOffset = 0 then
    { t with
      strides := (rowMajorStrides t.shapes).1
      extentElemCache := (rowMajorStrides t.shapes).2 }
  else t

/-- `compute_flat_offset`. -/
def computeFlatOffset (t : Tensor) (indices : List Nat) : Nat :=
  (t.startOffset + dot indices t.strides) % 2 ^ 64

/-- The strides are the running products of the shape, in `uint64_t`. -/
def rowMajor64 : List Nat → List Nat → Bool
  | _ :: shapes, s :: strides => s = shapes.prod % 2 ^ 64 && rowMajor64 shapes strides
  | _, _ => true

/-- `refresh_derived`. -/
def refreshDerived (t : Tensor) : Tensor :=
  { t with
    extentElemCache := (1 + dot (lastIndex t.shapes) t.strides) % 2 ^ 64
    isContiguous := rowMajor64 t.shapes t.strides }

/-- What the struct holds. Behind the five entries of `shapes` lie the two words of
`extent_elem_cache`, which is written last: it takes the place of a sixth and a seventh
dimension. -/
def stored (t : Tensor) : Tensor :=
  { t with
    shapes := t.shapes.take maxTensorDims ++
      [t.extentElemCache % 2 ^ 32, t.extentElemCache / 2 ^ 32].take (t.ndims - maxTensorDims) }

/-- Dimensions that fit the array stay as they were written. -/
theorem stored_of_le {t : Tensor} (h : t.ndims ≤ maxTensorDims) : t.stored = t := by
  rw [stored, Nat.sub_eq_zero_of_le h, take_zero, append_nil, take_of_length_le h]

end Tensor

/-- The operations that make a tensor from another one. -/
inductive ViewOp
  | view (shapes offsets : List Nat)
  | transpose (x y : Nat)
  | permute (order : List Nat)
  | slice (dim start stop step : Nat)
  | reshape (shapes : List Nat)

namespace ViewOp

/-- The dimensions `x` and `y` swapped. -/
def swapped (n x y : Nat) : List Nat := (range n).map (Equiv.swap x y)

/-- The result of an operation, whose `manual_dep` is an argument. -/
def apply (t : Tensor) (manualDep : Bool) : ViewOp → Tensor
  | view shapes offsets =>
    { t with shapes, startOffset := t.computeFlatOffset offsets, manualDep }.refreshDerived
  | transpose x y =>
    { t with
      shapes := (swapped t.ndims x y).map (t.shapes.getD · 0)
      strides := (swapped t.ndims x y).map (t.strides.getD · 0)
      manualDep }.refreshDerived
  | permute order =>
    { t with
      shapes := order.map (t.shapes.getD · 0)
      strides := order.map (t.strides.getD · 0)
      manualDep }.refreshDerived
  | slice dim start stop step =>
    { t with
      startOffset := (t.startOffset + start * t.strides.getD dim 0) % 2 ^ 64
      shapes := t.shapes.set dim ((stop + 2 ^ 32 - start + step - 1) % 2 ^ 32 / step)
      strides := t.strides.set dim (t.strides.getD dim 0 * step % 2 ^ 32)
      manualDep }.refreshDerived
  | reshape shapes =>
    { t with
      shapes, manualDep
      strides := (rowMajorStrides shapes).1
      isContiguous := true
      extentElemCache := (rowMajorStrides shapes).2 }.stored

/-- The arguments fit the tensor, and are `uint32_t`; `reshape` of a view that is not contiguous
stops the program. With eight dimensions or more `reshape` writes over the strides too, which is
not modelled. -/
def Fits (t : Tensor) : ViewOp → Prop
  | view shapes offsets =>
    shapes.length = t.ndims ∧ offsets.length = t.ndims ∧ ∀ n ∈ shapes, n < 2 ^ 32
  | transpose x y => x < t.ndims ∧ y < t.ndims
  | permute order => order.length = t.ndims ∧ ∀ k ∈ order, k < t.ndims
  | slice dim start _ _ => dim < t.ndims ∧ start < 2 ^ 32
  | reshape shapes =>
    t.isContiguous = true ∧ shapes.length ≤ maxTensorDims + 2 ∧ ∀ n ∈ shapes, n < 2 ^ 32

/-- Condition on a call: a `reshape` asks for no more dimensions than the arrays have. -/
def InArrays : ViewOp → Prop
  | reshape shapes => shapes.length ≤ maxTensorDims
  | view .. | transpose .. | permute _ | slice .. => True

/-- The other assertions of the operations. -/
def Asserts (t : Tensor) : ViewOp → Prop
  | view shapes offsets =>
    Forall₂ (· ≤ ·) ((zipWith (· + ·) offsets shapes).map (· % 2 ^ 32)) t.shapes
  | transpose _ _ | permute _ => True
  | slice dim start stop step => 1 ≤ step ∧ start < stop ∧ stop ≤ t.shapes.getD dim 0
  | reshape shapes => shapes.prod % 2 ^ 64 = t.numel

instance (t : Tensor) (op : ViewOp) : Decidable (op.Fits t) := by
  cases op <;> unfold Fits <;> infer_instance

end ViewOp

namespace Tensor

/-- One operation, with the `manual_dep` of the result. On a tensor with more dimensions than
the arrays have the operations read words that nothing has written. -/
def step (t : Tensor) (op : ViewOp × Bool) : Option Tensor :=
  if t.ndims ≤ maxTensorDims ∧ op.1.Fits t then some (op.1.apply t op.2) else none

/-- A tensor as the constructors make it. -/
inductive Fresh : Tensor → Prop
  | external {shapes : List Nat} (addr size : Nat) (dtype : DataType) (version : Int)
      (manualDep : Bool) : shapes ≠ [] → shapes.length ≤ maxTensorDims →
      (∀ n ∈ shapes, n < 2 ^ 32) → Fresh (initExternal addr size shapes dtype version manualDep)
  | created (info : TensorCreateInfo) (manualDep : Bool) (addr size : Nat) : info.shapes ≠ [] →
      Fresh (initFromCreateInfo info manualDep addr size)

/-- Condition on an operation of a chain: `ViewOp.InArrays`. -/
def InArrays (_ : Tensor) (op : ViewOp × Bool) : Prop := op.1.InArrays

end Tensor

/-- The strides wrap in 32 bits. -/
theorem rowMajorStrides_eq (shapes : List Nat) :
    rowMajorStrides shapes = ((rowMajor shapes).map (· % 2 ^ 32), shapes.prod % 2 ^ 32) := by
  induction shapes with
  | nil => rfl
  | cons n shapes ih =>
    rw [rowMajorStrides, ih, rowMajor, map_cons, prod_cons]
    simp only [Prod.mk.injEq, true_and]
    rw [Nat.mod_mul_mod, mul_comm]

namespace Tensor

variable {t t' : Tensor} {op : ViewOp} {manualDep : Bool}

/-! ## Copies -/

/-- What holds of every tensor, whatever has wrapped. -/
structure Formed (t : Tensor) : Prop where
  len : t.strides.length = t.shapes.length
  dims : ∀ n ∈ t.shapes, n < 2 ^ 32
  narrow : ∀ s ∈ t.strides, s < 2 ^ 32
  rowMajor : t.isContiguous = true → t.strides = (rowMajorStrides t.shapes).1

/-- A stride below 2^32 that is a product modulo 2^64 is that product modulo 2^32. -/
theorem eq_of_rowMajor64 {shapes strides : List Nat} (hlen : strides.length = shapes.length)
    (hs : ∀ s ∈ strides, s < 2 ^ 32) (h : rowMajor64 shapes strides = true) :
    strides = (rowMajorStrides shapes).1 := by
  rw [rowMajorStrides_eq]
  induction shapes generalizing strides with
  | nil => exact length_eq_zero_iff.mp hlen
  | cons n shapes ih =>
    cases strides with
    | nil => cases hlen
    | cons s strides =>
      obtain ⟨hlt, hrest⟩ := forall_mem_cons.mp hs
      simp only [rowMajor64, Bool.and_eq_true, decide_eq_true_eq] at h
      have hmod : s = shapes.prod % 2 ^ 32 := by
        rw [← Nat.mod_eq_of_lt hlt, h.1, Nat.mod_mod_of_dvd _ (by decide)]
      exact congrArg₂ cons hmod (ih (Nat.succ.inj hlen) hrest h.2)

/-- Derived fields agree after a refresh. -/
theorem Formed.refreshDerived (hlen : t.strides.length = t.shapes.length)
    (hdims : ∀ n ∈ t.shapes, n < 2 ^ 32) (hs : ∀ s ∈ t.strides, s < 2 ^ 32) :
    t.refreshDerived.Formed :=
  ⟨hlen, hdims, hs, eq_of_rowMajor64 hlen hs⟩

theorem Formed.of_rowMajorStrides (h : t.strides = (rowMajorStrides t.shapes).1)
    (hdims : ∀ n ∈ t.shapes, n < 2 ^ 32) : t.Formed := by
  refine ⟨by simp [h, rowMajorStrides_eq], hdims, fun s hs => ?_, fun _ => h⟩
  rw [h, rowMajorStrides_eq] at hs
  obtain ⟨_, -, rfl⟩ := mem_map.mp hs
  exact Nat.mod_lt _ (by decide)

theorem getD_lt {l : List Nat} {b : Nat} (h : ∀ n ∈ l, n < b) (hb : 0 < b) (k : Nat) :
    l.getD k 0 < b := by
  rw [getD_eq_getElem?_getD]
  cases hk : l[k]? with
  | none => exact hb
  | some n => exact h n (mem_of_getElem? hk)

theorem mem_set_lt {l : List Nat} {b d v : Nat} (h : ∀ n ∈ l, n < b) (hv : v < b) :
    ∀ n ∈ l.set d v, n < b := fun n hn => by
  rcases mem_or_eq_of_mem_set hn with hn | rfl
  · exact h n hn
  · exact hv

/-- What a `reshape` within the arrays leaves in the struct. -/
theorem reshape_apply {shapes : List Nat} (h : (ViewOp.reshape shapes).InArrays) :
    (ViewOp.reshape shapes).apply t manualDep =
      { t with
        shapes, manualDep
        strides := (rowMajorStrides shapes).1
        isContiguous := true
        extentElemCache := (rowMajorStrides shapes).2 } :=
  stored_of_le h

/-- Views are well formed. -/
theorem Formed.apply (h : t.Formed) (hfit : op.Fits t) (hin : op.InArrays) :
    (op.apply t manualDep).Formed := by
  have hword : 0 < 2 ^ 32 := by decide
  cases op with
  | view shapes offsets => exact .refreshDerived (h.len.trans hfit.1.symm) hfit.2.2 h.narrow
  | transpose x y | permute order =>
    exact .refreshDerived (by simp) (by simpa using fun k _ => getD_lt h.dims hword k)
      (by simpa using fun k _ => getD_lt h.narrow hword k)
  | slice dim start stop step =>
    refine .refreshDerived (by simp [h.len]) (mem_set_lt h.dims ?_) (mem_set_lt h.narrow ?_)
    · exact lt_of_le_of_lt (Nat.div_le_self ..) (Nat.mod_lt _ hword)
    · exact Nat.mod_lt _ hword
  | reshape shapes =>
    rw [reshape_apply hin]
    exact .of_rowMajorStrides rfl hfit.2.2

/-- The constructors write row-major strides, with `uint32_t` dimensions. -/
theorem Fresh.rowMajorStrides_eq (h : t.Fresh) :
    t.startOffset = 0 ∧ t.isContiguous = true ∧ t.strides = (rowMajorStrides t.shapes).1 ∧
      ∀ n ∈ t.shapes, n < 2 ^ 32 := by
  cases h with
  | external _ _ _ _ _ _ _ hdims => exact ⟨rfl, rfl, rfl, hdims⟩
  | created info => exact ⟨rfl, rfl, rfl, info.shape_lt⟩

/-- Fresh tensors are well formed. -/
theorem Fresh.formed (h : t.Fresh) : t.Formed :=
  .of_rowMajorStrides h.rowMajorStrides_eq.2.2.1 h.rowMajorStrides_eq.2.2.2

/-- Every view of a fresh tensor is well formed. -/
theorem Formed.reach {root : Tensor} (hroot : root.Fresh) (h : Reach step InArrays root t) :
    t.Formed := by
  refine h.invariant hroot.formed fun _ _ _ _ ht hin hst => ?_
  obtain ⟨⟨-, hfit⟩, ⟨⟩⟩ := Option.ite_none_right_eq_some.mp hst
  exact ht.apply hfit hin

/-- `init_from` differs from its source in the cached extent alone, which is read of views
that are not contiguous. -/
theorem Formed.initFrom_eq (h : t.Formed) :
    ∃ cache, t.initFrom = { t with extentElemCache := cache } ∧
      t.initFrom.extentElem = t.extentElem := by
  unfold initFrom
  split_ifs with hfast
  · refine ⟨(rowMajorStrides t.shapes).2, by rw [← h.rowMajor hfast.1], ?_⟩
    simp [extentElem, hfast.1, numel]
  · exact ⟨_, rfl, rfl⟩

end Tensor

/-- An entry with all fields of the tensor. -/
def Entry.fullCopy (t : Tensor) (producer : TaskId) : Entry :=
  ⟨t.addr, producer, t.startOffset, t.version, t.dtype, t.isContiguous, t.shapes,
    t.extentElemCache, t.strides⟩

theorem Tensor.Formed.copyFromTensor_eq {t : Tensor} (h : t.Formed) (producer : TaskId) :
    ∃ cache, Entry.copyFromTensor t producer =
        { Entry.fullCopy t producer with extentElemCache := cache } ∧
      (Entry.copyFromTensor t producer).effectiveExtentElem = t.extentElem := by
  by_cases hfast : t.isContiguous = true ∧ t.startOffset = 0
  · refine ⟨t.numel, ?_, ?_⟩
    · simp [Entry.copyFromTensor, Entry.fullCopy, hfast, ← h.rowMajor hfast.1]
    · simp [Entry.copyFromTensor, Entry.effectiveExtentElem, Tensor.extentElem, hfast.1,
        Tensor.numel]
  · exact ⟨t.extentElemCache, by simp only [Entry.copyFromTensor, Entry.fullCopy, if_neg hfast],
      by simp only [Entry.copyFromTensor, Entry.effectiveExtentElem,
        Tensor.extentElem, Tensor.numel,
        if_neg hfast]⟩

/-- Both copies compare alike. -/
theorem Tensor.Formed.checkOverlap_copy {t : Tensor} (h : t.Formed) (producer : TaskId)
    (input : Tensor) : (Entry.copyFromTensor t producer).checkOverlap input =
      (Entry.fullCopy t producer).checkOverlap input := by
  obtain ⟨cache, hentry, hext⟩ := h.copyFromTensor_eq producer
  have hfull : (Entry.fullCopy t producer).effectiveExtentElem = t.extentElem := rfl
  unfold Entry.checkOverlap
  rw [hext, hfull, hentry]
  rfl

/--
**Fast-path copies.** `init_from` and `copy_from_tensor` recompute the strides of a contiguous
tensor with offset 0 instead of reading them. For every tensor that the constructors and the
view operations make, with any arguments but a `reshape` to more dimensions than the arrays have,
the copy has the same strides and the same extent, and `check_overlap` and `compute_flat_offset`
answer as on the original.
-/
theorem copies_agree {root t : Tensor} (hroot : root.Fresh)
    (h : Reach Tensor.step Tensor.InArrays root t) (producer : TaskId) :
    (t.initFrom.strides = t.strides ∧ t.initFrom.extentElem = t.extentElem) ∧
    ((Entry.copyFromTensor t producer).strides = t.strides ∧
      (Entry.copyFromTensor t producer).effectiveExtentElem = t.extentElem) ∧
    (∀ indices, t.initFrom.computeFlatOffset indices = t.computeFlatOffset indices) ∧
    (∀ e : Entry, e.checkOverlap t.initFrom = e.checkOverlap t) ∧
    (∀ input, (Entry.copyFromTensor t producer).checkOverlap input =
      (Entry.fullCopy t producer).checkOverlap input) := by
  have hformed := Tensor.Formed.reach hroot h
  obtain ⟨cache, hcopy, hext⟩ := hformed.initFrom_eq
  obtain ⟨cache', hentry, hext'⟩ := hformed.copyFromTensor_eq producer
  refine ⟨⟨by rw [hcopy], hext⟩, ⟨by rw [hentry]; rfl, hext'⟩, fun indices => by rw [hcopy]; rfl,
    fun e => ?_, hformed.checkOverlap_copy producer⟩
  unfold Entry.checkOverlap
  rw [hext, hcopy]
  rfl

/-- A tensor of 2^17 by 2^16 elements: the number of elements does not fit a `uint32_t`. -/
def wide : Tensor := .initExternal 0 (2 ^ 35) [2 ^ 17, 2 ^ 16] .float32 0 false

theorem wide_fresh : wide.Fresh := .external _ _ _ _ _ (by decide) (by decide) (by decide)

/-- An extent beyond 32 bits. -/
theorem copies_agree_wide : wide.initFrom.extentElem = 2 ^ 33 ∧
    (Entry.copyFromTensor wide ⟨0, 0⟩).strides = [2 ^ 16, 1] := by
  obtain ⟨⟨-, hext⟩, ⟨hstrides, -⟩, -⟩ := copies_agree wide_fresh .init ⟨0, 0⟩
  exact ⟨hext.trans (by decide), hstrides.trans (by decide)⟩

/-- Two rows of three elements with four dimensions of one element in front pass the assertion
of `reshape`. The sixth dimension is overwritten by the number of elements, 6: the tensor reports
12 elements, and a copy of it has other strides. -/
theorem reshape_overruns : ∃ root t : Tensor, root.Fresh ∧ Reach Tensor.step free root t ∧
    (ViewOp.reshape [1, 1, 1, 1, 2, 3]).Asserts root ∧
    t = (ViewOp.reshape [1, 1, 1, 1, 2, 3]).apply root false ∧
    t.shapes = [1, 1, 1, 1, 2, 6] ∧ root.extentElem = 6 ∧ t.extentElem = 12 ∧
    t.strides = [6, 6, 6, 6, 3, 1] ∧
    (Entry.copyFromTensor t ⟨0, 0⟩).strides = [12, 12, 12, 12, 6, 1] := by
  refine ⟨.initExternal 0 24 [2, 3] .float32 0 false, _,
    .external _ _ _ _ _ (by decide) (by decide) (by decide),
    .step .init (a := (.reshape [1, 1, 1, 1, 2, 3], false)) trivial (if_pos ?_),
    rfl, rfl, ?_⟩
  · exact ⟨by decide, rfl, by decide, by decide⟩
  · decide

/-! ## The algebra of views -/

namespace ViewOp

/-- Condition on an operation: its arithmetic does not wrap, no new stride is 0, a `permute`
names every dimension once, and a `reshape` stays within the arrays. -/
def Exact (t : Tensor) : ViewOp → Prop
  | view shapes offsets => ∀ n ∈ zipWith (· + ·) offsets shapes, n < 2 ^ 32
  | transpose _ _ => True
  | permute order => order ~ range t.ndims
  | slice dim start stop step =>
    stop - start + step - 1 < 2 ^ 32 ∧ t.strides.getD dim 0 * step < 2 ^ 32
  | reshape shapes =>
    shapes.length ≤ maxTensorDims ∧ ∀ s ∈ rowMajor shapes, 0 < s ∧ s < 2 ^ 32

/-- Exact views fit into the arrays. -/
theorem Exact.inArrays {t : Tensor} {op : ViewOp} (h : op.Exact t) : op.InArrays := by
  cases op with
  | reshape shapes => exact h.1
  | _ => trivial

/-- The index of the source that an index of the result denotes. -/
def denotes (t : Tensor) (idx : List Nat) : ViewOp → List Nat
  | view _ offsets => zipWith (· + ·) offsets idx
  | transpose x y => unpermute (swapped t.ndims x y) idx
  | permute order => unpermute order idx
  | slice dim start _ step => idx.set dim (start + idx.getD dim 0 * step)
  | reshape shapes => unravel t.shapes (dot idx (rowMajor shapes))

theorem slice_len {start stop step : Nat} (hstart : start < stop)
    (h : stop - start + step - 1 < 2 ^ 32) :
    (stop + 2 ^ 32 - start + step - 1) % 2 ^ 32 / step = (stop - start + step - 1) / step := by
  rw [show stop + 2 ^ 32 - start + step - 1 = stop - start + step - 1 + 2 ^ 32 by omega,
    Nat.add_mod_right, Nat.mod_eq_of_lt h]

theorem swapped_perm {n x y : Nat} (hx : x < n) (hy : y < n) : swapped n x y ~ range n := by
  refine (perm_ext_iff_of_nodup (nodup_range.map (Equiv.swap x y).injective) nodup_range).mpr
    fun k => ?_
  simp only [mem_map, mem_range]
  refine ⟨?_, fun hk => ⟨Equiv.swap x y k, ?_, Equiv.swap_apply_self x y k⟩⟩
  · rintro ⟨j, hj, rfl⟩
    rw [Equiv.swap_apply_def]
    split_ifs <;> assumption
  · rw [Equiv.swap_apply_def]
    split_ifs <;> assumption

end ViewOp

namespace Tensor

variable {t : Tensor} {op : ViewOp} {manualDep : Bool}

/-- What a tensor says about itself is right. -/
structure Sound (t : Tensor) : Prop where
  formed : t.Formed
  pos : ∀ s ∈ t.strides, 0 < s
  contiguous : t.isContiguous = true ↔ t.strides = rowMajor t.shapes
  extent : (∀ n ∈ t.shapes, 0 < n) → t.extentElem = 1 + dot (lastIndex t.shapes) t.strides
  below : ∀ idx, Forall₂ (· < ·) idx t.shapes → t.startOffset + dot idx t.strides < 2 ^ 64 - 1

theorem numel_eq (t : Tensor) : t.numel = t.shapes.prod % 2 ^ 64 := by
  have h := TensorCreateInfo.foldl_mul_mod t.shapes 1
  rwa [one_mul] at h

theorem prod_lt {shapes : List Nat} (hdims : ∀ n ∈ shapes, n < 2 ^ 32)
    (hs : ∀ s ∈ rowMajor shapes, s < 2 ^ 32) : shapes.prod < 2 ^ 64 - 1 := by
  cases shapes with
  | nil => decide
  | cons n shapes =>
    have hn := Nat.le_pred_of_lt (hdims n (mem_cons_self ..))
    have hrest := Nat.le_pred_of_lt (hs shapes.prod (mem_cons_self ..))
    rw [prod_cons]
    exact lt_of_le_of_lt (Nat.mul_le_mul hn hrest) (by decide)

/-- Contiguity, where nothing wraps. -/
theorem rowMajor64_iff {shapes strides : List Nat} (hlen : strides.length = shapes.length)
    (hdims : ∀ n ∈ shapes, n < 2 ^ 32) (hs : ∀ s ∈ strides, s < 2 ^ 32) :
    rowMajor64 shapes strides = true ↔ strides = rowMajor shapes := by
  induction shapes generalizing strides with
  | nil => simp [rowMajor64, length_eq_zero_iff.mp hlen, rowMajor]
  | cons n shapes ih =>
    cases strides with
    | nil => cases hlen
    | cons s strides =>
      obtain ⟨-, hrest⟩ := forall_mem_cons.mp hs
      have ih := ih (Nat.succ.inj hlen) (forall_mem_cons.mp hdims).2 hrest
      -- the inner strides are exact, so the product of the inner dimensions does not wrap
      have hmod (h : strides = rowMajor shapes) : shapes.prod % 2 ^ 64 = shapes.prod :=
        Nat.mod_eq_of_lt (lt_of_lt_of_le
          (prod_lt (forall_mem_cons.mp hdims).2 (h ▸ hrest)) (Nat.sub_le ..))
      rw [rowMajor64, rowMajor, Bool.and_eq_true, decide_eq_true_eq, ih, cons.injEq]
      exact and_congr_left fun h => by rw [hmod h]

theorem extentElem_of_rowMajor (hf : t.Formed) (hc : t.isContiguous = true)
    (h : t.strides = rowMajor t.shapes) (hpos : ∀ n ∈ t.shapes, 0 < n) :
    t.extentElem = 1 + dot (lastIndex t.shapes) t.strides := by
  have hlt := prod_lt hf.dims (h ▸ hf.narrow)
  rw [extentElem, if_pos hc, numel_eq, h, succ_dot_lastIndex_rowMajor hpos, Nat.mod_eq_of_lt]
  exact lt_of_lt_of_le hlt (Nat.sub_le ..)

theorem Sound.refreshDerived (hf : t.refreshDerived.Formed) (hpos : ∀ s ∈ t.strides, 0 < s)
    (hbelow : ∀ idx, Forall₂ (· < ·) idx t.shapes →
      t.startOffset + dot idx t.strides < 2 ^ 64 - 1) : t.refreshDerived.Sound := by
  have hiff := rowMajor64_iff hf.len hf.dims hf.narrow
  refine ⟨hf, hpos, hiff, fun hne => ?_, hbelow⟩
  by_cases hc : rowMajor64 t.shapes t.strides = true
  · exact extentElem_of_rowMajor hf hc (hiff.mp hc) hne
  · have hlast : t.startOffset + dot (lastIndex t.shapes) t.strides < 2 ^ 64 - 1 :=
      hbelow _ (lastIndex_lt hne)
    rw [extentElem, if_neg (show ¬ t.refreshDerived.isContiguous = true from hc)]
    exact Nat.mod_eq_of_lt (by omega)

/-- Strides that do not wrap are the row-major ones. -/
theorem rowMajorStrides_of_lt {shapes : List Nat} (h : ∀ s ∈ rowMajor shapes, 0 < s ∧ s < 2 ^ 32) :
    (rowMajorStrides shapes).1 = rowMajor shapes := by
  rw [rowMajorStrides_eq]
  exact (map_congr_left fun s hs => Nat.mod_eq_of_lt (h s hs).2).trans (map_id _)

theorem forall₂_lt_of_le {offsets shapes idx dims : List Nat}
    (h : Forall₂ (· ≤ ·) (zipWith (· + ·) offsets shapes) dims)
    (hlen : offsets.length = shapes.length) (hidx : Forall₂ (· < ·) idx shapes) :
    Forall₂ (· < ·) (zipWith (· + ·) offsets idx) dims := by
  induction hidx generalizing offsets dims with
  | nil =>
    rw [length_eq_zero_iff.mp hlen] at h ⊢
    simpa using h
  | cons hi _ ih =>
    match offsets, hlen with
    | o :: offsets, hlen =>
      obtain ⟨n, dims, hn, hrest, rfl⟩ := forall₂_cons_left_iff.mp h
      exact .cons (lt_of_lt_of_le (Nat.add_lt_add_left hi o) hn) (ih hrest (Nat.succ.inj hlen))

/-- **One operation.** An index of the result denotes an index of the source, and both name
the same element. -/
theorem Sound.denotes (h : t.Sound) (hfit : op.Fits t) (has : op.Asserts t) (hex : op.Exact t)
    {idx : List Nat} (hidx : Forall₂ (· < ·) idx (op.apply t manualDep).shapes) :
    Forall₂ (· < ·) (op.denotes t idx) t.shapes ∧
      (op.apply t manualDep).startOffset + dot idx (op.apply t manualDep).strides =
        t.startOffset + dot (op.denotes t idx) t.strides := by
  have hperm {order : List Nat} (hp : order ~ range t.ndims)
      (hidx : Forall₂ (· < ·) idx (order.map (t.shapes.getD · 0))) :
      Forall₂ (· < ·) (unpermute order idx) t.shapes ∧
        t.startOffset + dot idx (order.map (t.strides.getD · 0)) =
          t.startOffset + dot (unpermute order idx) t.strides := by
    have hlen : t.shapes.length = order.length := (hp.length_eq.trans length_range).symm
    have hp : order ~ range order.length := hlen ▸ hp
    exact ⟨forall₂_unpermute hp hlen hidx, by
      rw [dot_unpermute hp (by simpa using hidx.length_eq) (h.formed.len.trans hlen)]⟩
  cases op with
  | view shapes offsets =>
    have hsums : (zipWith (· + ·) offsets shapes).map (· % 2 ^ 32) =
        zipWith (· + ·) offsets shapes :=
      (map_congr_left fun n hn => Nat.mod_eq_of_lt (hex n hn)).trans (map_id _)
    rw [ViewOp.Asserts, hsums] at has
    have hvalid := forall₂_lt_of_le has (hfit.2.1.trans hfit.1.symm) hidx
    have hlen : offsets.length = idx.length := by
      rw [hidx.length_eq]
      exact hfit.2.1.trans hfit.1.symm
    have hsum : dot (zipWith (· + ·) offsets idx) t.strides =
      dot offsets t.strides + dot idx t.strides := dot_zipWith_add hlen
    have hbelow := h.below _ hvalid
    rw [hsum] at hbelow
    refine ⟨hvalid, ?_⟩
    show (t.startOffset + dot offsets t.strides) % 2 ^ 64 + dot idx t.strides = _
    rw [Nat.mod_eq_of_lt (by omega), ViewOp.denotes, hsum, add_assoc]
  | transpose x y => exact hperm (ViewOp.swapped_perm hfit.1 hfit.2) hidx
  | permute order => exact hperm hex hidx
  | slice dim start stop step =>
    obtain ⟨hstep, hstart, hstop⟩ := has
    have hdim : dim < idx.length := by
      rw [hidx.length_eq]
      exact lt_of_lt_of_eq hfit.1 (length_set ..).symm
    have hlen : idx.length = t.strides.length := by
      rw [hidx.length_eq, h.formed.len]
      exact length_set ..
    have hlast : start + idx.getD dim 0 * step < stop := by
      have hi : idx.getD dim 0 < (stop - start + step - 1) / step :=
        ViewOp.slice_len hstart hex.1 ▸ getD_lt_of_set hidx hfit.1
      have hle := (Nat.le_div_iff_mul_le hstep).mp hi
      rw [Nat.succ_mul] at hle
      omega
    have hvalid : Forall₂ (· < ·) (idx.set dim (start + idx.getD dim 0 * step)) t.shapes :=
      forall₂_set hidx (lt_of_lt_of_le hlast hstop)
    have hbelow := h.below _ hvalid
    have hdot := dot_slice start step hdim hlen
    refine ⟨hvalid, ?_⟩
    show (t.startOffset + start * t.strides.getD dim 0) % 2 ^ 64 +
      dot idx (t.strides.set dim (t.strides.getD dim 0 * step % 2 ^ 32)) = _
    rw [Nat.mod_eq_of_lt hex.2, Nat.mod_eq_of_lt (by omega), ViewOp.denotes, add_assoc, hdot]
  | reshape shapes =>
    rw [reshape_apply hex.1] at hidx ⊢
    have hsrc := h.contiguous.mp hfit.1
    have hnew := prod_lt hfit.2.2 fun s hs => (hex.2 s hs).2
    have hold := prod_lt h.formed.dims (hsrc ▸ h.formed.narrow)
    have hprod : shapes.prod = t.shapes.prod := by
      have hmod : shapes.prod % 2 ^ 64 = t.shapes.prod % 2 ^ 64 := has.trans t.numel_eq
      rwa [Nat.mod_eq_of_lt (by omega), Nat.mod_eq_of_lt (by omega)] at hmod
    obtain ⟨hvalid, hdot⟩ := unravel_spec (hprod ▸ dot_rowMajor_lt hidx)
    refine ⟨hvalid, ?_⟩
    show t.startOffset + dot idx (rowMajorStrides shapes).1 = _
    rw [rowMajorStrides_of_lt hex.2, hsrc]
    exact congrArg _ hdot.symm

/-- A checked view keeps the algebra. -/
theorem Sound.apply (h : t.Sound) (hfit : op.Fits t) (has : op.Asserts t) (hex : op.Exact t) :
    (op.apply t manualDep).Sound := by
  have hformed : (op.apply t manualDep).Formed := h.formed.apply hfit hex.inArrays
  have hbelow (idx : List Nat) (hidx : Forall₂ (· < ·) idx (op.apply t manualDep).shapes) :
      (op.apply t manualDep).startOffset + dot idx (op.apply t manualDep).strides < 2 ^ 64 - 1 := by
    obtain ⟨hvalid, heq⟩ := h.denotes hfit has hex hidx
    exact heq ▸ h.below _ hvalid
  have hget {k : Nat} (hk : k < t.ndims) : 0 < t.strides.getD k 0 := by
    have hk : k < t.strides.length := h.formed.len ▸ hk
    rw [getD_eq_getElem _ _ hk]
    exact h.pos _ (getElem_mem hk)
  -- every kind of view but `reshape` keeps positive strides
  cases op with
  | view shapes offsets => exact .refreshDerived hformed h.pos hbelow
  | transpose x y =>
    refine .refreshDerived hformed ?_ hbelow
    rintro s hs
    obtain ⟨k, hk, rfl⟩ := mem_map.mp hs
    exact hget (mem_range.mp ((ViewOp.swapped_perm hfit.1 hfit.2).mem_iff.mp hk))
  | permute order =>
    refine .refreshDerived hformed ?_ hbelow
    rintro s hs
    obtain ⟨k, hk, rfl⟩ := mem_map.mp hs
    exact hget (hfit.2 k hk)
  | slice dim start stop step =>
    refine .refreshDerived hformed ?_ hbelow
    intro s hs
    rcases mem_or_eq_of_mem_set hs with hs | rfl
    · exact h.pos s hs
    · rw [Nat.mod_eq_of_lt hex.2]
      exact Nat.mul_pos (hget hfit.1) has.1
  | reshape shapes =>
    rw [reshape_apply hex.1] at hformed hbelow ⊢
    have hstrides := rowMajorStrides_of_lt hex.2
    refine ⟨hformed, ?_, iff_of_true rfl hstrides, extentElem_of_rowMajor hformed rfl hstrides,
      hbelow⟩
    show ∀ s ∈ (rowMajorStrides shapes).1, 0 < s
    rw [hstrides]
    exact fun s hs => (hex.2 s hs).1

/-- So are the strides of a fresh tensor. -/
theorem Sound.of_fresh (hroot : t.Fresh) (hexact : ∀ s ∈ rowMajor t.shapes, 0 < s ∧ s < 2 ^ 32) :
    t.Sound := by
  obtain ⟨hstart, hcont, hstrides, -⟩ := hroot.rowMajorStrides_eq
  rw [rowMajorStrides_of_lt hexact] at hstrides
  have hformed := hroot.formed
  have hprod := prod_lt hformed.dims fun s hs => (hexact s hs).2
  refine ⟨hformed, ?_, iff_of_true hcont hstrides,
    extentElem_of_rowMajor hformed hcont hstrides, ?_⟩
  · rw [hstrides]
    exact fun s hs => (hexact s hs).1
  · intro idx hidx
    rw [hstart, hstrides, zero_add]
    exact (dot_rowMajor_lt hidx).trans hprod

/-- `assert_in_buffer_bounds`, for a view that has elements. -/
def Inside (t : Tensor) : Prop :=
  (∀ n ∈ t.shapes, 0 < n) → t.startOffset + t.extentElem ≤ t.size / t.dtype.elementSize

/-- A checked view stays in the buffer. -/
theorem Sound.inside (h : t.Sound) (hfit : op.Fits t) (has : op.Asserts t) (hex : op.Exact t)
    (hin : t.Inside) : (op.apply t manualDep).Inside := by
  intro hne
  obtain ⟨hvalid, heq⟩ := h.denotes hfit has hex (lastIndex_lt hne)
  -- the last element of the view is an element of the source
  have hsrc := pos_of_forall₂_lt hvalid
  have hle : dot (op.denotes t _) t.strides ≤ dot (lastIndex t.shapes) t.strides :=
    dot_le_lastIndex hvalid
  have hin := hin hsrc
  rw [h.extent hsrc] at hin
  rw [(h.apply hfit has hex : (op.apply t manualDep).Sound).extent hne]
  have hsame : (op.apply t manualDep).size / (op.apply t manualDep).dtype.elementSize =
      t.size / t.dtype.elementSize := by
    cases op <;> rfl
  omega

/-- Condition on a call: its assertions hold, and it is exact. -/
def Checked (t : Tensor) (op : ViewOp × Bool) : Prop :=
  op.1.Asserts t ∧ op.1.Exact t

/-- The algebra holds for chains of views. -/
theorem Sound.reach {root : Tensor} (hroot : root.Sound) (h : Reach step Checked root t) :
    t.Sound ∧ (root.Inside → t.Inside) := by
  induction h with
  | init => exact ⟨hroot, id⟩
  | step _ hok hst ih =>
    obtain ⟨⟨-, hfit⟩, ⟨⟩⟩ := Option.ite_none_right_eq_some.mp hst
    exact ⟨ih.1.apply hfit hok.1 hok.2, fun hin => ih.1.inside hfit hok.1 hok.2 (ih.2 hin)⟩

end Tensor

/--
**View algebra.** Take any chain of view operations on a fresh tensor, with assertions that hold
and arithmetic that does not wrap. The strides are positive, the extent and the contiguous flag
are right, and the view lies in the buffer if the root does. An element of what a further
operation makes is the element of its source that the operation denotes.
-/
theorem view_algebra {root t : Tensor} (hroot : root.Fresh)
    (hexact : ∀ s ∈ rowMajor root.shapes, 0 < s ∧ s < 2 ^ 32)
    (h : Reach Tensor.step Tensor.Checked root t) :
    (∀ s ∈ t.strides, 0 < s) ∧
    ((∀ n ∈ t.shapes, 0 < n) → t.extentElem = 1 + dot (lastIndex t.shapes) t.strides) ∧
    (t.isContiguous = true ↔ t.strides = rowMajor t.shapes) ∧
    (root.Inside → t.Inside) ∧
    (∀ (op : ViewOp) (manualDep : Bool), op.Fits t → op.Asserts t → op.Exact t → ∀ idx,
      Forall₂ (· < ·) idx (op.apply t manualDep).shapes →
        Forall₂ (· < ·) (op.denotes t idx) t.shapes ∧
        (op.apply t manualDep).computeFlatOffset idx = t.computeFlatOffset (op.denotes t idx)) ∧
    (∀ (dim start stop step : Nat) (manualDep : Bool), dim < t.ndims → start < stop →
      (ViewOp.slice dim start stop step).Exact t →
        ((ViewOp.slice dim start stop step).apply t manualDep).shapes.getD dim 0 =
          (stop - start) ⌈/⌉ step) := by
  obtain ⟨ht, hin⟩ := (Tensor.Sound.of_fresh hroot hexact).reach h
  refine ⟨ht.pos, ht.extent, ht.contiguous, hin, ?_, ?_⟩
  · intro op manualDep hfit has hex idx hidx
    obtain ⟨hvalid, heq⟩ := ht.denotes hfit has hex hidx
    exact ⟨hvalid, congrArg (· % 2 ^ 64) heq⟩
  · intro dim start stop step manualDep hdim hstart hex
    rw [Nat.ceilDiv_eq_add_pred_div, ← ViewOp.slice_len hstart hex.1]
    show (t.shapes.set dim _).getD dim 0 = _
    rw [getD_eq_getElem _ _ ((length_set ..).symm ▸ hdim), getElem_set_self]

/-- Two rows of 2^16 elements. -/
def twoRows : Tensor := .initExternal 0 (2 ^ 19) [2, 2 ^ 16] .float32 0 false

theorem twoRows_fresh : twoRows.Fresh := .external _ _ _ _ _ (by decide) (by decide) (by decide)

/-- The second row of two. -/
theorem view_algebra_twoRows : ((ViewOp.slice 0 1 2 1).apply twoRows false).extentElem = 2 ^ 16 ∧
    ((ViewOp.slice 0 1 2 1).apply twoRows false).Inside := by
  have hreach : Reach Tensor.step Tensor.Checked twoRows
      ((ViewOp.slice 0 1 2 1).apply twoRows false) :=
    .step .init (a := (.slice 0 1 2 1, false))
      ⟨⟨by decide, by decide, by decide⟩, by decide, by decide⟩ (if_pos (by decide))
  obtain ⟨-, hext, -, hin, -⟩ := view_algebra twoRows_fresh (by decide) hreach
  exact ⟨(hext (by decide)).trans (by decide), hin fun _ => by decide⟩

/-- A slice of two rows with a step of 2^32 - 1 has none of them, and one with a step of 2^16
has a stride of 0: both pass the assertions. -/
theorem slice_loses_rows : ∃ root : Tensor, root.Fresh ∧
    (∀ s ∈ rowMajor root.shapes, 0 < s ∧ s < 2 ^ 32) ∧
    (∃ op : ViewOp, op = .slice 0 0 2 (2 ^ 32 - 1) ∧ op.Fits root ∧ op.Asserts root ∧
      (op.apply root false).shapes = [0, 2 ^ 16] ∧ (2 - 0) ⌈/⌉ (2 ^ 32 - 1) = 1) ∧
    ∃ t, Reach Tensor.step (fun t op => op.1.Asserts t) root t ∧ 0 ∈ t.strides := by
  refine ⟨twoRows, twoRows_fresh, by decide, ⟨_, rfl, by decide, ?_, by decide, ?_⟩, ?_⟩
  · exact ⟨by decide, by decide, by decide⟩
  · rw [Nat.ceilDiv_eq_add_pred_div]
    decide
  · refine ⟨(ViewOp.slice 0 0 1 (2 ^ 16)).apply twoRows false, ?_, by decide⟩
    exact .step .init (a := (.slice 0 0 1 (2 ^ 16), false)) ⟨by decide, by decide, by decide⟩
      (if_pos (by decide))

end PtoRuntime.Tmrb
