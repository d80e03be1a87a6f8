import PtoRuntime.Tmrb.OutputLayout
import PtoRuntime.Tmrb.Runtime

/-!
# Tensors and their overlap

A `Tensor` is a strided view of a buffer: element `(c₀, …, cₙ)` lies at element offset
`start_offset + Σ cᵢ · stridesᵢ`. The tensor map keeps, for every region that a task has
registered, an entry with a copy of the view, and `check_overlap` compares it with the view
of a later access. It tries three things in turn: the ranges of the two views; if both have
the same row-major strides, the boxes they are in the reference shape; otherwise it gives up
and reports an overlap.

`uint32_t` and `uint64_t` values are natural numbers; where the source multiplies or
narrows, the reduction is written out.
-/

namespace PtoRuntime.Tmrb

open Lib

/-- `Tensor`. The arrays hold the first `ndims` values. -/
structure Tensor where
  addr : Nat
  size : Nat
  owner : Option TaskId
  startOffset : Nat
  version : Int
  dtype : DataType
  manualDep : Bool
  isContiguous : Bool
  shapes : List Nat
  extentElemCache : Nat
  strides : List Nat

namespace Tensor

def ndims (t : Tensor) : Nat := t.shapes.length

/-- `numel`. -/
def numel (t : Tensor) : Nat := t.shapes.foldl (fun total n => total * n % 2 ^ 64) 1

/-- `extent_elem`. -/
def extentElem (t : Tensor) : Nat := if t.isContiguous then t.numel else t.extentElemCache

end Tensor

inductive OverlapStatus
  | noOverlap
  | covered
  | other
  deriving DecidableEq, Repr

/-- `line_segment_intersection`. -/
def segmentsIntersect (a b : Segment) : Bool := a.hi > b.lo && b.hi > a.lo

/-- `contains`. -/
def segmentContains (a b : Segment) : Bool := a.lo ≤ b.lo && b.hi ≤ a.hi

/-- `PTO2TensorMapEntry`, without the links. -/
structure Entry where
  addr : Nat
  producer : TaskId
  startOffset : Nat
  version : Int
  dtype : DataType
  isContiguous : Bool
  shapes : List Nat
  extentElemCache : Nat
  strides : List Nat

/-- Strides written from the last dimension on; the running product is a `uint32_t`. -/
def rowMajorStrides : List Nat → List Nat × Nat
  | [] => ([], 1)
  | n :: rest =>
    let (strides, s) := rowMajorStrides rest
    (s :: strides, s * n % 2 ^ 32)

namespace Entry

/-- `copy_from_tensor`, with the producer that `link_entry` writes. -/
def copyFromTensor (t : Tensor) (producer : TaskId) : Entry where
  addr := t.addr
  producer := producer
  startOffset := t.startOffset
  version := t.version
  dtype := t.dtype
  isContiguous := t.isContiguous
  shapes := t.shapes
  extentElemCache := if t.isContiguous ∧ t.startOffset = 0 then t.numel else t.extentElemCache
  strides := if t.isContiguous ∧ t.startOffset = 0 then (rowMajorStrides t.shapes).1 else t.strides

/-- `effective_extent_elem`. -/
def effectiveExtentElem (e : Entry) : Nat :=
  if e.isContiguous then e.shapes.foldl (fun total n => total * n % 2 ^ 64) 1 else e.extentElemCache

/-- `strides[i - 1]` is a multiple of `strides[i]`. -/
def stridesDescend : List Nat → Bool
  | s :: s' :: rest => s % s' = 0 && stridesDescend (s' :: rest)
  | _ => true

/-- The reference shape in the dimensions after the first. -/
def innerRefShapes : List Nat → List Nat
  | s :: s' :: rest => s / s' :: innerRefShapes (s' :: rest)
  | _ => []

/-- An offset decomposed along the strides, and what is left of it. -/
def decompose : List Nat → Nat → List Nat × Nat
  | [], remain => ([], remain)
  | s :: rest, remain =>
    let (offsets, left) := decompose rest (remain % s)
    (remain / s % 2 ^ 32 :: offsets, left)

/-- A view fits the reference shape in every dimension. -/
def fitsRef : List Nat → List Nat → List Nat → Bool
  | o :: offsets, n :: shapes, r :: refs => o + n ≤ r && fitsRef offsets shapes refs
  | _, _, _ => true

/-- The comparison of two boxes, dimension by dimension. -/
def compareBoxes : List Nat → List Nat → List Nat → List Nat → Bool → OverlapStatus
  | i :: inOffsets, n :: inShapes, e :: entOffsets, m :: entShapes, contained =>
    if segmentsIntersect ⟨i, i + n⟩ ⟨e, e + m⟩ then
      compareBoxes inOffsets inShapes entOffsets entShapes
        (contained && segmentContains ⟨i, i + n⟩ ⟨e, e + m⟩)
    else .noOverlap
  | _, _, _, _, contained => if contained then .covered else .other

/-- The comparison of two views with the same strides. The source divides by them; a stride of
zero, where `/` is zero here, is a division by zero there. -/
def compareViews (e : Entry) (input : Tensor) : OverlapStatus :=
  let numelStorage := input.size / e.dtype.elementSize
  let stride0 := e.strides.headD 0
  if numelStorage % stride0 ≠ 0 then .other
  else
    let refShapes := numelStorage / stride0 % 2 ^ 32 :: innerRefShapes e.strides
    let (inOffsets, inRemain) := decompose e.strides input.startOffset
    let (entOffsets, entRemain) := decompose e.strides e.startOffset
    if inRemain ≠ 0 ∨ entRemain ≠ 0 then .other
    else if ¬ (fitsRef inOffsets input.shapes refShapes ∧
      fitsRef entOffsets e.shapes refShapes) then
      .other
    else compareBoxes inOffsets input.shapes entOffsets e.shapes true

/-- `check_overlap`. -/
def checkOverlap (e : Entry) (input : Tensor) : OverlapStatus :=
  if input.version > e.version then .other
  else if ¬ segmentsIntersect ⟨input.startOffset, (input.startOffset + input.extentElem) % 2 ^ 64⟩
      ⟨e.startOffset, (e.startOffset + e.effectiveExtentElem) % 2 ^ 64⟩ then .noOverlap
  else if input.dtype ≠ e.dtype ∨ input.ndims ≠ e.shapes.length ∨ e.shapes.length = 0 then .other
  else if input.strides ≠ e.strides then .other
  else if e.strides.getLastD 0 ≠ 1 ∨ ¬ stridesDescend e.strides then .other
  else e.compareViews input

end Entry

end PtoRuntime.Tmrb
