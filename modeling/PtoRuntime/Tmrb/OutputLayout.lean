import PtoRuntime.Tmrb.Allocator

/-!
# The layout of packed outputs

The OUTPUT tensors of a submission are placed one after the other into one packed buffer.
`calculate_output_layout` adds up their sizes, each rounded up to
`PTO2_PACKED_OUTPUT_ALIGN`, and `prepare_task` asks the allocator of the ring for the sum.

The running sum is an `int32_t` (`PTO2OutputLayout::total_output_size`), while sizes and
offsets are `uint64_t`; so every addition converts the sum to 64 bits and cuts the result
back to 32. Integers are modelled by `Nat` and `Int` with these conversions written out.

Main results: `outputs_packed`, `large_outputs_overlap`.
-/

namespace PtoRuntime.Tmrb

open Lib Function List

inductive DataType
  | float32 | float16 | int32 | int16 | int8 | uint8 | bfloat16 | int64 | uint64 | uint16 | uint32
  deriving DecidableEq, Repr

/-- `get_element_size`. -/
def DataType.elementSize : DataType → Nat
  | .float32 | .int32 | .uint32 => 4
  | .float16 | .int16 | .bfloat16 | .uint16 => 2
  | .int8 | .uint8 => 1
  | .int64 | .uint64 => 8

/-- `RUNTIME_MAX_TENSOR_DIMS`. -/
def maxTensorDims : Nat := 5

/-- `TensorCreateInfo`: at most five dimensions, each a `uint32_t`. -/
structure TensorCreateInfo where
  shapes : List Nat
  dtype : DataType
  dims_le : shapes.length ≤ maxTensorDims
  shape_lt : ∀ n ∈ shapes, n < 2 ^ 32

namespace TensorCreateInfo

/-- `buffer_size_bytes`, in 64-bit arithmetic. -/
def bufferSizeBytes (info : TensorCreateInfo) : Nat :=
  (info.shapes.foldl (fun total n => total * n % 2 ^ 64) 1) * info.dtype.elementSize % 2 ^ 64

/-- The size of the tensor. -/
def byteSize (info : TensorCreateInfo) : Nat := info.shapes.prod * info.dtype.elementSize

theorem foldl_mul_mod (shapes : List Nat) (total : Nat) :
    shapes.foldl (fun total n => total * n % 2 ^ 64) (total % 2 ^ 64) =
      total * shapes.prod % 2 ^ 64 := by
  induction shapes generalizing total with
  | nil => rw [foldl_nil, prod_nil, mul_one]
  | cons n shapes ih =>
    rw [foldl_cons, prod_cons, ← mul_assoc, ← ih (total * n), Nat.mod_mul_mod]

theorem bufferSizeBytes_eq (info : TensorCreateInfo) :
    info.bufferSizeBytes = info.byteSize % 2 ^ 64 := by
  have hfold := foldl_mul_mod info.shapes 1
  rw [one_mul] at hfold
  rw [bufferSizeBytes, show (1 : Nat) = 1 % 2 ^ 64 from rfl, hfold, Nat.mod_mul_mod, byteSize]

end TensorCreateInfo

/-- A tensor slot of an `Arg`, tagged by its `TensorArgType`. An OUTPUT holds create-info, the
others a tensor. -/
inductive TensorArg (τ : Type)
  | input (t : τ)
  | output (info : TensorCreateInfo)
  | inout (t : τ)
  | outputExisting (t : τ)
  | noDep (t : τ)

/-- The tensors of an `Arg`; `MAX_TENSOR_ARGS` is 16. -/
structure Arg (τ : Type) where
  tensors : List (TensorArg τ)
  count_le : tensors.length ≤ 16

/-! ## calculate_output_layout -/

/-- Conversion to `uint64_t`. -/
def toUInt64 (x : Int) : Nat := (x % 2 ^ 64).toNat

/-- Conversion to `int32_t`. -/
def toInt32 (x : Nat) : Int := Int.bmod x (2 ^ 32)

/-- `PTO2_ALIGN_UP(x, PTO2_PACKED_OUTPUT_ALIGN)` on a `uint64_t`. -/
def packedAlign (x : Nat) : Nat := (x + 1024 - 1) % 2 ^ 64 / 1024 * 1024

/-- `PTO2OutputLayout`. -/
structure OutputLayout where
  offsets : Nat → Nat
  bufferSizes : Nat → Nat
  totalOutputSize : Int

variable {τ : Type}

/-- The body of the loop of `calculate_output_layout`. -/
def OutputLayout.place (layout : OutputLayout) (i : Nat) : TensorArg τ → OutputLayout
  | .output info =>
    let size := packedAlign info.bufferSizeBytes
    { offsets := update layout.offsets i (toUInt64 layout.totalOutputSize)
      bufferSizes := update layout.bufferSizes i size
      totalOutputSize := toInt32 ((toUInt64 layout.totalOutputSize + size) % 2 ^ 64) }
  | .input _ | .inout _ | .outputExisting _ | .noDep _ => layout

/-- The loop, from argument `i` on. -/
def OutputLayout.placeFrom (layout : OutputLayout) (i : Nat) : List (TensorArg τ) → OutputLayout
  | [] => layout
  | a :: rest => (layout.place i a).placeFrom (i + 1) rest

def calculateOutputLayout (args : Arg τ) : OutputLayout :=
  OutputLayout.placeFrom ⟨fun _ => 0, fun _ => 0, 0⟩ 0 args.tensors

/-! ## The exact layout -/

/-- Bytes that an argument takes in the packed buffer, without a bound. -/
def TensorArg.packedSize : TensorArg τ → Nat
  | .output info => alignUp info.byteSize 1024
  | .input _ | .inout _ | .outputExisting _ | .noDep _ => 0

/-- Bytes taken by the first `i` arguments. -/
def packedOffset (tensors : List (TensorArg τ)) (i : Nat) : Nat :=
  ((tensors.take i).map TensorArg.packedSize).sum

def Arg.packedSize (args : Arg τ) : Nat := (args.tensors.map TensorArg.packedSize).sum

theorem packedAlign_eq {x : Nat} (h : alignUp x 1024 < 2 ^ 31) :
    packedAlign x = alignUp x 1024 := by
  have hx : x ≤ alignUp x 1024 := le_alignUp (by decide)
  unfold packedAlign alignUp
  rw [Nat.mod_eq_of_lt (by omega)]

theorem toUInt64_natCast {n : Nat} (h : n < 2 ^ 31) : toUInt64 n = n := by
  unfold toUInt64
  omega

theorem toInt32_natCast {n : Nat} (h : n < 2 ^ 31) : toInt32 n = n := by
  unfold toInt32
  rw [Int.bmod_def]
  split <;> omega

theorem packedOffset_succ {tensors : List (TensorArg τ)} {i : Nat} {a : TensorArg τ}
    (h : tensors[i]? = some a) : packedOffset tensors (i + 1) =
      packedOffset tensors i + a.packedSize := by
  rw [packedOffset, packedOffset, take_add_one, h]
  simp

theorem packedOffset_mono (tensors : List (TensorArg τ)) {i j : Nat} (h : i ≤ j) :
    packedOffset tensors i ≤ packedOffset tensors j :=
  ((take_sublist_take_left h).map _).sum_le_sum fun _ _ => Nat.zero_le _

theorem packedOffset_le (tensors : List (TensorArg τ)) (i : Nat) :
    packedOffset tensors i ≤ (tensors.map TensorArg.packedSize).sum :=
  ((take_sublist i tensors).map _).sum_le_sum fun _ _ => Nat.zero_le _

/-- **The loop computes the exact layout** as long as the sum fits an `int32_t`. -/
theorem placeFrom_exact (tensors : List (TensorArg τ)) (layout : OutputLayout) (done i : Nat)
    (htotal : layout.totalOutputSize = done)
    (hfit : done + (tensors.map TensorArg.packedSize).sum < 2 ^ 31) :
    (layout.placeFrom i tensors).totalOutputSize =
        (done + (tensors.map TensorArg.packedSize).sum : Nat) ∧
      (∀ j < i, (layout.placeFrom i tensors).offsets j = layout.offsets j) ∧
      ∀ j info, tensors[j]? = some (.output info) →
        (layout.placeFrom i tensors).offsets (i + j) = done + packedOffset tensors j := by
  induction tensors generalizing layout done i with
  | nil => exact ⟨htotal, fun _ _ => rfl, fun j info h => by simp at h⟩
  | cons a rest ih =>
    rw [map_cons, sum_cons, ← add_assoc] at hfit
    -- one argument: the sum grows by its exact size, and only its own offset is written
    have hstep : (layout.place i a).totalOutputSize = (done + a.packedSize : Nat) ∧
        (∀ j, j ≠ i → (layout.place i a).offsets j = layout.offsets j) ∧
        (∀ info, a = .output info → (layout.place i a).offsets i = done) := by
      cases a with
      | output info =>
        have hsize : info.byteSize ≤ alignUp info.byteSize 1024 := le_alignUp (by decide)
        have hlt : done + alignUp info.byteSize 1024 < 2 ^ 31 := by
          rw [TensorArg.packedSize] at hfit
          omega
        have halign : packedAlign info.bufferSizeBytes = alignUp info.byteSize 1024 := by
          rw [info.bufferSizeBytes_eq, Nat.mod_eq_of_lt (by omega), packedAlign_eq (by omega)]
        refine ⟨?_, fun j hj => update_of_ne hj .., fun info' _ => ?_⟩
        · rw [OutputLayout.place, TensorArg.packedSize]
          rw [htotal, toUInt64_natCast (by omega), halign, Nat.mod_eq_of_lt (by omega),
            toInt32_natCast hlt]
        · show update layout.offsets i (toUInt64 layout.totalOutputSize) i = done
          rw [update_self, htotal, toUInt64_natCast (by omega)]
      | _ => exact ⟨htotal, fun _ _ => rfl, nofun⟩
    obtain ⟨htotal', hothers, hown⟩ := hstep
    obtain ⟨hsum, hbefore, hafter⟩ := ih _ _ (i + 1) htotal' hfit
    refine ⟨?_, fun j hj => ?_, fun j info hj => ?_⟩
    · rw [map_cons, sum_cons, ← add_assoc]
      exact hsum
    · exact (hbefore j (by omega)).trans (hothers j (by omega))
    · cases j with
      | zero =>
        have ha : a = .output info := by simpa using hj
        exact (hbefore i (by omega)).trans (hown info ha)
      | succ j =>
        have hj : rest[j]? = some (.output info) := by simpa using hj
        have hoff := hafter j info hj
        rw [show i + 1 + j = i + (j + 1) by omega] at hoff
        show ((layout.place i a).placeFrom (i + 1) rest).offsets (i + (j + 1)) = _
        rw [hoff, packedOffset, packedOffset, take_succ_cons, map_cons, sum_cons,
          add_assoc]

/-- The cast is a congruence. -/
theorem toInt32_spec (n : Nat) : toInt32 n < 2 ^ 31 ∧ (toInt32 n - n) % 2 ^ 32 = 0 := by
  unfold toInt32
  rw [Int.bmod_def]
  split <;> omega

theorem toUInt64_mod (x : Int) : ((toUInt64 x : Int) - x) % 2 ^ 32 = 0 := by
  unfold toUInt64
  omega

theorem packedAlign_mod (x : Nat) :
    ((packedAlign (x % 2 ^ 64) : Int) - alignUp x 1024) % 2 ^ 32 = 0 := by
  unfold packedAlign alignUp
  omega

/-- **The loop in 32 bits.** The sum is an `int32_t` that agrees with the exact one modulo
2^32. -/
theorem placeFrom_mod (tensors : List (TensorArg τ)) (layout : OutputLayout) (i : Nat)
    (hfit : layout.totalOutputSize < 2 ^ 31) :
    (layout.placeFrom i tensors).totalOutputSize < 2 ^ 31 ∧
    ((layout.placeFrom i tensors).totalOutputSize - layout.totalOutputSize -
      (tensors.map TensorArg.packedSize).sum) % 2 ^ 32 = 0 := by
  induction tensors generalizing layout i with
  | nil => exact ⟨hfit, by simp [OutputLayout.placeFrom]⟩
  | cons a rest ih =>
    have hstep : (layout.place i a).totalOutputSize < 2 ^ 31 ∧
        ((layout.place i a).totalOutputSize - layout.totalOutputSize - a.packedSize) % 2 ^ 32 =
          0 := by
      cases a with
      | output info =>
        have hold := toUInt64_mod layout.totalOutputSize
        have halign := packedAlign_mod info.byteSize
        simp only [OutputLayout.place, TensorArg.packedSize, info.bufferSizeBytes_eq]
        obtain ⟨hlt, hnew⟩ := toInt32_spec
          ((toUInt64 layout.totalOutputSize + packedAlign (info.byteSize % 2 ^ 64)) % 2 ^ 64)
        refine ⟨hlt, ?_⟩
        omega
      | _ =>
        exact ⟨hfit, by simp [OutputLayout.place, TensorArg.packedSize]⟩
    obtain ⟨hlt, hmod⟩ := ih (layout.place i a) (i + 1) hstep.1
    refine ⟨hlt, ?_⟩
    have hfirst := hstep.2
    rw [map_cons, sum_cons, OutputLayout.placeFrom]
    omega

/-! ## prepare_task -/

/-- The addresses of an OUTPUT tensor in the packed buffer at `packedBase`. -/
def OutputLayout.output (layout : OutputLayout) (packedBase i : Nat) (info : TensorCreateInfo) :
    Segment :=
  ⟨packedBase + layout.offsets i, packedBase + layout.offsets i + info.byteSize⟩

open HeapRing in
/-- The step in which `alloc(total_output_size)`, called by `prepare_task`, succeeds. -/
def Prepares (c : RingConfig) (totalOutputSize : Int) (s s' : HeapRing) (taskId : Nat) : Prop :=
  ∃ spinCount prevLastAlive lastAlive packedBase packedEnd,
    s.pc = .check totalOutputSize spinCount prevLastAlive lastAlive ∧
      step c s .orch = some s' ∧ s'.pc = .granted taskId packedBase packedEnd

/-- The allocator has reserved the size it was asked for, rounded up to `PTO2_ALIGN_SIZE`. -/
theorem Prepares.buffer_hi {c : RingConfig} {total : Int} {s s' : HeapRing} {id : Nat}
    (h : Prepares c total s s' id) : (s'.buffer id).hi = (s'.buffer id).lo + alignedSize total := by
  obtain ⟨spin, prev, last, base, stop, hpc, hstep, hgranted⟩ := h
  rw [HeapRing.step, hpc] at hstep
  cases hstep
  unfold HeapRing.allocCheck at hgranted ⊢
  split_ifs at hgranted with hwindow
  split at hgranted
  · rename_i ptr top hbump
    cases hgranted
    rw [if_pos hwindow]
    simp [HeapRing.buffer, HeapRing.commitTask]
  · cases hgranted

theorem le_alignedSize (n : Nat) : n ≤ alignedSize n := by
  unfold alignedSize
  split
  · exact le_alignUp (by decide)
  · omega

/-- The OUTPUT tensors lie inside the buffer, and distinct ones share no address. -/
def OutputLayout.Packed (layout : OutputLayout) (tensors : List (TensorArg τ))
    (buffer : Segment) : Prop :=
  (∀ i info, tensors[i]? = some (.output info) →
    buffer.lo ≤ (layout.output buffer.lo i info).lo ∧
      (layout.output buffer.lo i info).hi ≤ buffer.hi) ∧
  ∀ i j info info', i ≠ j → tensors[i]? = some (.output info) →
    tensors[j]? = some (.output info') →
    (layout.output buffer.lo i info).Disjoint (layout.output buffer.lo j info')

theorem packed_of_lt (args : Arg τ) (hfit : args.packedSize < 2 ^ 31) {buffer : Segment}
    (hbuffer : buffer.hi = buffer.lo + alignedSize (calculateOutputLayout args).totalOutputSize) :
    (calculateOutputLayout args).Packed args.tensors buffer := by
  obtain ⟨htotal, -, hoffset⟩ := placeFrom_exact args.tensors
    ⟨fun _ => 0, fun _ => 0, 0⟩ 0 0 rfl (by rw [zero_add]; exact hfit)
  have htotal : (calculateOutputLayout args).totalOutputSize = args.packedSize := by
    rw [zero_add] at htotal
    exact htotal
  have hoffset (i : Nat) (info : TensorCreateInfo) (hi : args.tensors[i]? = some (.output info)) :
      (calculateOutputLayout args).offsets i = packedOffset args.tensors i := by
    have := hoffset i info hi
    rwa [zero_add, zero_add] at this
  -- an OUTPUT tensor ends before the next offset
  have hend (i : Nat) (info : TensorCreateInfo) (hi : args.tensors[i]? = some (.output info)) :
      packedOffset args.tensors i + info.byteSize ≤ packedOffset args.tensors (i + 1) := by
    rw [packedOffset_succ hi, TensorArg.packedSize]
    exact Nat.add_le_add_left (le_alignUp (by decide)) _
  rw [htotal] at hbuffer
  have hsize := le_alignedSize args.packedSize
  refine ⟨fun i info hi => ?_, fun i j info info' hne hi hj => ?_⟩
  · have := hend i info hi
    have : packedOffset args.tensors (i + 1) ≤ args.packedSize := packedOffset_le _ _
    simp only [OutputLayout.output, hoffset i info hi]
    omega
  · have := hend i info hi
    have := hend j info' hj
    rcases Nat.lt_or_gt_of_ne hne with hlt | hlt
    · refine Segment.disjoint_of_le ?_
      have := packedOffset_mono args.tensors (show i + 1 ≤ j from hlt)
      simp only [OutputLayout.output, hoffset i info hi, hoffset j info' hj]
      omega
    · refine Segment.disjoint_of_ge ?_
      have := packedOffset_mono args.tensors (show j + 1 ≤ i from hlt)
      simp only [OutputLayout.output, hoffset i info hi, hoffset j info' hj]
      omega

/-- Bytes of an argument's own data in the packed buffer. -/
def TensorArg.outputSize : TensorArg τ → Nat
  | .output info => info.byteSize
  | .input _ | .inout _ | .outputExisting _ | .noDep _ => 0

/-- Rounding adds less than 1024 bytes to each argument. -/
theorem packedSize_sum_le (tensors : List (TensorArg τ)) :
    (tensors.map TensorArg.packedSize).sum ≤
      (tensors.map TensorArg.outputSize).sum + 1023 * tensors.length := by
  induction tensors with
  | nil => exact le_rfl
  | cons a rest ih =>
    have ha : a.packedSize ≤ a.outputSize + 1023 := by
      cases a with
      | output info =>
        simp only [TensorArg.packedSize, TensorArg.outputSize, alignUp]
        omega
      | _ => exact Nat.zero_le _
    simp only [map_cons, sum_cons, length_cons]
    omega

/-- The addresses of an argument's own data. -/
def OutputLayout.segment (layout : OutputLayout) (packedBase i : Nat) : TensorArg τ → Segment
  | .output info => layout.output packedBase i info
  | .input _ | .inout _ | .outputExisting _ | .noDep _ => ⟨packedBase, packedBase⟩

/-- The data of packed outputs is no longer than their buffer. -/
theorem OutputLayout.Packed.sum_le {layout : OutputLayout} {tensors : List (TensorArg τ)}
    {buffer : Segment} (h : layout.Packed tensors buffer) (hle : buffer.lo ≤ buffer.hi) :
    (tensors.map TensorArg.outputSize).sum ≤ buffer.hi - buffer.lo := by
  have hget (i : Fin tensors.length) : tensors[i.1]? = some tensors[i.1] :=
    getElem?_eq_getElem i.2
  have hlen (i : Nat) (a : TensorArg τ) :
      (layout.segment buffer.lo i a).hi - (layout.segment buffer.lo i a).lo = a.outputSize := by
    cases a with
    | output info => exact Nat.add_sub_cancel_left ..
    | _ => exact Nat.sub_self _
  have hsum := Segment.sum_length_le Finset.univ
    (fun i : Fin tensors.length => layout.segment buffer.lo i tensors[i.1]) buffer
    (fun i _ => ?_) (fun i _ j _ hne => ?_)
  · simp only [hlen] at hsum
    rwa [Fin.sum_univ_fun_getElem] at hsum
  · have hi := hget i
    cases ha : tensors[i.1] with
    | output info => exact h.1 i info (ha ▸ hi)
    | _ => exact ⟨le_rfl, hle⟩
  · have hi := hget i
    have hj := hget j
    cases ha : tensors[i.1] with
    | output info =>
      cases hb : tensors[j.1] with
      | output info' => exact h.2 i j info info' (Fin.val_ne_of_ne hne) (ha ▸ hi) (hb ▸ hj)
      | _ =>
        exact fun x _ _ hx => (hx.1.trans_lt hx.2).false
    | _ => exact fun x hx hx' => (hx.trans_lt hx').false.elim

/--
**Packed outputs do not overlap.** When `prepare_task` succeeds, every OUTPUT tensor lies inside
the buffer reserved for the task and distinct OUTPUT tensors share no address, iff their rounded
sizes add up to less than 2^31. A larger sum is cut to 32 bits, and less is reserved than the
tensors take together.
-/
theorem outputs_packed (args : Arg τ) {c : RingConfig} {s s' : HeapRing} {id : Nat}
    (hprep : Prepares c (calculateOutputLayout args).totalOutputSize s s' id) :
    (calculateOutputLayout args).Packed args.tensors (s'.buffer id) ↔ args.packedSize < 2 ^ 31 := by
  have hreserved := hprep.buffer_hi
  refine ⟨fun hpacked => ?_, fun hfit => packed_of_lt args hfit hreserved⟩
  by_contra hlarge
  have hsum := hpacked.sum_le (by omega)
  have hround := packedSize_sum_le args.tensors
  have hcount := args.count_le
  obtain ⟨hlt, hmod⟩ := placeFrom_mod args.tensors ⟨fun _ => 0, fun _ => 0, 0⟩ 0 (by decide)
  rw [← calculateOutputLayout] at hlt hmod
  simp only [sub_zero] at hmod
  -- the buffer is at most 63 bytes longer than the sum, which is smaller by 2^32 at least
  have hsize : (alignedSize (calculateOutputLayout args).totalOutputSize : Int) ≤
      max (calculateOutputLayout args).totalOutputSize 0 + 63 := by
    unfold alignedSize alignUp
    split <;> omega
  unfold Arg.packedSize at hlarge
  omega

/-- A heap of 4096 bytes. -/
def packedRing : RingConfig := { smallRing with heapSize := 4096 }

/-- `n` elements of type FLOAT32. -/
def floats (n : Nat) (h : n < 2 ^ 32) : TensorCreateInfo :=
  ⟨[n], .float32, by simp [maxTensorDims], by simpa using h⟩

/-- An input, and two outputs of 64 and 40 bytes. -/
def smallOutputs : Arg Unit :=
  ⟨[.output (floats 16 (by decide)), .input (), .output (floats 10 (by decide))], by decide⟩

open HeapRing in
theorem outputs_packed_smallOutputs :
    ∃ s s', Reach (step packedRing) free init s ∧
      Prepares packedRing (calculateOutputLayout smallOutputs).totalOutputSize s s' 0 ∧
      ((calculateOutputLayout smallOutputs).output (s'.buffer 0).lo 0
        (floats 16 (by decide))).Disjoint
        ((calculateOutputLayout smallOutputs).output (s'.buffer 0).lo 2
          (floats 10 (by decide))) := by
  have hprep : Prepares packedRing (calculateOutputLayout smallOutputs).totalOutputSize
      (init.alloc packedRing (calculateOutputLayout smallOutputs).totalOutputSize)
      ((init.alloc packedRing (calculateOutputLayout smallOutputs).totalOutputSize).allocCheck
        packedRing (calculateOutputLayout smallOutputs).totalOutputSize 0 0 0) 0 :=
    ⟨0, 0, 0, 4096, 6144, rfl, rfl, by decide⟩
  refine ⟨_, _, .step (a := .alloc _) .init trivial rfl, hprep, ?_⟩
  exact ((outputs_packed smallOutputs hprep).mpr (by decide)).2 0 2 _ _ (by decide) rfl rfl

/-- Two outputs of 4 GiB and 64 bytes. -/
def largeOutputs : Arg Unit :=
  ⟨[.output (floats (2 ^ 30) (by decide)), .output (floats 16 (by decide))], by decide⟩

open HeapRing in
/-- The sum wraps around to the size of the second output, and both have offset 0. -/
theorem large_outputs_overlap :
    ∃ s s' : HeapRing, Reach (step packedRing) free init s ∧
      Prepares packedRing (calculateOutputLayout largeOutputs).totalOutputSize s s' 0 ∧
      ((floats (2 ^ 30) (by decide)).byteSize < 2 ^ 64 ∧
        (floats 16 (by decide)).byteSize < 2 ^ 64) ∧
      (s'.buffer 0).hi <
        ((calculateOutputLayout largeOutputs).output (s'.buffer 0).lo 0
          (floats (2 ^ 30) (by decide))).hi ∧
      ¬ ((calculateOutputLayout largeOutputs).output (s'.buffer 0).lo 0
            (floats (2 ^ 30) (by decide))).Disjoint
          ((calculateOutputLayout largeOutputs).output (s'.buffer 0).lo 1
            (floats 16 (by decide))) := by
  refine ⟨_, _, .step (a := .alloc _) .init trivial rfl, ⟨0, 0, 0, 4096, 5120, rfl, rfl, ?_⟩, ?_,
    ?_, fun hdisj => ?_⟩
  · decide
  · decide
  · decide
  · exact hdisj 4096 (by decide) (by decide) ⟨by decide, by decide⟩

end PtoRuntime.Tmrb
