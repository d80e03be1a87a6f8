import PtoRuntime.Hier.Ring
import PtoRuntime.Tmrb.OutputLayout

/-!
# Hierarchical runtime — auto-allocated outputs

`Orchestrator::reserve_outputs_and_slot`. An OUTPUT tensor that arrives without an address
is given one by the orchestrator. A first loop over the arguments of all group members adds
up the sizes of these tensors, each rounded up to `HEAP_ALIGN`; one call of `Ring::alloc`
reserves the slot and that many bytes; a second loop hands the slab out in the same order.
`infer_deps` then registers the address as the tensor's key.

Sizes are computed in `uint64_t`: the product of the dimensions, the rounding and the sum
all wrap. The slots of the runtime are followed only as far as keys and slabs go: a slot is
consumed at some time, and its slab is released after that.

Main results: `outputs_private`, `empty_output_shares_key`.
-/

namespace PtoRuntime.Hier

open Lib List Option
open Tmrb (DataType TensorCreateInfo)

/-- `ContinuousTensor` with its shape; the array holds the first `ndims` values. -/
structure ShapedTensor where
  data : Nat
  shapes : List Nat
  dtype : DataType
  childMemory : Bool
  deriving DecidableEq, Repr

namespace ShapedTensor

/-- `nbytes`, in 64-bit arithmetic. -/
def nbytes (t : ShapedTensor) : Nat :=
  (t.shapes.foldl (fun total n => total * n % 2 ^ 64) 1) * t.dtype.elementSize % 2 ^ 64

/-- The size of the tensor. -/
def byteSize (t : ShapedTensor) : Nat := t.shapes.prod * t.dtype.elementSize

theorem nbytes_eq (t : ShapedTensor) (h : t.byteSize < 2 ^ 64) : t.nbytes = t.byteSize := by
  have hfold := TensorCreateInfo.foldl_mul_mod t.shapes 1
  rw [one_mul] at hfold
  rw [nbytes, show (1 : Nat) = 1 % 2 ^ 64 from rfl, hfold, Nat.mod_mul_mod]
  exact Nat.mod_eq_of_lt h

/-- `output_alloc_bytes`. -/
def outputAllocBytes (t : ShapedTensor) : Nat := alignUp64 t.nbytes heapAlign

end ShapedTensor

/-- A tensor of a submission, with the group member it belongs to. -/
structure Member where
  group : Nat
  tensor : ShapedTensor
  tag : TensorArgType
  deriving DecidableEq, Repr

namespace Member

/-- An OUTPUT that arrived without an address. -/
def needsSlab (m : Member) : Bool := m.tag = .output && m.tensor.data = 0

/-- The key that `infer_deps` forms. -/
def key (affinities : List Int) (m : Member) : TensorKey :=
  ⟨m.tensor.data, if m.tensor.childMemory then affinities.getD m.group (-1) else -1⟩

/-- `infer_deps` registers the key of the tensor as an output of the slot. -/
def isOutput (m : Member) : Bool := m.tensor.data ≠ 0 && m.tag.registers

end Member

/-- The tensors in the order of the two nested loops. -/
def members (argsList : List (List (ShapedTensor × TensorArgType))) : List Member :=
  argsList.zipIdx.flatMap fun a => a.1.map fun x => ⟨a.2, x.1, x.2⟩

/-- The counting loop. -/
def totalBytes (ms : List Member) : Nat :=
  ms.foldl (fun total m =>
    if m.needsSlab then (total + m.tensor.outputAllocBytes) % 2 ^ 64 else total) 0

/-- The carving loop, at offset `off` of the slab. -/
def carve (base : Nat) : Nat → List Member → List Member
  | _, [] => []
  | off, m :: ms =>
    if m.needsSlab then
      { m with tensor := { m.tensor with data := (base + off) % 2 ^ 64 } } ::
        carve base ((off + m.tensor.outputAllocBytes) % 2 ^ 64) ms
    else m :: carve base off ms

/-- The tensors without an address, each with what it has become. -/
def assigned (ms ms' : List Member) : List (Member × Member) :=
  (ms.zip ms').filter fun x => x.1.needsSlab

/-- A slot, as far as its keys go. -/
structure SlotOutputs where
  outputKeys : List TensorKey
  consumed : Bool
  -- history: the keys with an address from the heap, and those the caller chose
  heapKeys : List TensorKey
  suppliedKeys : List TensorKey
  deriving DecidableEq, Repr

def slotOutputs (affinities : List Int) (ms ms' : List Member) : SlotOutputs where
  outputKeys := (ms'.filter Member.isOutput).map (Member.key affinities)
  consumed := false
  heapKeys := (assigned ms ms').map fun x => x.2.key affinities
  suppliedKeys := (ms.filter Member.isOutput).map (Member.key affinities)

structure OutputState where
  ring : Ring
  slots : List SlotOutputs

inductive OutputAct
  | submit (argsList : List (List (ShapedTensor × TensorArgType))) (affinities : List Int)
      (scopeDepth : Int)
  | alloc (shape : List Nat) (dtype : DataType) (scopeDepth : Int)
  | consume (slot : Nat)
  | release (slot : Nat)
  | reset

/-- `CONTINUOUS_TENSOR_MAX_DIMS`. -/
def continuousTensorMaxDims : Nat := 5

namespace OutputState

def init : OutputState := ⟨.init, []⟩

/-- `reserve_outputs_and_slot` and the outputs of `infer_deps`. -/
def submit (c : HeapConfig) (s : OutputState) (ms : List Member) (affinities : List Int)
    (scopeDepth : Int) : OutputState :=
  match s.ring.alloc c (totalBytes ms) scopeDepth with
  | (.slot _ heapPtr _ _, ring) =>
    ⟨ring, s.slots ++ [slotOutputs affinities ms (carve heapPtr 0 ms)]⟩
  | (_, ring) => ⟨ring, s.slots⟩

/-- `Orchestrator::alloc`; it throws where the shape has too many dimensions. -/
def alloc (c : HeapConfig) (s : OutputState) (shape : List Nat) (dtype : DataType)
    (scopeDepth : Int) : OutputState :=
  if continuousTensorMaxDims < shape.length then s
  else
    match s.ring.alloc c (ShapedTensor.mk 0 shape dtype false).outputAllocBytes scopeDepth with
    | (.slot _ heapPtr _ _, ring) =>
      let keys := if heapPtr = 0 then [] else [⟨heapPtr, -1⟩]
      ⟨ring, s.slots ++ [⟨keys, false, keys, []⟩]⟩
    | (_, ring) => ⟨ring, s.slots⟩

def step (c : HeapConfig) (s : OutputState) : OutputAct → Option OutputState
  | .submit argsList affinities d => some (s.submit c (members argsList) affinities d)
  | .alloc shape dtype d => some (s.alloc c shape dtype d)
  | .consume i =>
    match s.slots[i]? with
    | some x => some { s with slots := s.slots.set i { x with consumed := true } }
    | none => none
  | .release i =>
    -- `on_consumed` calls it after the slot has become CONSUMED
    match s.slots[i]? with
    | some x => if x.consumed then some { s with ring := s.ring.release i } else none
    | none => none
  | .reset => s.ring.resetToEmpty.map fun ring => ⟨ring, []⟩

end OutputState

/-! ## Carving -/

/-- Bytes that a tensor takes in the slab, without a bound. -/
def Member.slabBytes (m : Member) : Nat :=
  if m.needsSlab then alignUp m.tensor.byteSize heapAlign else 0

/-- Bytes that the tensors take together. -/
def packedBytes (ms : List Member) : Nat := (ms.map Member.slabBytes).sum

theorem packedBytes_cons (m : Member) (ms : List Member) :
    packedBytes (m :: ms) = m.slabBytes + packedBytes ms := by
  rw [packedBytes, map_cons, sum_cons, packedBytes]

/-- A rounded size below 2^64 is computed without wrapping. -/
theorem outputAllocBytes_eq {t : ShapedTensor} (h : alignUp t.byteSize heapAlign < 2 ^ 64) :
    t.outputAllocBytes = alignUp t.byteSize heapAlign := by
  have hle : t.byteSize ≤ alignUp t.byteSize heapAlign := le_alignUp (by decide)
  rw [ShapedTensor.outputAllocBytes, t.nbytes_eq (by omega)]
  refine alignUp64_of_fits ?_
  have hdiv := Nat.div_add_mod (t.byteSize + heapAlign - 1) heapAlign
  unfold alignUp at h hle
  unfold heapAlign at *
  omega

variable {ms : List Member} {base off r : Nat} {m : Member} {x : SlotOutputs}
  {affinities : List Int} {d : Int}

theorem totalBytes_eq (h : packedBytes ms < 2 ^ 64) :
    totalBytes ms = packedBytes ms := by
  -- the loop, from a sum that it has reached
  have hloop (total : Nat) (h : total + packedBytes ms < 2 ^ 64) :
      ms.foldl (fun total m =>
        if m.needsSlab then (total + m.tensor.outputAllocBytes) % 2 ^ 64 else total) total =
        total + packedBytes ms := by
    induction ms generalizing total with
    | nil => rfl
    | cons m ms ih =>
      rw [packedBytes_cons] at h ⊢
      rw [foldl_cons]
      unfold Member.slabBytes at h ⊢
      split
      · rename_i hm
        rw [if_pos hm] at h
        rw [outputAllocBytes_eq (by omega), Nat.mod_eq_of_lt (by omega), ih (by omega) _ (by omega),
          add_assoc]
      · rename_i hm
        rw [if_neg hm] at h
        rw [ih (by omega) total (by omega), zero_add]
  have := hloop 0 (by omega)
  rwa [zero_add] at this

theorem assigned_cons_of_needsSlab (hm : m.needsSlab = true) :
    assigned (m :: ms) (carve base off (m :: ms)) =
      (m, { m with tensor := { m.tensor with data := (base + off) % 2 ^ 64 } }) ::
        assigned ms (carve base ((off + m.tensor.outputAllocBytes) % 2 ^ 64) ms) := by
  rw [carve, if_pos hm, assigned, zip_cons_cons, filter_cons, if_pos hm, assigned]

theorem assigned_cons_of_not (hm : ¬ m.needsSlab = true) :
    assigned (m :: ms) (carve base off (m :: ms)) = assigned ms (carve base off ms) := by
  rw [carve, if_neg hm, assigned, zip_cons_cons, filter_cons, if_neg hm, assigned]

/-- **The carving loop.** From offset `off` on, the tensors lie one after the other below the
end of what they take together. -/
theorem carve_spec (base off : Nat) (h : base + off + packedBytes ms < 2 ^ 64) :
    (∀ x ∈ assigned ms (carve base off ms), base + off ≤ x.2.tensor.data ∧
      x.2.tensor.data + x.1.tensor.byteSize ≤ base + off + packedBytes ms) ∧
    (assigned ms (carve base off ms)).Pairwise fun x y =>
      x.2.tensor.data + x.1.tensor.byteSize ≤ y.2.tensor.data := by
  induction ms generalizing off with
  | nil => exact ⟨fun x hx => absurd hx not_mem_nil, List.Pairwise.nil⟩
  | cons m ms ih =>
    rw [packedBytes_cons] at h ⊢
    unfold Member.slabBytes at h ⊢
    by_cases hm : m.needsSlab = true
    · rw [if_pos hm] at h ⊢
      have hle : m.tensor.byteSize ≤ alignUp m.tensor.byteSize heapAlign := le_alignUp (by decide)
      rw [assigned_cons_of_needsSlab hm, outputAllocBytes_eq (by omega),
        Nat.mod_eq_of_lt (show base + off < 2 ^ 64 by omega),
        Nat.mod_eq_of_lt (show off + alignUp m.tensor.byteSize heapAlign < 2 ^ 64 by omega)]
      obtain ⟨hin, hpair⟩ := ih (off + alignUp m.tensor.byteSize heapAlign) (by omega)
      constructor
      · intro x hx
        rcases mem_cons.mp hx with rfl | hx
        · simp only
          omega
        · have := hin x hx
          omega
      · -- the later ones start behind the rounded size of this one
        refine pairwise_cons.mpr ⟨fun y hy => ?_, hpair⟩
        have := (hin y hy).1
        simp only
        omega
    · rw [if_neg hm] at h ⊢
      rw [assigned_cons_of_not hm, zero_add]
      exact ih off (by omega)

/-- The address is all that changes in a key. -/
theorem worker_carve (affinities : List Int) {x : Member × Member}
    (hx : x ∈ ms.zip (carve base off ms)) :
    (x.2.key affinities).worker = (x.1.key affinities).worker := by
  induction ms generalizing off with
  | nil => cases hx
  | cons m ms ih =>
    unfold carve at hx
    split at hx
    all_goals
      rcases mem_cons.mp hx with rfl | hx
      · rfl
      · exact ih hx

/-- An output of the carved arguments has an address from the slab, or the one it came with. -/
theorem isOutput_carve {m' : Member} (hm : m' ∈ carve base off ms) (hout : m'.isOutput = true) :
    (∃ m, (m, m') ∈ assigned ms (carve base off ms)) ∨ m' ∈ ms.filter Member.isOutput := by
  induction ms generalizing off with
  | nil => cases hm
  | cons m ms ih =>
    have hmono := ((sublist_cons_self m ms).filter Member.isOutput).subset
    by_cases hslab : m.needsSlab = true
    · rw [assigned_cons_of_needsSlab hslab]
      rw [carve, if_pos hslab] at hm
      rcases mem_cons.mp hm with rfl | hm
      · exact .inl ⟨m, mem_cons_self⟩
      · exact (ih hm).imp (fun ⟨m₀, h₀⟩ => ⟨m₀, mem_cons_of_mem _ h₀⟩) (hmono ·)
    · rw [assigned_cons_of_not hslab]
      rw [carve, if_neg hslab] at hm
      rcases mem_cons.mp hm with rfl | hm
      · exact .inr (mem_filter.mpr ⟨mem_cons_self, hout⟩)
      · exact (ih hm).imp_right (hmono ·)

/-! ## Slots -/

namespace OutputState

variable {c : HeapConfig} {s s' : OutputState}

/-- An address that `alloc` does not hand out: it lies outside the heaps, or in the slab of a
slot that is not released. -/
def Reserved (c : HeapConfig) (s : Ring) (ptr : Nat) : Prop :=
  (∀ r < maxRingDepth, ptr < c.base r ∨ c.base r + c.heapBytes ≤ ptr) ∨
    ∃ p ∈ s.slotStates, ¬ s.Released p ∧ (s.slab c p).lo ≤ ptr ∧ ptr < (s.slab c p).hi

instance (c : HeapConfig) (s : Ring) (ptr : Nat) : Decidable (Reserved c s ptr) := by
  unfold Reserved Ring.Released
  infer_instance

/-- The tensors without an address have bytes, their sizes do not overflow, and an address that
the caller of an unconsumed slot has passed in, with the worker of such a tensor, is reserved. -/
structure SubmitOk (c : HeapConfig) (s : OutputState) (ms : List Member)
    (affinities : List Int) : Prop where
  nonempty : ∀ m ∈ ms, m.needsSlab = true → 0 < m.tensor.byteSize
  fits : packedBytes ms < 2 ^ 64
  reserved : ∀ x ∈ s.slots, x.consumed = false → ∀ k ∈ x.suppliedKeys, ∀ m ∈ ms,
    m.needsSlab = true → (m.key affinities).worker = k.worker → Reserved c s.ring k.ptr

instance (c : HeapConfig) (s : OutputState) (ms : List Member) (affinities : List Int) :
    Decidable (s.SubmitOk c ms affinities) :=
  decidable_of_iff (_ ∧ _ ∧ _)
    ⟨fun h => SubmitOk.mk h.1 h.2.1 h.2.2, fun h => ⟨h.nonempty, h.fits, h.reserved⟩⟩

def OutputGuard (c : HeapConfig) (s : OutputState) : OutputAct → Prop
  | .submit argsList affinities _ => s.SubmitOk c (members argsList) affinities
  | _ => True

instance (c : HeapConfig) (s : OutputState) (a : OutputAct) : Decidable (OutputGuard c s a) :=
  match a with
  | .submit argsList affinities _ =>
    inferInstanceAs (Decidable (s.SubmitOk c (members argsList) affinities))
  | .alloc _ _ _ | .consume _ | .release _ | .reset => inferInstanceAs (Decidable True)

structure Inv (c : HeapConfig) (s : OutputState) : Prop where
  ring : s.ring.Inv c
  length : s.slots.length = s.ring.slotStates.length
  released : ∀ (i : Nat) (p : SlotPlace) (x : SlotOutputs), s.ring.slotStates[i]? = some p →
    s.slots[i]? = some x → s.ring.Released p → x.consumed = true
  -- a key with an address from the heap is in the slab of its slot
  heapKeys : ∀ (i : Nat) (p : SlotPlace) (x : SlotOutputs), s.ring.slotStates[i]? = some p →
    s.slots[i]? = some x → ∀ k ∈ x.heapKeys, (s.ring.slab c p).lo ≤ k.ptr ∧
      k.ptr < (s.ring.slab c p).hi
  outputKeys : ∀ x ∈ s.slots, ∀ k ∈ x.outputKeys, k ∈ x.heapKeys ∨ k ∈ x.suppliedKeys

theorem Inv.init : Inv c init := ⟨.init, rfl, nofun, nofun, nofun⟩

theorem Inv.push {top aligned bytes : Nat} (h : Inv c s)
    (hring : (s.ring.take r off top aligned bytes).Inv c)
    (hheap : ∀ k ∈ x.heapKeys, c.base r + off ≤ k.ptr ∧ k.ptr < c.base r + (off + aligned))
    (hout : ∀ k ∈ x.outputKeys, k ∈ x.heapKeys ∨ k ∈ x.suppliedKeys) :
    Inv c ⟨s.ring.take r off top aligned bytes, s.slots ++ [x]⟩ := by
  refine ⟨hring, ?_, fun i p y hp hy hrel => ?_, fun i p y hp hy k hk => ?_, fun y hy => ?_⟩
  · show (s.slots ++ [x]).length = (s.ring.slotStates ++ [_]).length
    rw [length_append, length_append, h.length, length_singleton,
      length_singleton]
  · rcases getElem?_concat_pair h.length hy hp with ⟨hold, hp⟩ | ⟨-, rfl⟩
    · exact h.released i p y hp hold ((h.ring.released_take_iff hp).mp hrel)
    · exact absurd hrel (Ring.not_released_take s.ring r off top aligned bytes)
  · rcases getElem?_concat_pair h.length hy hp with ⟨hold, hp⟩ | ⟨rfl, rfl⟩
    · rw [h.ring.slab_take hp]
      exact h.heapKeys i p y hp hold k hk
    · rw [h.ring.slab_take_new]
      exact hheap k hk
  · rcases mem_append.mp hy with hy | hy
    · exact h.outputKeys y hy
    · rw [mem_singleton.mp hy]
      exact hout

/-- A new slab holds no reserved address. -/
theorem Reserved.not_mem_new {top aligned bytes ptr : Nat} {s : Ring} (h : Reserved c s ptr)
    (hinv : s.Inv c) (hnew : (s.take r off top aligned bytes).Inv c) :
    ¬ (c.base r + off ≤ ptr ∧ ptr < c.base r + (off + aligned)) := by
  have hlast : (s.take r off top aligned bytes).slotStates[s.slotStates.length]? = some _ :=
    getElem?_concat_length
  rcases h with hout | ⟨p, hmem, hlive, hlo, hhi⟩
  · -- the slab is inside the mapping of its ring
    have hwithin := hnew.within hlast
    rw [hinv.slab_take_new] at hwithin
    have := hout r (hnew.place _ _ hlast).1
    simp only at hwithin
    omega
  · obtain ⟨j, hp⟩ := mem_iff_getElem?.mp hmem
    have hdisj := hnew.disjoint (List.getElem?_eq_some_iff.mp hp).1
      (getElem?_concat_of_some hp) hlast (mt (hinv.released_take_iff hp).mp hlive)
    rw [hinv.slab_take hp, hinv.slab_take_new] at hdisj
    exact hdisj ptr hlo hhi

/-! ## A submission -/

theorem dvd_packedBytes (ms : List Member) : heapAlign ∣ packedBytes ms := by
  refine dvd_sum fun n hn => ?_
  obtain ⟨m, -, rfl⟩ := mem_map.mp hn
  unfold Member.slabBytes
  split
  · exact Dvd.intro_left _ rfl
  · exact dvd_zero _

/-- The slab is at least as large as the tensors together. -/
theorem packedBytes_le (h : packedBytes ms < 2 ^ 64) :
    packedBytes ms ≤ Ring.alignedBytes (packedBytes ms) := by
  refine Ring.alignedBytes_le ?_
  obtain ⟨k, hk⟩ := dvd_packedBytes ms
  unfold heapAlign at *
  omega

theorem slabBytes_le_packedBytes (hm : m ∈ ms) :
    m.slabBytes ≤ packedBytes ms :=
  single_le_sum (fun _ _ => Nat.zero_le _) _ (mem_map_of_mem hm)

/-- What a slot is given: nothing to hand out, or a slab with room for all tensors. -/
theorem Inv.granted {n heapPtr e : Nat} {ring' : Ring} (h : Inv c s)
    (hok : s.SubmitOk c ms affinities)
    (hres : s.ring.alloc c (totalBytes ms) d = (.slot n heapPtr e r, ring')) :
    ∃ off top aligned, ring' = s.ring.take r off top aligned (totalBytes ms) ∧
      n = s.ring.slotStates.length ∧ ring'.Inv c ∧
      ((∀ m ∈ ms, ¬ m.needsSlab = true) ∨
        heapPtr = c.base r + off ∧ packedBytes ms ≤ aligned ∧
          heapPtr + packedBytes ms < 2 ^ 64) := by
  have hinv := h.ring.alloc (totalBytes ms) d
  have hcases := Ring.alloc_cases c s.ring (totalBytes ms) d
  rw [hres] at hcases hinv
  have htotal := totalBytes_eq hok.fits
  have hle := packedBytes_le hok.fits
  cases hcases with
  | refused hno => exact absurd rfl (hno _ _ _ _)
  | empty hzero =>
    refine ⟨_, _, _, rfl, rfl, hinv, .inl fun m hm hslab => ?_⟩
    -- a tensor without an address would take bytes
    have hpos := hok.nonempty m hm hslab
    have hbytes := slabBytes_le_packedBytes hm
    have hround : m.tensor.byteSize ≤ alignUp m.tensor.byteSize heapAlign := le_alignUp (by decide)
    rw [Member.slabBytes, if_pos hslab] at hbytes
    rw [htotal] at hzero
    omega
  | @bumped off top hpos hbump =>
    rw [htotal] at hinv ⊢
    refine ⟨_, _, _, rfl, rfl, hinv, .inr ⟨rfl, hle, ?_⟩⟩
    -- the slab ends in the mapping
    have hwithin := hinv.within (i := s.ring.slotStates.length) getElem?_concat_length
    rw [h.ring.slab_take_new] at hwithin
    have hfit := c.fits _ (Ring.ringIdxForScope_lt d)
    simp only at hwithin
    omega

/-- New keys lie in the new slab. -/
theorem heapKeys_mem (base off : Nat) {k : TensorKey} (h : base + off + packedBytes ms < 2 ^ 64)
    (hpos : ∀ m ∈ ms, m.needsSlab = true → 0 < m.tensor.byteSize)
    (hk : k ∈ (assigned ms (carve base off ms)).map fun x => x.2.key affinities) :
    base + off ≤ k.ptr ∧ k.ptr < base + off + packedBytes ms := by
  obtain ⟨x, hx, rfl⟩ := mem_map.mp hk
  obtain ⟨hlo, hhi⟩ := (carve_spec base off h).1 x hx
  obtain ⟨hzip, hslab⟩ := mem_filter.mp hx
  have := hpos x.1 (of_mem_zip hzip).1 hslab
  exact ⟨hlo, by show x.2.tensor.data < _; omega⟩

theorem slotOutputs_keys (affinities : List Int) (base : Nat) (ms : List Member) :
    ∀ k ∈ (slotOutputs affinities ms (carve base 0 ms)).outputKeys,
      k ∈ (slotOutputs affinities ms (carve base 0 ms)).heapKeys ∨
        k ∈ (slotOutputs affinities ms (carve base 0 ms)).suppliedKeys := by
  intro k hk
  obtain ⟨m, hm, rfl⟩ := mem_map.mp hk
  obtain ⟨hmem, hout⟩ := mem_filter.mp hm
  rcases isOutput_carve hmem hout with ⟨m₀, h₀⟩ | h₀
  · exact .inl (mem_map.mpr ⟨(m₀, m), h₀, rfl⟩)
  · exact .inr (mem_map_of_mem h₀)

/-- A submission takes a slot. -/
theorem Inv.submit (h : Inv c s) (hok : s.SubmitOk c ms affinities) :
    Inv c (s.submit c ms affinities d) := by
  have hcases := Ring.alloc_cases c s.ring (totalBytes ms) d
  unfold OutputState.submit
  split
  · rename_i n heapPtr e r ring' hres
    obtain ⟨off, top, aligned, rfl, -, hinv, hslab⟩ := h.granted hok hres
    refine h.push hinv (fun k hk => ?_) (slotOutputs_keys affinities heapPtr ms)
    rcases hslab with hnone | ⟨rfl, hle, hfit⟩
    · obtain ⟨x, hx, -⟩ := mem_map.mp hk
      obtain ⟨hzip, hx⟩ := mem_filter.mp hx
      exact absurd hx (hnone x.1 (of_mem_zip hzip).1)
    · have := heapKeys_mem _ 0 (by omega) hok.nonempty hk
      omega
  · rename_i reply ring' hno hres
    rw [hres] at hcases
    cases hcases with
    | refused => exact h
    | empty | bumped => exact absurd rfl (hno _ _ _ _)

theorem Inv.alloc {shape : List Nat} {dtype : DataType} (h : Inv c s) :
    Inv c (s.alloc c shape dtype d) := by
  unfold OutputState.alloc
  split
  · exact h
  · have hcases := Ring.alloc_cases c s.ring
      (ShapedTensor.mk 0 shape dtype false).outputAllocBytes d
    have hinv := h.ring.alloc (ShapedTensor.mk 0 shape dtype false).outputAllocBytes d
    generalize s.ring.alloc c (ShapedTensor.mk 0 shape dtype false).outputAllocBytes d = res
      at hcases hinv
    cases hcases with
    | refused hno =>
      split
      · rename_i heq
        cases heq
        exact absurd rfl (hno _ _ _ _)
      · rename_i heq
        cases heq
        exact h
    | empty hzero =>
      -- no address, no key
      refine h.push hinv (fun k hk => ?_) fun k hk => .inl hk
      cases hk
    | @bumped off top hpos hbump =>
      refine h.push hinv (fun k hk => ?_) fun k hk => .inl hk
      by_cases hnull : c.base (ringIdxForScope d) + off = 0
      · rw [if_pos hnull] at hk
        cases hk
      · rw [if_neg hnull, mem_singleton] at hk
        subst hk
        simp only
        omega

/-- A slot that becomes CONSUMED keeps its keys. -/
theorem Inv.consume {i : Nat} (h : Inv c s) (hx : s.slots[i]? = some x) :
    Inv c { s with slots := s.slots.set i { x with consumed := true } } := by
  have hi := (List.getElem?_eq_some_iff.mp hx).1
  -- what stands in the new list has the keys of what stood in the old one
  have hold (j : Nat) (y : SlotOutputs)
      (hy : (s.slots.set i { x with consumed := true })[j]? = some y) :
      ∃ z, s.slots[j]? = some z ∧ y.heapKeys = z.heapKeys ∧
        (z.consumed = true → y.consumed = true) := by
    by_cases hij : i = j
    · subst hij
      rw [getElem?_set_self hi] at hy
      cases hy
      exact ⟨x, hx, rfl, fun _ => rfl⟩
    · rw [getElem?_set_ne hij] at hy
      exact ⟨y, hy, rfl, id⟩
  refine ⟨h.ring, ?_, fun j p y hp hy hrel => ?_, fun j p y hp hy k hk => ?_, fun y hy => ?_⟩
  · rw [length_set]
    exact h.length
  · obtain ⟨z, hz, -, hcons⟩ := hold j y hy
    exact hcons (h.released j p z hp hz hrel)
  · obtain ⟨z, hz, hkeys, -⟩ := hold j y hy
    rw [hkeys] at hk
    exact h.heapKeys j p z hp hz k hk
  · rcases mem_or_eq_of_mem_set hy with hy | rfl
    · exact h.outputKeys y hy
    · exact h.outputKeys x (mem_of_getElem? hx)

/-- The slab of a slot is given back after the slot was consumed. -/
theorem Inv.release {i : Nat} (h : Inv c s) (hx : s.slots[i]? = some x)
    (hcons : x.consumed = true) : Inv c { s with ring := s.ring.release i } := by
  have hslots := Ring.release_slotStates (s := s.ring) i
  refine ⟨h.ring.release i, ?_, fun j p y hp hy hrel => ?_, fun j p y hp hy k hk => ?_,
    h.outputKeys⟩
  · rw [hslots]
    exact h.length
  · rw [hslots] at hp
    rcases (h.ring.released_release_iff i hp).mp hrel with hrel | rfl
    · exact h.released j p y hp hy hrel
    · rw [hx] at hy
      cases hy
      exact hcons
  · rw [hslots] at hp
    rw [h.ring.slab_release]
    exact h.heapKeys j p y hp hy k hk

/-- One guarded step. -/
theorem Inv.step {a : OutputAct} (h : Inv c s) (hok : OutputGuard c s a)
    (hst : s.step c a = some s') : Inv c s' := by
  cases a with
  | submit argsList affinities d =>
    cases hst
    exact h.submit hok
  | alloc shape dtype d =>
    cases hst
    exact h.alloc
  | consume i =>
    simp only [OutputState.step] at hst
    split at hst
    · rename_i x hx
      cases hst
      exact h.consume hx
    · cases hst
  | release i =>
    simp only [OutputState.step] at hst
    split at hst
    · rename_i x hx
      obtain ⟨hcons, heq⟩ := ite_none_right_eq_some.mp hst
      cases heq
      exact h.release hx hcons
    · cases hst
  | reset =>
    obtain ⟨ring, hring, rfl⟩ := map_eq_some_iff.mp hst
    obtain ⟨hdrained, heq⟩ := ite_none_right_eq_some.mp hring
    have hinv := h.ring.step (a := .reset) hring
    cases heq
    exact ⟨hinv, rfl, nofun, nofun, nofun⟩

theorem Inv.reach (h : Reach (OutputState.step c) (OutputGuard c) OutputState.init s) : Inv c s :=
  h.invariant .init fun _ _ _ _ hinv hok hst => hinv.step hok hst

/--
**Auto-allocated outputs are private.** A submission whose tensors without an address have bytes
and do not overflow, made in a state where the addresses that the callers of unconsumed slots
passed in are reserved: each such tensor gets all of its bytes inside the slab of the new slot,
behind those before it in the arguments, and its key is not that of an output of any other
unconsumed slot.
-/
theorem outputs_private {argsList : List (List (ShapedTensor × TensorArgType))} {n heapPtr e : Nat}
    {ring' : Ring} (h : Reach (OutputState.step c) (OutputGuard c) OutputState.init s)
    (hok : s.SubmitOk c (members argsList) affinities)
    (hres : s.ring.alloc c (totalBytes (members argsList)) d = (.slot n heapPtr e r, ring')) :
    ∃ p, ring'.slotStates[n]? = some p ∧
      (∀ x ∈ assigned (members argsList) (carve heapPtr 0 (members argsList)),
        (ring'.slab c p).lo ≤ x.2.tensor.data ∧
        x.2.tensor.data + x.1.tensor.byteSize ≤ (ring'.slab c p).hi) ∧
      ((assigned (members argsList) (carve heapPtr 0 (members argsList))).Pairwise fun x y =>
        x.2.tensor.data + x.1.tensor.byteSize ≤ y.2.tensor.data) ∧
      ∀ x ∈ assigned (members argsList) (carve heapPtr 0 (members argsList)),
        ∀ (j : Nat) (y : SlotOutputs), (s.submit c (members argsList) affinities d).slots[j]? =
          some y →
          j ≠ n → y.consumed = false → x.2.key affinities ∉ y.outputKeys := by
  have hinv := Inv.reach h
  obtain ⟨off, top, aligned, rfl, rfl, hring, hslab⟩ := hinv.granted hok hres
  refine ⟨_, getElem?_concat_length, ?_⟩
  rw [hinv.ring.slab_take_new]
  rcases hslab with hnone | ⟨rfl, hle, hfit⟩
  · -- no tensor without an address
    have hempty : assigned (members argsList) (carve heapPtr 0 (members argsList)) = [] :=
      filter_eq_nil_iff.mpr fun x hx => hnone x.1 (of_mem_zip hx).1
    rw [hempty]
    exact ⟨fun x hx => absurd hx not_mem_nil, .nil, fun x hx => absurd hx not_mem_nil⟩
  obtain ⟨hin, hpair⟩ := carve_spec (c.base r + off) 0
    (show _ + packedBytes (members argsList) < _ by omega)
  refine ⟨fun x hx => ?_, hpair, fun x hx j y hy hne hlive hkey => ?_⟩
  · have := hin x hx
    simp only
    omega
  have hptr := heapKeys_mem _ 0 (by omega) hok.nonempty
    (mem_map.mpr ⟨x, hx, (rfl : x.2.key affinities = _)⟩)
  -- the other slot stood there before
  have hslots : (s.submit c (members argsList) affinities d).slots = s.slots ++
      [slotOutputs affinities (members argsList)
        (carve (c.base r + off) 0 (members argsList))] := by
    unfold OutputState.submit
    rw [hres]
  rw [hslots] at hy
  rcases getElem?_concat_cases hy with hold | ⟨hj, -⟩
  · have hmem := mem_of_getElem? hold
    suffices hres : Reserved c s.ring (x.2.key affinities).ptr from
      hres.not_mem_new hinv.ring hring (by omega)
    rcases hinv.outputKeys y hmem _ hkey with hheap | hsup
    · -- an address in the slab of its slot, which is not released before it is consumed
      obtain ⟨p, hp⟩ : ∃ p, s.ring.slotStates[j]? = some p := by
        have hj := (List.getElem?_eq_some_iff.mp hold).1
        rw [hinv.length] at hj
        exact ⟨_, getElem?_eq_getElem hj⟩
      refine .inr ⟨p, mem_of_getElem? hp, fun hrel => ?_, hinv.heapKeys j p y hp hold _ hheap⟩
      exact absurd (hinv.released j p y hp hold hrel) (by simp [hlive])
    · -- an address that its caller chose
      obtain ⟨hzip, hneeds⟩ := mem_filter.mp hx
      exact hok.reserved y hmem hlive _ hsup x.1 (of_mem_zip hzip).1 hneeds
        (worker_carve affinities hzip).symm
  · exact hne (hj.trans hinv.length)

end OutputState

/-- An OUTPUT without an address, of `n` `FLOAT32`. -/
def freshOutput (n : Nat) : ShapedTensor × TensorArgType := (⟨0, [n], .float32, false⟩, .output)

/-- A group of two members with an output each, submitted beside an unconsumed slot. -/
theorem outputs_private_group :
    ∃ s, Reach (OutputState.step smallHeaps) (OutputState.OutputGuard smallHeaps) .init s ∧
      s.slots = [⟨[⟨4096, -1⟩], false, [⟨4096, -1⟩], []⟩] ∧
      (s.submit smallHeaps (members [[freshOutput 100], [freshOutput 7]]) [] 0).slots =
        [⟨[⟨4096, -1⟩], false, [⟨4096, -1⟩], []⟩,
          ⟨[⟨5120, -1⟩, ⟨6144, -1⟩], false, [⟨5120, -1⟩, ⟨6144, -1⟩], []⟩] ∧
      ∀ x ∈ assigned (members [[freshOutput 100], [freshOutput 7]])
          (carve 5120 0 (members [[freshOutput 100], [freshOutput 7]])),
        x.2.key [] ∉ [(⟨4096, -1⟩ : TensorKey)] := by
  refine Reach.exists_of_run_imp
    (P := fun s => s.slots = [⟨[⟨4096, -1⟩], false, [⟨4096, -1⟩], []⟩] ∧
      (s.submit smallHeaps (members [[freshOutput 100], [freshOutput 7]]) [] 0).slots =
        [⟨[⟨4096, -1⟩], false, [⟨4096, -1⟩], []⟩,
          ⟨[⟨5120, -1⟩, ⟨6144, -1⟩], false, [⟨5120, -1⟩, ⟨6144, -1⟩], []⟩] ∧
      s.SubmitOk smallHeaps (members [[freshOutput 100], [freshOutput 7]]) [] ∧
      (s.ring.alloc smallHeaps (totalBytes (members [[freshOutput 100], [freshOutput 7]])) 0).1 =
        .slot 1 5120 3072 0)
    [.submit [[freshOutput 256]] [] 0] (by decide +kernel)
    fun s hs ⟨hslots, hafter, hok, hres⟩ => ?_
  obtain ⟨p, -, -, -, hkeys⟩ := OutputState.outputs_private hs hok (Prod.ext hres rfl)
  refine ⟨hslots, hafter, fun x hx => ?_⟩
  exact hkeys x hx 0 _ (by rw [hafter]; rfl) (by decide) rfl

/-- **An empty output shares the next slot's key.** Slot 0 has an output of 1024 bytes and one of
none. The second one's address is the end of the slab, where the slab of slot 1 begins: both
register the same key, and neither slot is consumed. -/
theorem empty_output_shares_key :
    ∃ s, Reach (OutputState.step smallHeaps) free .init s ∧
      s.slots = [⟨[⟨4096, -1⟩, ⟨5120, -1⟩], false, [⟨4096, -1⟩, ⟨5120, -1⟩], []⟩,
        ⟨[⟨5120, -1⟩], false, [⟨5120, -1⟩], []⟩] :=
  Reach.exists_of_run
    [.submit [[freshOutput 256, freshOutput 0]] [] 0, .submit [[freshOutput 256]] [] 0]
    (by decide +kernel)

end PtoRuntime.Hier
