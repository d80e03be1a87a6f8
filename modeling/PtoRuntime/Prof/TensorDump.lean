import PtoRuntime.Lib.RingLog
import PtoRuntime.Tmrb.TensorViews

/-!
# Tensor dumps

`dump_tensor_record` copies the elements of a tensor into the circular arena of its thread and
appends a record with the offset and the size of the copy; offsets only grow, and byte `q` of the
stream lies at `q % arena_size`. Full buffers of records are handed to the host, which walks them
in order and copies every payload out of the arena. Before that it compares the offset of the
record with the end of the furthest payload it has seen so far.

The device keeps writing while the host reads; every byte that one of them stores or loads is a
step. A buffer that cannot be handed over is emptied instead. What a call has copied and what
has been stored at each position of the stream is kept as history.

* `dump_bytes_exact` — if no byte is overwritten before the host loads it, every payload is what
  its call copied;
* `overwrite_unnoticed` — the test looks at the records before the one at hand only, which all lie
  below it: a payload that was overwritten is collected as if it were good.
-/

namespace PtoRuntime.Prof

open Lib Tmrb List Function

/-! ## What a call copies -/

/-- `TensorDumpInfo`. -/
structure DumpInfo where
  bufferAddr : Nat
  startOffset : Nat
  dtype : DataType
  shapes : List Nat
  strides : List Nat
  len : strides.length = shapes.length

def readBytes (mem : Nat → Nat) (addr n : Nat) : List Nat := (range n).map fun k => mem (addr + k)

/-- A loop that copies a chunk for `i`, `i + 1`, … while at least `need` bytes remain. -/
def gatherLoop (chunk : Nat → Nat → List Nat) (need : Nat) : Nat → Nat → Nat → List Nat
  | 0, _, _ => []
  | n + 1, i, remaining =>
    if need ≤ remaining then
      chunk i remaining ++ gatherLoop chunk need n (i + 1) (remaining - (chunk i remaining).length)
    else []

/-- An `int32_t` read from a `uint32_t`, as a `uint64_t`. -/
def signExtend (s : Nat) : Nat := if s < 2 ^ 31 then s else s + 2 ^ 64 - 2 ^ 32

/-- `gather_tensor_dump_dim`. -/
def gatherTensorDumpDim (mem : Nat → Nat) (addr elemSz : Nat) :
    List Nat → List Nat → Nat → Nat → List Nat
  | [], _, _, _ => []
  | [n], strides, base, remaining =>
    let s := strides.headD 0
    if s = 1 then readBytes mem (addr + base * elemSz) (min (n * elemSz) remaining)
    else gatherLoop (fun i _ => readBytes mem (addr + (base + i * s) * elemSz) elemSz)
      elemSz n 0 remaining
  | n :: shapes, strides, base, remaining =>
    gatherLoop (fun i remaining => gatherTensorDumpDim mem addr elemSz shapes strides.tail
      ((base + i * signExtend (strides.headD 0)) % 2 ^ 64) remaining) 1 n 0 remaining

namespace DumpInfo

variable (info : DumpInfo)

/-- `get_tensor_dump_num_elements`, in bytes. -/
def bytes : Nat :=
  info.shapes.foldl (fun total n => total * n % 2 ^ 64) 1 * info.dtype.elementSize % 2 ^ 64

/-- The number of bytes that are reserved in an arena. -/
def copyBytes (arenaSize : Nat) : Nat :=
  if arenaSize < info.bytes then arenaSize / 2 else info.bytes

/-- `write_tensor_dump_logical_prefix`. -/
def logicalPrefix (mem : Nat → Nat) (copyBytes : Nat) : List Nat :=
  if copyBytes = 0 then []
  else if Tensor.rowMajor64 info.shapes info.strides then
    readBytes mem (info.bufferAddr + info.startOffset * info.dtype.elementSize) copyBytes
  else
    gatherTensorDumpDim mem info.bufferAddr info.dtype.elementSize info.shapes info.strides
      info.startOffset copyBytes

end DumpInfo

theorem length_readBytes (mem : Nat → Nat) (addr n : Nat) : (readBytes mem addr n).length = n := by
  simp [readBytes]

/-- Chunks of `total` bytes, as long as there is room. -/
theorem length_gatherLoop {chunk : Nat → Nat → List Nat} {need elemSz total n i remaining : Nat}
    (hle : need ≤ elemSz)
    (hchunk : ∀ i r, elemSz ∣ r → need ≤ r → (chunk i r).length = min total r)
    (htotal : elemSz ∣ total) (hdvd : elemSz ∣ remaining) :
    (gatherLoop chunk need n i remaining).length = min (n * total) remaining := by
  induction n generalizing i remaining with
  | zero => simp [gatherLoop]
  | succ n ih =>
    rw [gatherLoop]
    split
    · rename_i hroom
      have hlen := hchunk i remaining hdvd hroom
      have hmin : elemSz ∣ min total remaining := by
        rcases le_total total remaining with h | h
        · rwa [min_eq_left h]
        · rwa [min_eq_right h]
      rw [length_append, hlen, ih (Nat.dvd_sub hdvd hmin), Nat.succ_mul]
      omega
    · rename_i hroom
      -- less than one element remains, so nothing does
      have hzero : remaining = 0 :=
        Nat.eq_zero_of_dvd_of_lt hdvd (lt_of_lt_of_le (Nat.lt_of_not_le hroom) hle)
      simp [hzero]

theorem length_gatherTensorDumpDim {mem : Nat → Nat} {addr elemSz : Nat} (hpos : 0 < elemSz)
    {shapes strides : List Nat} {base remaining : Nat} (hne : shapes ≠ [])
    (hdvd : elemSz ∣ remaining) :
    (gatherTensorDumpDim mem addr elemSz shapes strides base remaining).length =
      min (shapes.prod * elemSz) remaining := by
  match shapes with
  | [n] =>
    rw [gatherTensorDumpDim, prod_singleton]
    split
    · exact length_readBytes ..
    · refine length_gatherLoop le_rfl (fun i r _ hr => ?_) (dvd_refl _) hdvd
      rw [length_readBytes, min_eq_left hr]
  | n :: m :: shapes =>
    rw [gatherTensorDumpDim, prod_cons, mul_assoc]
    · exact length_gatherLoop hpos
        (fun i r hr _ => length_gatherTensorDumpDim hpos (cons_ne_nil m shapes) hr)
        (Nat.dvd_mul_left ..) hdvd
    · exact nofun

theorem length_logicalPrefix (info : DumpInfo) (mem : Nat → Nat) {arenaSize : Nat}
    (h : 16 ∣ arenaSize) : (info.logicalPrefix mem (info.copyBytes arenaSize)).length =
      info.copyBytes arenaSize := by
  have hpos : 0 < info.dtype.elementSize := by
    cases info.dtype <;> decide
  have helem : info.dtype.elementSize ∣ 8 := by
    cases info.dtype <;> decide
  have hbytes : info.dtype.elementSize ∣ info.bytes :=
    (Nat.dvd_mod_iff (helem.trans (by decide))).mpr (Nat.dvd_mul_left ..)
  have hle : info.bytes ≤ info.shapes.prod * info.dtype.elementSize := by
    have hfold := TensorCreateInfo.foldl_mul_mod info.shapes 1
    rw [one_mul] at hfold
    refine (Nat.mod_le ..).trans (Nat.mul_le_mul_right _ ?_)
    exact hfold.trans_le (Nat.mod_le ..)
  have hcopy : info.dtype.elementSize ∣ info.copyBytes arenaSize ∧
      info.copyBytes arenaSize ≤ info.shapes.prod * info.dtype.elementSize := by
    unfold DumpInfo.copyBytes
    split
    · obtain ⟨k, rfl⟩ := h
      exact ⟨helem.trans ⟨k, by omega⟩, by omega⟩
    · exact ⟨hbytes, hle⟩
  unfold DumpInfo.logicalPrefix
  split
  · rename_i h0
    exact h0.symm
  · split_ifs with hcont
    · exact length_readBytes ..
    · have hne : info.shapes ≠ [] := fun h0 => hcont (by simp [h0, Tensor.rowMajor64])
      rw [length_gatherTensorDumpDim hpos hne hcopy.1, min_eq_right hcopy.2]

/-! ## The device and the host -/

/-- `TensorDumpRecord`, and what its call copied. -/
structure DumpRecord where
  payloadOffset : Nat
  payloadSize : Nat
  truncated : Bool
  copied : List Nat

/-- `DumpedTensor`, and the record it was made from. -/
structure DumpedTensor where
  record : DumpRecord
  overwritten : Bool
  bytes : List Nat

/-- Where the host is: between two buffers, before the records that are left of one, or loading
the payload of the first of them. -/
inductive HostPc
  | idle
  | next (rest : List DumpRecord)
  | load (record : DumpRecord) (bytes : List Nat) (rest : List DumpRecord)

/-- The records of the buffer at hand, the one that is being loaded included. -/
def HostPc.records : HostPc → List DumpRecord
  | .idle => []
  | .next rest => rest
  | .load r _ rest => r :: rest

/-- The sizes; `calc_dump_arena_size` is a product of powers of two. -/
structure DumpConfig where
  arenaSize : Nat
  recordsPerBuffer : Nat
  arena_pos : 0 < arenaSize
  arena_dvd : 16 ∣ arenaSize

structure DumpState where
  arena : Nat → Nat
  arenaWriteOffset : Nat
  /-- The call that is going on, and how many bytes it has stored. -/
  call : Option (DumpRecord × Nat)
  current : List DumpRecord
  ready : List (List DumpRecord)
  host : HostPc
  highWater : Nat
  collected : List DumpedTensor
  /-- The byte stored at each position of the stream. -/
  stream : Nat → Nat

inductive DumpAct
  /-- `dump_tensor_record` up to the reservation; a full buffer is handed over if it can be. -/
  | record (info : DumpInfo) (mem : Nat → Nat) (handed : Bool)
  | store
  | append
  | flush (handed : Bool)
  /-- `process_dump_buffer` on the next buffer. -/
  | take
  | process
  | load

namespace DumpState

variable (c : DumpConfig)

def init : DumpState where
  arena _ := 0
  arenaWriteOffset := 0
  call := none
  current := []
  ready := []
  host := .idle
  highWater := 0
  collected := []
  stream _ := 0

/-- The buffer of the writer is handed over, or emptied. -/
def switch (s : DumpState) (handed : Bool) : DumpState :=
  { s with current := [], ready := if handed then s.ready ++ [s.current] else s.ready }

/-- The end of a round of the loop over the records. -/
def collect (s : DumpState) (d : DumpedTensor) (rest : List DumpRecord) : DumpState :=
  { s with
    host := .next rest
    highWater := max s.highWater (d.record.payloadOffset + d.record.payloadSize)
    collected := s.collected ++ [d] }

def step (s : DumpState) : DumpAct → Option DumpState
  | .record info mem handed =>
    match s.call with
    | some _ => none
    | none =>
      let s := if s.current.length < c.recordsPerBuffer then s else s.switch handed
      let n := info.copyBytes c.arenaSize
      some { s with
        call := some
          (⟨s.arenaWriteOffset, n, c.arenaSize < info.bytes, info.logicalPrefix mem n⟩, 0)
        arenaWriteOffset := s.arenaWriteOffset + n }
  | .store =>
    match s.call with
    | none => none
    | some (r, k) =>
      r.copied[k]?.map fun b =>
        { s with
          arena := update s.arena ((r.payloadOffset + k) % c.arenaSize) b
          call := some (r, k + 1)
          stream := update s.stream (r.payloadOffset + k) b }
  | .append =>
    match s.call with
    | none => none
    | some (r, k) =>
      if k < r.copied.length then none
      else some { s with call := none, current := s.current ++ [r] }
  | .flush handed => if s.call.isNone then some (s.switch handed) else none
  | .take =>
    match s.host, s.ready with
    | .idle, buffer :: ready => some { s with host := .next buffer, ready }
    | _, _ => none
  | .process =>
    match s.host with
    | .next [] => some { s with host := .idle }
    | .next (r :: rest) =>
      if c.arenaSize < s.highWater ∧ r.payloadOffset < s.highWater - c.arenaSize then
        some (s.collect ⟨r, true, []⟩ rest)
      else some { s with host := .load r [] rest }
    | _ => none
  | .load =>
    match s.host with
    | .load r bytes rest =>
      if bytes.length < r.payloadSize then
        let b := s.arena ((r.payloadOffset + bytes.length) % c.arenaSize)
        some { s with host := .load r (bytes ++ [b]) rest }
      else some (s.collect ⟨r, false, bytes⟩ rest)
    | _ => none

/-- The position of the stream that is stored next. -/
def stored (s : DumpState) : Nat :=
  match s.call with
  | none => s.arenaWriteOffset
  | some (r, k) => r.payloadOffset + k

/-- The position of the stream that the host loads in a step. -/
def loads (s : DumpState) : DumpAct → Option Nat
  | .load =>
    match s.host with
    | .load r bytes _ =>
      if bytes.length < r.payloadSize then some (r.payloadOffset + bytes.length) else none
    | _ => none
  | _ => none

/-- Condition on a step: a byte that the host loads has not been overwritten. -/
def Timely (s : DumpState) (a : DumpAct) : Prop := ∀ q ∈ s.loads a, s.stored ≤ q + c.arenaSize

instance (s : DumpState) (a : DumpAct) : Decidable (s.Timely c a) :=
  inferInstanceAs (Decidable (∀ q ∈ s.loads a, _))

/-- The records that the host has not collected yet. -/
def pending (s : DumpState) : List DumpRecord := s.host.records ++ (s.ready.flatten ++ s.current)

/-- The end of the payloads of all records. -/
def recorded (s : DumpState) : Nat :=
  match s.call with
  | none => s.arenaWriteOffset
  | some (r, _) => r.payloadOffset

end DumpState

/-! ## Order of the records -/

/-- Payloads one after the other, between two positions of the stream. -/
def Ordered : Nat → List DumpRecord → Nat → Prop
  | lo, [], hi => lo ≤ hi
  | lo, r :: l, hi => lo ≤ r.payloadOffset ∧ Ordered (r.payloadOffset + r.payloadSize) l hi

namespace Ordered

variable {lo hi : Nat} {l l' : List DumpRecord} {r : DumpRecord}

theorem le (h : Ordered lo l hi) : lo ≤ hi := by
  induction l generalizing lo with
  | nil => exact h
  | cons r l ih => exact h.1.trans ((Nat.le_add_right ..).trans (ih h.2))

theorem mem_le (h : Ordered lo l hi) (hr : r ∈ l) : r.payloadOffset + r.payloadSize ≤ hi := by
  induction l generalizing lo with
  | nil => cases hr
  | cons r' l ih =>
    rcases mem_cons.mp hr with rfl | hr
    · exact h.2.le
    · exact ih h.2 hr

theorem of_append (h : Ordered lo (l ++ l') hi) : Ordered lo l hi := by
  induction l generalizing lo with
  | nil => exact h.le
  | cons r l ih => exact ⟨h.1, ih h.2⟩

theorem snoc (h : Ordered lo l r.payloadOffset) :
    Ordered lo (l ++ [r]) (r.payloadOffset + r.payloadSize) := by
  induction l generalizing lo with
  | nil => exact ⟨h, le_rfl⟩
  | cons r' l ih => exact ⟨h.1, ih h.2⟩

end Ordered

/-! ## The invariant -/

namespace DumpState

variable {c : DumpConfig} {s s' : DumpState} {a : DumpAct}

/-- The first `n` bytes of a payload, as they were stored. -/
def streamed (s : DumpState) (r : DumpRecord) (n : Nat) : List Nat :=
  (range n).map fun k => s.stream (r.payloadOffset + k)

structure Inv (c : DumpConfig) (s : DumpState) : Prop where
  ring : RingLog.Stored c.arenaSize (s.stored - c.arenaSize) s.stored s.stream s.arena
  ordered : Ordered s.highWater s.pending s.recorded
  own : ∀ r ∈ s.pending, r.copied = s.streamed r r.payloadSize
  calling : ∀ r k, s.call = some (r, k) → r.copied.length = r.payloadSize ∧ k ≤ r.payloadSize ∧
    r.payloadOffset + r.payloadSize = s.arenaWriteOffset ∧ r.copied.take k = s.streamed r k
  loading : ∀ r bytes rest, s.host = .load r bytes rest →
    bytes.length ≤ r.payloadSize ∧ bytes = s.streamed r bytes.length
  collected : ∀ d ∈ s.collected, d.overwritten = false ∧ d.bytes = d.record.copied

theorem Inv.init : Inv c init where
  ring := ⟨Nat.zero_le _, fun l _ hl => by cases hl⟩
  ordered := le_refl 0
  own := nofun
  calling := nofun
  loading := nofun
  collected := nofun

theorem Inv.switch (h : s.Inv c) (handed : Bool) : (s.switch handed).Inv c := by
  have hpend : ∃ l, s.pending = (s.switch handed).pending ++ l := by
    cases handed with
    | true => exact ⟨[], by simp [pending, DumpState.switch]⟩
    | false => exact ⟨s.current, by simp [pending, DumpState.switch]⟩
  obtain ⟨l, hl⟩ := hpend
  have hordered := h.ordered
  have hown := h.own
  rw [hl] at hordered hown
  exact { h with
    ordered := hordered.of_append
    own := fun r hr => hown r (mem_append_left l hr) }

theorem Inv.record {info : DumpInfo} {mem : Nat → Nat} (h : s.Inv c) (hcall : s.call = none) :
    Inv c { s with
      call := some (⟨s.arenaWriteOffset, info.copyBytes c.arenaSize, c.arenaSize < info.bytes,
        info.logicalPrefix mem (info.copyBytes c.arenaSize)⟩, 0)
      arenaWriteOffset := s.arenaWriteOffset + info.copyBytes c.arenaSize } := by
  have hstored : s.stored = s.arenaWriteOffset := by rw [stored, hcall]
  have hrecorded : s.recorded = s.arenaWriteOffset := by rw [recorded, hcall]
  refine ⟨hstored ▸ h.ring, hrecorded ▸ h.ordered, h.own, ?_, h.loading, h.collected⟩
  rintro r k ⟨⟩
  exact ⟨length_logicalPrefix info mem c.arena_dvd, Nat.zero_le _, rfl, rfl⟩

theorem Inv.store {r : DumpRecord} {k b : Nat} (h : s.Inv c) (hcall : s.call = some (r, k))
    (hb : r.copied[k]? = some b) :
    Inv c { s with
      arena := update s.arena ((r.payloadOffset + k) % c.arenaSize) b
      call := some (r, k + 1)
      stream := update s.stream (r.payloadOffset + k) b } := by
  obtain ⟨hlen, -, hend, htake⟩ := h.calling r k hcall
  have hstored : s.stored = r.payloadOffset + k := by rw [stored, hcall]
  have hrecorded : s.recorded = r.payloadOffset := by rw [recorded, hcall]
  have hlt : k < r.copied.length := (List.getElem?_eq_some_iff.mp hb).1
  -- the byte goes behind everything that was stored before
  have hkeep {r' : DumpRecord} {n : Nat} (hle : r'.payloadOffset + n ≤ r.payloadOffset + k) :
      (range n).map (fun j => update s.stream (r.payloadOffset + k) b (r'.payloadOffset + j)) =
        s.streamed r' n :=
    map_congr_left fun j hj => update_of_ne (by have := mem_range.mp hj; omega) ..
  have hpending {r' : DumpRecord} (hr' : r' ∈ s.pending) :
      r'.payloadOffset + r'.payloadSize ≤ r.payloadOffset + k :=
    ((h.ordered.mem_le hr').trans_eq hrecorded).trans (Nat.le_add_right ..)
  have hordered := h.ordered
  rw [hrecorded] at hordered
  refine ⟨?_, hordered, fun r' hr' => ?_, ?_, ?_, h.collected⟩
  · have hring := h.ring
    rw [hstored] at hring
    have hroom : r.payloadOffset + k < r.payloadOffset + k + 1 - c.arenaSize +
      c.arenaSize := by omega
    exact (hring.advance (by omega)).push hroom b
  · exact (h.own r' hr').trans (hkeep (hpending hr')).symm
  · rintro r k ⟨⟩
    refine ⟨hlen, hlen ▸ hlt, hend, ?_⟩
    show r.copied.take (k + 1) =
      (range (k + 1)).map fun j => update s.stream (r.payloadOffset + k) b (r.payloadOffset + j)
    rw [range_succ, map_append, hkeep (le_refl _), map_singleton, update_self,
      take_add_one, hb, htake]
    rfl
  · intro r' bytes rest hhost
    have hhost : s.host = .load r' bytes rest := hhost
    obtain ⟨hle, hbytes⟩ := h.loading r' bytes rest hhost
    refine ⟨hle, hbytes.trans (hkeep ?_).symm⟩
    exact (Nat.add_le_add_left hle _).trans (hpending (by simp [pending, hhost, HostPc.records]))

theorem Inv.append {r : DumpRecord} {k : Nat} (h : s.Inv c) (hcall : s.call = some (r, k))
    (hk : r.copied.length ≤ k) : Inv c { s with call := none, current := s.current ++ [r] } := by
  obtain ⟨hlen, hle, hend, htake⟩ := h.calling r k hcall
  have hkeq : k = r.payloadSize := by omega
  have hstored : s.stored = s.arenaWriteOffset := by rw [stored, hcall, ← hend, hkeq]
  have hrecorded : s.recorded = r.payloadOffset := by rw [recorded, hcall]
  have hpend : pending { s with call := none, current := s.current ++ [r] } = s.pending ++ [r] := by
    simp [pending]
  refine ⟨hstored ▸ h.ring, ?_, ?_, nofun, h.loading, h.collected⟩
  · rw [hpend]
    have hsnoc := (hrecorded ▸ h.ordered).snoc
    rwa [hend] at hsnoc
  · rw [hpend]
    intro r' hr'
    rcases mem_append.mp hr' with hr' | hr'
    · exact h.own r' hr'
    · rw [mem_singleton.mp hr']
      rwa [take_of_length_le hk, hkeq] at htake

/-- A record with a payload as it was copied has been dealt with. -/
theorem Inv.collect {r : DumpRecord} {bytes : List Nat} {rest : List DumpRecord} (h : s.Inv c)
    (hrecords : s.host.records = r :: rest) (hbytes : bytes = r.copied) :
    (s.collect ⟨r, false, bytes⟩ rest).Inv c := by
  have hpend : s.pending = r :: (s.collect ⟨r, false, bytes⟩ rest).pending := by
    rw [pending, hrecords]
    rfl
  have hordered := h.ordered
  have hown := h.own
  rw [hpend] at hordered hown
  refine ⟨h.ring, ?_, fun r' hr' => hown r' (mem_cons_of_mem _ hr'), h.calling, nofun, ?_⟩
  · have hmax : (s.collect ⟨r, false, bytes⟩ rest).highWater = r.payloadOffset + r.payloadSize :=
      Nat.max_eq_right (hordered.1.trans (Nat.le_add_right ..))
    rw [hmax]
    exact hordered.2
  · intro d hd
    rcases mem_append.mp hd with hd | hd
    · exact h.collected d hd
    · rw [mem_singleton.mp hd]
      exact ⟨rfl, hbytes⟩

/-- One timely step. -/
theorem Inv.step (h : s.Inv c) (hok : s.Timely c a) (hst : s.step c a = some s') : s'.Inv c := by
  cases a with
  | record info mem handed =>
    simp only [DumpState.step] at hst
    split at hst
    · cases hst
    · rename_i hcall
      cases hst
      split
      · exact h.record hcall
      · exact (h.switch handed).record hcall
  | store =>
    simp only [DumpState.step] at hst
    split at hst
    · cases hst
    · rename_i r k hcall
      obtain ⟨b, hb, rfl⟩ := Option.map_eq_some_iff.mp hst
      exact h.store hcall hb
  | append =>
    simp only [DumpState.step] at hst
    split at hst
    · cases hst
    · rename_i r k hcall
      split_ifs at hst
      cases hst
      exact h.append hcall (by omega)
  | flush handed =>
    obtain ⟨-, ⟨⟩⟩ := Option.ite_none_right_eq_some.mp hst
    exact h.switch handed
  | take =>
    simp only [DumpState.step] at hst
    split at hst
    · rename_i buffer ready hhost hready
      cases hst
      have hpend : pending { s with host := .next buffer, ready } = s.pending := by
        simp [pending, hhost, hready, HostPc.records]
      exact { h with ordered := hpend ▸ h.ordered, own := hpend ▸ h.own, loading := nofun }
    · cases hst
  | process =>
    simp only [DumpState.step] at hst
    split at hst
    · rename_i hhost
      cases hst
      have hpend : pending { s with host := .idle } = s.pending := by
        simp [pending, hhost, HostPc.records]
      exact { h with ordered := hpend ▸ h.ordered, own := hpend ▸ h.own, loading := nofun }
    · rename_i r rest hhost
      have hpend : s.pending = r :: (rest ++ (s.ready.flatten ++ s.current)) := by
        simp [pending, hhost, HostPc.records]
      split at hst
      · -- the high-water mark is not above the record
        rename_i hover
        have hle := (hpend ▸ h.ordered).1
        omega
      · cases hst
        have hpend : pending { s with host := .load r [] rest } = s.pending := by
          simp [pending, hhost, HostPc.records]
        refine { h with ordered := hpend ▸ h.ordered, own := hpend ▸ h.own, loading := ?_ }
        rintro r bytes rest ⟨⟩
        exact ⟨Nat.zero_le _, rfl⟩
    · cases hst
  | load =>
    simp only [DumpState.step] at hst
    split at hst
    · rename_i r bytes rest hhost
      obtain ⟨hle, hbytes⟩ := h.loading r bytes rest hhost
      have hmem : r ∈ s.pending := by simp [pending, hhost, HostPc.records]
      split at hst
      · rename_i hlt
        cases hst
        have hend := h.ordered.mem_le hmem
        have hstored : s.recorded ≤ s.stored := by
          unfold recorded stored
          split
          · exact le_rfl
          · exact Nat.le_add_right ..
        have htimely : s.stored ≤ r.payloadOffset + bytes.length + c.arenaSize :=
          hok _ (by simp [loads, hhost, hlt])
        have hread := h.ring.read (r.payloadOffset + bytes.length) (by omega) (by omega)
        have hpend (b : Nat) :
            pending { s with host := .load r (bytes ++ [b]) rest } = s.pending := by
          simp [pending, hhost, HostPc.records]
        refine { h with ordered := hpend _ ▸ h.ordered, own := hpend _ ▸ h.own, loading := ?_ }
        rintro r bytes rest ⟨⟩
        rw [length_append, length_singleton]
        refine ⟨hlt, ?_⟩
        rw [streamed, range_succ, map_append, hread]
        exact congrArg (· ++ _) hbytes
      · rename_i hge
        cases hst
        refine h.collect (by rw [hhost]; rfl) ?_
        rw [h.own r hmem, hbytes, le_antisymm hle (Nat.le_of_not_lt hge)]
    · cases hst

end DumpState

/--
**Tensor dumps.** In every run in which no byte of a payload is overwritten before the host
loads it, each collected tensor is reported as good and carries the bytes that its own call
copied into the arena.
-/
theorem dump_bytes_exact {c : DumpConfig} {s : DumpState}
    (h : Reach (DumpState.step c) (DumpState.Timely c) .init s) :
    ∀ d ∈ s.collected, d.overwritten = false ∧ d.bytes = d.record.copied :=
  (h.invariant .init fun _ _ _ _ hi hok hst => hi.step hok hst : s.Inv c).collected

/-- An arena of 16 bytes, and buffers of one record. -/
def smallArena : DumpConfig := ⟨16, 1, by decide, by decide⟩

/-- A call that copies eight times the byte `b`. -/
def eightOf (b : Nat) : List DumpAct :=
  .record ⟨0, 0, .int8, [8], [1], rfl⟩ (fun _ => b) true :: replicate 8 .store ++ [DumpAct.append]

/-- One record of two is collected. -/
theorem dump_bytes_exact_two : ∃ s : DumpState, s.collected.length = 1 ∧
    ∀ d ∈ s.collected, d.overwritten = false ∧ d.bytes = d.record.copied := by
  have hrun : ∃ s : DumpState,
      Reach (DumpState.step smallArena) (DumpState.Timely smallArena) .init s ∧
        s.collected.length = 1 :=
    Reach.exists_of_run (eightOf 1 ++ eightOf 2 ++ [.take, .process] ++ replicate 9 .load)
      (by decide +kernel)
  obtain ⟨s, hs, hlen⟩ := hrun
  exact ⟨s, hlen, dump_bytes_exact hs⟩

/-- The third copy overwrites the first, which is then collected as good. -/
theorem overwrite_unnoticed : ∃ s : DumpState, Reach (DumpState.step smallArena) free .init s ∧
    ∃ d ∈ s.collected, d.overwritten = false ∧ d.record.copied = replicate 8 1 ∧
      d.bytes = replicate 8 3 :=
  Reach.exists_of_run
    (eightOf 1 ++ eightOf 2 ++ eightOf 3 ++ [.take, .process] ++ replicate 9 .load)
    (by decide +kernel)

end PtoRuntime.Prof
