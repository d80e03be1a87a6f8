import PtoRuntime.Lib.Linked
import PtoRuntime.Tmrb.Tensor

/-!
# The pointers of the tensor map

An entry of `PTO2TensorMap` is on two intrusive lists at once: the chain of its bucket and the
chain of its producer's slot. `insert` pushes it on both; `remove_entry` unlinks it from both,
also while a lookup stands on it; `cleanup_retired` walks the chain of a slot, unlinks every entry
from its bucket and drops the whole chain in the end. The bucket of an address is the top bits of
a product, taken by a shift that depends on the number of buckets.

Each call is a step, except that `lookup` takes one step for every entry it visits, with the
decisions of the callback as an argument. The entry to visit next is latched before the callback
runs.

* `map_links_consistent` — with two buckets or more, and windows that are not empty, the chains
  are linked lists in both directions, each entry in use is on the chain of its bucket and on the
  chain of its slot, and all others that were ever used are free;
* `one_bucket_out_of_range` — a single bucket is accepted, but the shift is then by 64.
-/

namespace PtoRuntime.Tmrb

open Lib List Function Option

/-- The arguments of `init`. -/
structure MapSizes where
  numBuckets : Nat
  poolSize : Nat
  taskWindowSizes : Nat → Nat

/-- `__builtin_ctz` of a number below `2 ^ bits`. -/
def builtinCtz : Nat → Nat → Nat
  | 0, _ => 0
  | bits + 1, n => if n % 2 = 1 then 0 else builtinCtz bits (n / 2) + 1

namespace MapSizes

variable (z : MapSizes)

/-- The test in `init`, on an `int32_t`. -/
def Accepted : Prop := z.numBuckets < 2 ^ 31 ∧ z.numBuckets &&& (z.numBuckets - 1) = 0

/-- `hash`. The hardware takes the shift modulo 64. -/
def hash (key : Nat) : Nat :=
  (key * 0x9E3779B97F4A7C15 % 2 ^ 64) >>> ((64 - builtinCtz 32 z.numBuckets) % 64) % 2 ^ 32

/-- `get_task_local_id_slot`, with the ring. -/
def slot (t : TaskId) : SlotRef := ⟨t.ring, t.loc &&& (z.taskWindowSizes t.ring - 1)⟩

end MapSizes

/-- `PTO2TensorMap`. `bucketIndex` is `none` for -1. -/
structure MapState where
  buckets : Nat → Option Nat
  taskEntryHeads : SlotRef → Option Nat
  entries : Nat → Entry
  bucketIndex : Nat → Option Nat
  inBucket : Links Nat
  inTask : Links Nat
  freeEntryList : List Nat
  nextEntryIdx : Nat
  lastTaskAlives : Nat → Nat

/-- The map, and the lookup that is going on: its tensor and the entry to visit next. -/
structure MapRun where
  map : MapState
  cursor : Option (Tensor × Option Nat)

inductive MapOp
  | insert (t : Tensor) (producer : TaskId)
  | lookup (t : Tensor)
  /-- One round of the loop of `lookup`; the callback may remove the entry, and stop. -/
  | visit (remove stop : Bool)
  | removeEntry (e : Nat)
  | cleanupRetired (ring oldLastTaskAlive newLastTaskAlive : Nat)
  | syncValidity (ring lastTaskAlive : Nat)

namespace MapState

/-- `init`. -/
def init : MapState where
  buckets _ := none
  taskEntryHeads _ := none
  entries _ := ⟨0, ⟨0, 0⟩, 0, 0, .float32, false, [], 0, []⟩
  bucketIndex _ := none
  inBucket := ⟨fun _ => none, fun _ => none⟩
  inTask := ⟨fun _ => none, fun _ => none⟩
  freeEntryList := []
  nextEntryIdx := 0
  lastTaskAlives _ := 0

variable (z : MapSizes)

/-- `new_entry`; a full pool is a failed assertion. -/
def newEntry (m : MapState) : Option (Nat × MapState) :=
  match m.freeEntryList with
  | e :: rest => some (e, { m with freeEntryList := rest })
  | [] =>
    if m.nextEntryIdx < z.poolSize then
      some (m.nextEntryIdx, { m with nextEntryIdx := m.nextEntryIdx + 1 })
    else none

/-- `link_entry`. -/
def linkEntry (m : MapState) (e : Nat) (entry : Entry) : MapState :=
  let bucket := z.hash entry.addr
  let slot := z.slot entry.producer
  { m with
    entries := update m.entries e entry
    bucketIndex := update m.bucketIndex e (some bucket)
    inBucket := m.inBucket.push (m.buckets bucket) e
    buckets := update m.buckets bucket (some e)
    inTask := m.inTask.push (m.taskEntryHeads slot) e
    taskEntryHeads := update m.taskEntryHeads slot (some e) }

/-- `free_entry`; an entry in no bucket is a failed assertion. -/
def freeEntry (m : MapState) (e : Nat) : Option MapState :=
  (m.bucketIndex e).map fun bucket =>
    { m with
      buckets := update m.buckets bucket (m.inBucket.headAfter (m.buckets bucket) e)
      inBucket := m.inBucket.unlink e
      freeEntryList := e :: m.freeEntryList
      bucketIndex := update m.bucketIndex e none
      inTask := m.inTask.clear e }

/-- `remove_from_task`. -/
def removeFromTask (m : MapState) (e : Nat) : MapState :=
  let slot := z.slot (m.entries e).producer
  { m with
    taskEntryHeads :=
      update m.taskEntryHeads slot (m.inTask.headAfter (m.taskEntryHeads slot) e)
    inTask := m.inTask.unlink e }

/-- `remove_entry`. -/
def removeEntry (m : MapState) (e : Nat) : Option MapState := (m.removeFromTask z e).freeEntry e

/-- The inner loop of `cleanup_retired`, for at most `fuel` entries. -/
def freeTaskEntries (m : MapState) : Nat → Option Nat → Option MapState
  | _, none => some m
  | 0, some _ => none
  | fuel + 1, some cur => (m.freeEntry cur).bind fun m' =>
      m'.freeTaskEntries fuel (m.inTask.next cur)

/-- The body of the outer loop. No chain is longer than the part of the pool that is in use. -/
def cleanupSlot (m : MapState) (slot : SlotRef) : Option MapState :=
  (m.freeTaskEntries m.nextEntryIdx (m.taskEntryHeads slot)).map fun m' =>
    { m' with taskEntryHeads := update m'.taskEntryHeads slot none }

/-- `cleanup_retired(ring, local_id, local_id + n)`. -/
def cleanupRetired (m : MapState) (ring localId : Nat) : Nat → Option MapState
  | 0 => some m
  | n + 1 => (m.cleanupSlot (z.slot ⟨ring, localId⟩)).bind fun m' =>
      m'.cleanupRetired ring (localId + 1) n

/-- `entry_valid`. -/
def entryValid (m : MapState) (e : Nat) : Bool :=
  m.lastTaskAlives (m.entries e).producer.ring ≤ (m.entries e).producer.loc

/-- The entry is valid, of the same buffer, and overlaps the tensor. -/
def isMatch (m : MapState) (t : Tensor) (e : Nat) : Bool :=
  m.entryValid e && t.addr = (m.entries e).addr && (m.entries e).checkOverlap t ≠ .noOverlap

end MapState

namespace MapRun

def init : MapRun := ⟨.init, none⟩

def step (z : MapSizes) (r : MapRun) : MapOp → Option MapRun
  | .insert t producer =>
    if r.cursor = none ∧ producer.ring < maxRingDepth then
      (r.map.newEntry z).map fun (e, m) => ⟨m.linkEntry z e (.copyFromTensor t producer), none⟩
    else none
  | .lookup t =>
    if r.cursor = none then some ⟨r.map, some (t, r.map.buckets (z.hash t.addr))⟩ else none
  | .visit remove stop =>
    match r.cursor with
    | none => none
    | some (_, none) => some ⟨r.map, none⟩
    | some (t, some cur) =>
      let nextEntry := r.map.inBucket.next cur
      if r.map.isMatch t cur then
        (if remove then r.map.removeEntry z cur else some r.map).map fun m =>
          ⟨m, if stop then none else some (t, nextEntry)⟩
      else some ⟨r.map, some (t, nextEntry)⟩
  | .removeEntry e => if r.cursor = none then (r.map.removeEntry z e).map (⟨·, none⟩) else none
  | .cleanupRetired ring old new =>
    if r.cursor = none ∧ ring < maxRingDepth then
      (r.map.cleanupRetired z ring old (new - old)).map (⟨·, none⟩)
    else none
  | .syncValidity ring n =>
    if r.cursor = none then
      some ⟨{ r.map with lastTaskAlives := update r.map.lastTaskAlives ring n }, none⟩
    else none

end MapRun

/-! ## Indices -/

namespace MapSizes

variable {z : MapSizes}

theorem builtinCtz_two_pow {bits k : Nat} (h : k < bits) : builtinCtz bits (2 ^ k) = k := by
  induction bits generalizing k with
  | zero => cases h
  | succ bits ih =>
    cases k with
    | zero => rfl
    | succ k =>
      have heven : 2 ^ (k + 1) % 2 ≠ 1 := by
        rw [Nat.pow_succ, Nat.mul_mod_left]
        decide
      rw [builtinCtz, if_neg heven, Nat.pow_succ, Nat.mul_div_cancel _ (by decide),
        ih (Nat.lt_of_succ_lt_succ h)]

theorem hash_lt (h : z.Accepted) (hb : 2 ≤ z.numBuckets) (key : Nat) :
    z.hash key < z.numBuckets := by
  obtain ⟨k, hk⟩ := (Nat.and_sub_one_eq_zero_iff_isPowerOfTwo (by omega)).mp h.2
  have hpos : 0 < k := Nat.pos_of_ne_zero fun h0 => by simp [hk, h0] at hb
  have hlt : k < 31 := (Nat.pow_lt_pow_iff_right (by decide)).mp (hk ▸ h.1)
  have hword : key * 0x9E3779B97F4A7C15 % 2 ^ 64 < 2 ^ (64 - k) * 2 ^ k := by
    rw [← Nat.pow_add, Nat.sub_add_cancel (by omega)]
    exact Nat.mod_lt _ (by decide)
  rw [hash, hk, builtinCtz_two_pow (by omega), Nat.mod_eq_of_lt (by omega : 64 - k < 64),
    Nat.shiftRight_eq_div_pow]
  exact lt_of_le_of_lt (Nat.mod_le ..) (Nat.div_lt_of_lt_mul hword)

theorem slot_lt (hw : ∀ r, 1 ≤ z.taskWindowSizes r) (t : TaskId) :
    (z.slot t).idx < z.taskWindowSizes t.ring := by
  have hle : (z.slot t).idx ≤ z.taskWindowSizes t.ring - 1 := Nat.and_le_right
  have hpos := hw t.ring
  omega

end MapSizes

/-! ## Chains -/

namespace MapState

variable {z : MapSizes} {m m' : MapState} {B : Nat → List Nat} {T : SlotRef → List Nat}
  {D : List Nat} {cut : Option SlotRef} {e b : Nat}

/-- The chains of the buckets and of the slots, head first. The entries of `D` are still in their
buckets but on no chain of a slot any more; the head of the slot `cut` is stale. -/
structure Chained (z : MapSizes) (m : MapState) (B : Nat → List Nat) (T : SlotRef → List Nat)
    (D : List Nat) (cut : Option SlotRef) : Prop where
  bucket : ∀ b, Linked m.inBucket none (m.buckets b) (B b)
  bucketNodup : ∀ b, (B b).Nodup
  task : ∀ s, cut ≠ some s → Linked m.inTask none (m.taskEntryHeads s) (T s)
  taskNodup : ∀ s, (T s).Nodup
  memBucket : ∀ e b, e ∈ B b ↔ m.bucketIndex e = some b
  home : ∀ e b, m.bucketIndex e = some b → b = z.hash (m.entries e).addr
  memTask : ∀ e s, e ∈ T s ↔ m.bucketIndex e ≠ none ∧ z.slot (m.entries e).producer = s ∧ e ∉ D
  freeNodup : m.freeEntryList.Nodup
  memFree : ∀ e, e ∈ m.freeEntryList ↔ e < m.nextEntryIdx ∧ m.bucketIndex e = none
  used : ∀ e, m.bucketIndex e ≠ none → e < m.nextEntryIdx

namespace Chained

theorem init : Chained z .init (fun _ => []) (fun _ => []) [] none := by
  constructor <;> simp [MapState.init, Linked]

/-- `free_entry` of an entry that is on no chain of a slot. -/
theorem freeEntry (h : m.Chained z B T (e :: D) cut) (he : e ∉ D) (hb : m.bucketIndex e = some b) :
    ∃ m', m.freeEntry e = some m' ∧ m'.nextEntryIdx = m.nextEntryIdx ∧ m'.inTask =
      m.inTask.clear e ∧
      m'.Chained z (update B b ((B b).erase e)) T D cut := by
  refine ⟨_, (congrArg (Option.map _) hb).trans rfl, rfl, rfl, ?_⟩
  have hmem : e ∈ B b := (h.memBucket e b).mpr hb
  have hoff (s : SlotRef) : e ∉ T s := fun hs => ((h.memTask e s).mp hs).2.2 mem_cons_self
  constructor
  · intro b'
    by_cases hbb : b' = b
    · subst hbb
      simpa using (h.bucket b').unlink (h.bucketNodup b') hmem
    · have hdisj : ∀ x ∈ B b', x ∉ B b := fun x hx hx' =>
        hbb (some.inj (((h.memBucket x b').mp hx).symm.trans ((h.memBucket x b).mp hx')))
      simpa [hbb] using (h.bucket b').unlink_other (h.bucket b) (h.bucketNodup b) hmem hdisj
  · intro b'
    by_cases hbb : b' = b
    · subst hbb
      simpa using (h.bucketNodup b').erase e
    · simpa [hbb] using h.bucketNodup b'
  · exact fun s hs => (h.task s hs).clear (hoff s)
  · exact h.taskNodup
  · intro x b'
    have hx := h.memBucket x b'
    by_cases hxe : x = e
    · subst hxe
      by_cases hbb : b' = b
      · subst hbb
        simp [(h.bucketNodup b').mem_erase_iff]
      · simp [hbb, hx, hb, Ne.symm hbb]
    · by_cases hbb : b' = b
      · subst hbb
        simp [(h.bucketNodup b').mem_erase_iff, hxe, hx]
      · simp [hbb, hxe, hx]
  · intro x b' hx
    by_cases hxe : x = e
    · simp [hxe] at hx
    · exact h.home x b' (by simpa [hxe] using hx)
  · intro x s
    by_cases hxe : x = e
    · simp [hxe, hoff s]
    · simp [hxe, h.memTask x s]
  · exact nodup_cons.mpr ⟨fun hf => absurd ((h.memFree e).mp hf).2 (by simp [hb]), h.freeNodup⟩
  · intro x
    by_cases hxe : x = e
    · simp [hxe, h.used e (by simp [hb])]
    · simp [hxe, h.memFree x]
  · intro x hx
    by_cases hxe : x = e
    · simp [hxe] at hx
    · exact h.used x (by simpa [hxe] using hx)

/-- `remove_from_task`. -/
theorem removeFromTask {slot : SlotRef} (h : m.Chained z B T [] none) (he : m.bucketIndex e ≠ none)
    (hslot : z.slot (m.entries e).producer = slot) :
    (m.removeFromTask z e).Chained z B (update T slot ((T slot).erase e)) [e] none := by
  have hmem : e ∈ T slot := (h.memTask e slot).mpr ⟨he, hslot, not_mem_nil⟩
  refine { h with task := ?_, taskNodup := ?_, memTask := ?_ }
  · intro s _
    by_cases hs : s = slot
    · subst hs
      simpa [MapState.removeFromTask, hslot] using (h.task s nofun).unlink (h.taskNodup s) hmem
    · have hdisj : ∀ x ∈ T s, x ∉ T slot := fun x hx hx' =>
        hs (((h.memTask x s).mp hx).2.1.symm.trans ((h.memTask x slot).mp hx').2.1)
      simpa [MapState.removeFromTask, hslot, hs] using
        (h.task s nofun).unlink_other (h.task slot nofun) (h.taskNodup slot) hmem hdisj
  · intro s
    by_cases hs : s = slot
    · subst hs
      simpa using (h.taskNodup s).erase e
    · simpa [hs] using h.taskNodup s
  · intro x s
    show _ ↔ m.bucketIndex x ≠ none ∧ z.slot (m.entries x).producer = s ∧ x ∉ [e]
    have hx := h.memTask x s
    by_cases hs : s = slot
    · subst hs
      simp only [update_self, (h.taskNodup s).mem_erase_iff, hx, mem_singleton,
        not_mem_nil, not_false_eq_true, and_true]
      tauto
    · simp only [update_of_ne hs, hx, mem_singleton, not_mem_nil, not_false_eq_true, and_true]
      refine ⟨fun ⟨hb, hs'⟩ => ⟨hb, hs', fun hxe => hs ?_⟩, fun ⟨hb, hs', _⟩ => ⟨hb, hs'⟩⟩
      rw [← hs', hxe, hslot]

theorem removeEntry (h : m.Chained z B T [] none) (hrem : m.removeEntry z e = some m') :
    (∃ B T, m'.Chained z B T [] none) ∧
      ∀ x, x ≠ e → m'.bucketIndex x = m.bucketIndex x := by
  cases hb : m.bucketIndex e with
  | none => simp [MapState.removeEntry, MapState.freeEntry, MapState.removeFromTask, hb] at hrem
  | some b =>
    obtain ⟨m₁, heq, -, -, hm₁⟩ := (h.removeFromTask (by simp [hb]) rfl).freeEntry not_mem_nil hb
    have hfree : m'.bucketIndex = update m.bucketIndex e none := by
      simp only [MapState.removeEntry, MapState.freeEntry, MapState.removeFromTask, hb,
        map_some, some.injEq] at hrem
      rw [← hrem]
    cases heq.symm.trans hrem
    exact ⟨⟨_, _, hm₁⟩, fun x hx => by rw [hfree, update_of_ne hx]⟩

theorem not_mem_task (h : m.Chained z B T D cut) (he : m.bucketIndex e = none) (s : SlotRef) :
    e ∉ T s := fun hs => ((h.memTask e s).mp hs).1 he

/-- An entry that is in no list. -/
theorem newEntry {m₁ : MapState} (h : m.Chained z B T [] none)
    (hnew : m.newEntry z = some (e, m₁)) :
    ∃ free next, m₁ = { m with freeEntryList := free, nextEntryIdx := next } ∧
      m.bucketIndex e = none ∧ e < next ∧ m.nextEntryIdx ≤ next ∧ free.Nodup ∧
      ∀ x, x ∈ free ↔ x < next ∧ m.bucketIndex x = none ∧ x ≠ e := by
  have hnd := h.freeNodup
  have hmem := h.memFree
  unfold MapState.newEntry at hnew
  split at hnew
  -- an entry of the free list
  · rename_i a rest hfree
    cases hnew
    rw [hfree] at hnd hmem
    obtain ⟨ha, hrest⟩ := nodup_cons.mp hnd
    obtain ⟨hlt, hnone⟩ := (hmem e).mp mem_cons_self
    refine ⟨rest, _, rfl, hnone, hlt, le_rfl, hrest, fun x => ?_⟩
    have hx := hmem x
    by_cases hxe : x = e
    · simp [hxe, ha]
    · simp only [mem_cons, hxe, false_or] at hx
      simp [hx, hxe]
  -- the next unused entry of the pool
  · rename_i hfree
    obtain ⟨-, hnew⟩ := ite_none_right_eq_some.mp hnew
    cases hnew
    rw [hfree] at hmem
    have hnone : m.bucketIndex m.nextEntryIdx = none :=
      not_not.mp fun hne => lt_irrefl _ (h.used _ hne)
    refine ⟨[], _, by rw [← hfree], hnone, Nat.lt_succ_self _, Nat.le_succ _,
      nodup_nil, fun x => ?_⟩
    have hx := hmem x
    simp only [not_mem_nil, false_iff, not_and] at hx ⊢
    exact fun hlt hb hne => hx (Nat.lt_of_le_of_ne (Nat.le_of_lt_succ hlt) hne) hb

theorem linkEntry {m₁ : MapState} (h : m.Chained z B T [] none)
    (hnew : m.newEntry z = some (e, m₁)) (entry : Entry) :
    ∃ B T, (m₁.linkEntry z e entry).Chained z B T [] none := by
  obtain ⟨free, next, rfl, hnone, hlt, hle, hnd, hmem⟩ := h.newEntry hnew
  obtain ⟨b, hb⟩ : ∃ b, z.hash entry.addr = b := ⟨_, rfl⟩
  obtain ⟨slot, hslot⟩ : ∃ slot, z.slot entry.producer = slot := ⟨_, rfl⟩
  have hoff (b' : Nat) : e ∉ B b' := fun hin => absurd ((h.memBucket e b').mp hin) (by simp [hnone])
  refine ⟨update B b (e :: B b), update T slot (e :: T slot), ?_⟩
  simp only [MapState.linkEntry, hb, hslot]
  constructor
  · intro b'
    by_cases hbb : b' = b
    · subst hbb
      simpa using (h.bucket b').push (h.bucketNodup b') (hoff b')
    · have hhead : ∀ x ∈ B b', m.buckets b ≠ some x := fun x hx heq => hbb (some.inj
        (((h.memBucket x b').mp hx).symm.trans ((h.memBucket x b).mp (heq ▸ h.bucket b).head_mem)))
      simpa [hbb] using (h.bucket b').push_other (hoff b') hhead
  · intro b'
    by_cases hbb : b' = b
    · subst hbb
      simpa using ⟨hoff b', h.bucketNodup b'⟩
    · simpa [hbb] using h.bucketNodup b'
  · intro s _
    by_cases hs : s = slot
    · subst hs
      simpa using (h.task s nofun).push (h.taskNodup s) (h.not_mem_task hnone s)
    · have hhead : ∀ x ∈ T s, m.taskEntryHeads slot ≠ some x := fun x hx heq =>
        hs (((h.memTask x s).mp hx).2.1.symm.trans
          ((h.memTask x slot).mp (heq ▸ h.task slot nofun).head_mem).2.1)
      simpa [hs] using (h.task s nofun).push_other (h.not_mem_task hnone s) hhead
  · intro s
    by_cases hs : s = slot
    · subst hs
      simpa using ⟨h.not_mem_task hnone s, h.taskNodup s⟩
    · simpa [hs] using h.taskNodup s
  · intro x b'
    have hx := h.memBucket x b'
    by_cases hxe : x = e
    · subst hxe
      by_cases hbb : b' = b
      · simp [hbb]
      · simp [hbb, hoff b', Ne.symm hbb]
    · by_cases hbb : b' = b
      · subst hbb
        simp [hxe, hx]
      · simp [hbb, hxe, hx]
  · intro x b' hx
    by_cases hxe : x = e
    · subst hxe
      simp only [update_self, some.injEq] at hx ⊢
      exact hx ▸ hb.symm
    · simp only [update_of_ne hxe] at hx ⊢
      exact h.home x b' hx
  · intro x s
    have hx := h.memTask x s
    by_cases hxe : x = e
    · subst hxe
      by_cases hs : s = slot
      · simp [hs, hslot]
      · simp [hs, h.not_mem_task hnone s, hslot, Ne.symm hs]
    · by_cases hs : s = slot
      · subst hs
        simpa [hxe] using hx
      · simpa [hs, hxe] using hx
  · exact hnd
  · intro x
    by_cases hxe : x = e
    · simp [hxe, hmem]
    · simp [hxe, hmem]
  · intro x hx
    by_cases hxe : x = e
    · exact hxe ▸ hlt
    · exact lt_of_lt_of_le (h.used x (by simpa [hxe] using hx)) hle

/-- The inner loop of `cleanup_retired`: the walk frees every entry it was started on. -/
theorem freeTaskEntries {l : List Nat} {before cur : Option Nat} {fuel : Nat}
    (h : m.Chained z B T l cut) (hl : Linked m.inTask before cur l) (hnd : l.Nodup)
    (hin : ∀ e ∈ l, m.bucketIndex e ≠ none) (hfuel : l.length ≤ fuel) :
    ∃ m' B', m.freeTaskEntries fuel cur = some m' ∧ m'.Chained z B' T [] cut := by
  induction l generalizing m B before cur fuel with
  | nil =>
    cases hl
    exact ⟨m, B, by cases fuel <;> rfl, h⟩
  | cons e l ih =>
    obtain ⟨rfl, -, htail⟩ := hl
    obtain ⟨he, hnd⟩ := nodup_cons.mp hnd
    obtain ⟨b, hb⟩ := ne_none_iff_exists'.mp (hin e mem_cons_self)
    obtain ⟨m₁, heq, -, htask, hm₁⟩ := h.freeEntry he hb
    have hindex : m₁.bucketIndex = update m.bucketIndex e none := by
      rw [MapState.freeEntry, hb] at heq
      cases heq
      rfl
    have hin₁ (x : Nat) (hx : x ∈ l) : m₁.bucketIndex x ≠ none := by
      rw [hindex, update_of_ne (ne_of_mem_of_not_mem hx he)]
      exact hin x (mem_cons_of_mem _ hx)
    match fuel, hfuel with
    | fuel + 1, hfuel =>
      obtain ⟨m', B', hrun, hm'⟩ :=
        ih hm₁ (htask ▸ htail.clear he) hnd hin₁ (Nat.le_of_succ_le_succ hfuel)
      refine ⟨m', B', ?_, hm'⟩
      rw [MapState.freeTaskEntries, heq, bind_some, hrun]

theorem cleanupSlot (h : m.Chained z B T [] none) (slot : SlotRef) :
    ∃ m' B' T', m.cleanupSlot slot = some m' ∧ m'.Chained z B' T' [] none := by
  -- the whole chain of the slot is given up at once
  have hcut : m.Chained z B (update T slot []) (T slot) (some slot) := by
    refine { h with task := ?_, taskNodup := ?_, memTask := ?_ }
    · intro s hs
      simpa [Ne.symm (fun heq => hs (congrArg some heq))] using h.task s nofun
    · intro s
      by_cases hs : s = slot
      · simp [hs]
      · simpa [hs] using h.taskNodup s
    · intro x s
      have hx := h.memTask x s
      have hx' := h.memTask x slot
      by_cases hs : s = slot
      · subst hs
        simp only [update_self, not_mem_nil, false_iff, hx]
        tauto
      · simp only [update_of_ne hs, hx, hx', not_mem_nil, not_false_eq_true, and_true]
        refine ⟨fun hin => ⟨hin.1, hin.2, fun hin' => hs (hin.2.symm.trans hin'.2)⟩,
          fun hin => ⟨hin.1, hin.2.1⟩⟩
  have hin (e : Nat) (he : e ∈ T slot) : m.bucketIndex e ≠ none := ((h.memTask e slot).mp he).1
  have hfuel : (T slot).length ≤ m.nextEntryIdx := by
    have hsub : T slot ⊆ range m.nextEntryIdx := fun e he => mem_range.mpr (h.used e (hin e he))
    simpa using (subperm_of_subset (h.taskNodup slot) hsub).length_le
  obtain ⟨m', B', hrun, hm'⟩ :=
    hcut.freeTaskEntries (h.task slot nofun) (h.taskNodup slot) hin hfuel
  refine ⟨_, B', update T slot [], by rw [MapState.cleanupSlot, hrun, map_some], ?_⟩
  refine { hm' with task := fun s _ => ?_ }
  by_cases hs : s = slot
  · subst hs
    simp [Linked]
  · simpa [hs] using hm'.task s (fun heq => hs (some.inj heq).symm)

theorem cleanupRetired (h : m.Chained z B T [] none) (ring localId n : Nat) :
    ∃ m' B' T', m.cleanupRetired z ring localId n = some m' ∧ m'.Chained z B' T' [] none := by
  induction n generalizing m B T localId with
  | zero => exact ⟨m, B, T, rfl, h⟩
  | succ n ih =>
    obtain ⟨m₁, B₁, T₁, heq, hm₁⟩ := h.cleanupSlot (z.slot ⟨ring, localId⟩)
    obtain ⟨m', B', T', hrun, hm'⟩ := ih hm₁ (localId + 1)
    exact ⟨m', B', T', by rw [MapState.cleanupRetired, heq, bind_some, hrun], hm'⟩

end Chained

end MapState

namespace MapRun

variable {z : MapSizes} {r r' : MapRun}

/-- Everything is linked, and a lookup stands on an entry of its bucket. -/
def Inv (z : MapSizes) (r : MapRun) : Prop :=
  (∃ B T, r.map.Chained z B T [] none) ∧
    ∀ t cur, r.cursor = some (t, some cur) → r.map.bucketIndex cur = some (z.hash t.addr)

/-- A lookup visits an entry. -/
theorem Inv.visit {remove stop : Bool} (h : r.Inv z)
    (hst : r.step z (.visit remove stop) = some r') :
    r'.Inv z := by
  obtain ⟨⟨B, T, hch⟩, hcur⟩ := h
  simp only [step] at hst
  split at hst
  · cases hst
  · cases hst
    exact ⟨⟨B, T, hch⟩, fun _ _ h => by cases h⟩
  · rename_i t cur hcursor
    have hmem : cur ∈ B (z.hash t.addr) := (hch.memBucket _ _).mpr (hcur t cur hcursor)
    have hnext {y : Nat} (hy : r.map.inBucket.next cur = some y) :
        r.map.bucketIndex y = some (z.hash t.addr) ∧ y ≠ cur :=
      ⟨(hch.memBucket _ _).mp ((hch.bucket _).next_mem hmem hy),
        fun heq => (hch.bucket _).next_ne (hch.bucketNodup _) hmem (heq ▸ hy)⟩
    have hkeep : Inv z ⟨r.map, some (t, r.map.inBucket.next cur)⟩ :=
      ⟨⟨B, T, hch⟩, fun t' y heq => by
        obtain ⟨rfl, hy⟩ := Prod.mk.inj (some.inj heq)
        exact (hnext hy).1⟩
    split at hst
    · obtain ⟨m, hm, rfl⟩ := map_eq_some_iff.mp hst
      cases remove with
      | false =>
        cases hm
        cases stop with
        | true => exact ⟨⟨B, T, hch⟩, fun _ _ h => by cases h⟩
        | false => exact hkeep
      | true =>
        -- the latched entry is not the one that is removed
        obtain ⟨hch', hsame⟩ := hch.removeEntry hm
        refine ⟨hch', fun t' y heq => ?_⟩
        cases stop with
        | true => cases heq
        | false =>
          obtain ⟨rfl, hy⟩ := Prod.mk.inj (some.inj heq)
          exact (hsame y (hnext hy).2).trans (hnext hy).1
    · cases hst
      exact hkeep

/-- One step keeps all links. -/
theorem Inv.step {op : MapOp} (h : r.Inv z) (hst : r.step z op = some r') : r'.Inv z := by
  obtain ⟨⟨B, T, hch⟩, -⟩ := id h
  cases op with
  | insert t producer =>
    obtain ⟨-, hst⟩ := ite_none_right_eq_some.mp hst
    obtain ⟨⟨e, m⟩, hnew, rfl⟩ := map_eq_some_iff.mp hst
    exact ⟨hch.linkEntry hnew _, fun _ _ h => by cases h⟩
  | lookup t =>
    obtain ⟨-, ⟨⟩⟩ := ite_none_right_eq_some.mp hst
    refine ⟨⟨B, T, hch⟩, fun t' cur heq => ?_⟩
    obtain ⟨rfl, hhead⟩ := Prod.mk.inj (some.inj heq)
    exact (hch.memBucket _ _).mp (hhead ▸ hch.bucket (z.hash t.addr)).head_mem
  | visit remove stop => exact h.visit hst
  | removeEntry e =>
    obtain ⟨-, hst⟩ := ite_none_right_eq_some.mp hst
    obtain ⟨m, hm, rfl⟩ := map_eq_some_iff.mp hst
    exact ⟨(hch.removeEntry hm).1, fun _ _ h => by cases h⟩
  | cleanupRetired ring old new =>
    obtain ⟨-, hst⟩ := ite_none_right_eq_some.mp hst
    obtain ⟨m, hm, rfl⟩ := map_eq_some_iff.mp hst
    obtain ⟨m', B', T', heq, hch'⟩ := hch.cleanupRetired ring old (new - old)
    cases heq.symm.trans hm
    exact ⟨⟨B', T', hch'⟩, fun _ _ h => by cases h⟩
  | syncValidity ring n =>
    obtain ⟨-, ⟨⟩⟩ := ite_none_right_eq_some.mp hst
    exact ⟨⟨B, T, { hch with }⟩, fun _ _ h => by cases h⟩

/-- All links are right in every run. -/
theorem Inv.reach (h : Reach (MapRun.step z) free init r) : r.Inv z :=
  h.invariant ⟨⟨_, _, .init⟩, fun _ _ h => by cases h⟩ fun _ _ _ _ hi _ hst => hi.step hst

end MapRun

/-- The entries of the pool that are in a bucket. -/
def MapState.linked (m : MapState) : List Nat :=
  (range m.nextEntryIdx).filter fun e => (m.bucketIndex e).isSome

theorem MapState.Chained.length_free {z : MapSizes} {m : MapState} {B : Nat → List Nat}
    {T : SlotRef → List Nat} (h : m.Chained z B T [] none) :
    m.freeEntryList.length + m.linked.length = m.nextEntryIdx := by
  have hfree : m.freeEntryList ~ (range m.nextEntryIdx).filter fun e =>
    !(m.bucketIndex e).isSome := by
    refine (perm_ext_iff_of_nodup h.freeNodup (nodup_range.filter _)).mpr fun e => ?_
    rw [h.memFree, mem_filter, mem_range]
    cases m.bucketIndex e <;> simp
  have hsplit := length_eq_length_filter_add (l := range m.nextEntryIdx) fun e =>
    (m.bucketIndex e).isSome
  rw [length_range] at hsplit
  rw [hfree.length_eq, MapState.linked]
  omega

/--
**Tensor map.** With at least two buckets and windows of at least one slot, after any calls and in
the middle of any lookup: the chain of every bucket and of every slot is a list linked in both
directions, without repetition; an entry is on the chain of a bucket iff it is in use and that
bucket is the one of its address, which exists, and on the chain of a slot iff it is in use and
that slot is the one of its producer, which exists; the free list has no repetition and holds no
entry in use; and the free entries and the entries in use make up the part of the pool that was
ever used.
-/
theorem map_links_consistent {z : MapSizes} (hz : z.Accepted) (hb : 2 ≤ z.numBuckets)
    (hw : ∀ ring, 1 ≤ z.taskWindowSizes ring) {r : MapRun}
    (h : Reach (MapRun.step z) free .init r) :
    ∃ (B : Nat → List Nat) (T : SlotRef → List Nat),
      (∀ b, Linked r.map.inBucket none (r.map.buckets b) (B b) ∧ (B b).Nodup) ∧
      (∀ s, Linked r.map.inTask none (r.map.taskEntryHeads s) (T s) ∧ (T s).Nodup) ∧
      (∀ e b, e ∈ B b ↔ e ∈ r.map.linked ∧ b = z.hash (r.map.entries e).addr) ∧
      (∀ e s, e ∈ T s ↔ e ∈ r.map.linked ∧ s = z.slot (r.map.entries e).producer) ∧
      (∀ key, z.hash key < z.numBuckets) ∧
      (∀ t, (z.slot t).idx < z.taskWindowSizes t.ring) ∧
      r.map.freeEntryList.Nodup ∧ (∀ e ∈ r.map.freeEntryList, e ∉ r.map.linked) ∧
      r.map.freeEntryList.length + r.map.linked.length = r.map.nextEntryIdx := by
  obtain ⟨⟨B, T, hch⟩, -⟩ := MapRun.Inv.reach h
  have hlinked (e : Nat) : e ∈ r.map.linked ↔ r.map.bucketIndex e ≠ none := by
    rw [MapState.linked, mem_filter, mem_range, Option.isSome_iff_ne_none]
    exact ⟨fun he => he.2, fun he => ⟨hch.used e he, he⟩⟩
  refine ⟨B, T, fun b => ⟨hch.bucket b, hch.bucketNodup b⟩,
    fun s => ⟨hch.task s nofun, hch.taskNodup s⟩, fun e b => ?_, fun e s => ?_,
    MapSizes.hash_lt hz hb, MapSizes.slot_lt hw, hch.freeNodup, fun e he => ?_, hch.length_free⟩
  · rw [hch.memBucket, hlinked]
    constructor
    · exact fun he => ⟨by simp [he], hch.home e b he⟩
    · rintro ⟨he, rfl⟩
      obtain ⟨b, hb⟩ := ne_none_iff_exists'.mp he
      rw [hb, ← hch.home e b hb]
  · rw [hch.memTask, hlinked]
    simp [eq_comm]
  · rw [hlinked, not_not]
    exact ((hch.memFree e).mp he).2

/-- A tensor of four elements at `addr`. -/
def fourAt (addr : Nat) : Tensor :=
  ⟨addr, 16, none, 0, 0, .float32, false, true, [4], 4, [1]⟩

/-- Four buckets. -/
theorem map_links_consistent_four : ∃ r : MapRun,
    Reach (MapRun.step ⟨4, 8, fun _ => 4⟩) free .init r ∧
      r.map.freeEntryList.length + r.map.linked.length = 2 := by
  have hrun : ∃ r : MapRun, Reach (MapRun.step ⟨4, 8, fun _ => 4⟩) free .init r ∧
      r.map.nextEntryIdx = 2 :=
    Reach.exists_of_run [.insert (fourAt 64) ⟨0, 0⟩, .insert (fourAt 64) ⟨0, 1⟩,
      .lookup (fourAt 64), .visit true false] (by decide +kernel)
  obtain ⟨r, hr, hnext⟩ := hrun
  obtain ⟨B, T, -, -, -, -, -, -, -, -, hlen⟩ :=
    map_links_consistent ⟨by decide, by decide⟩ (by decide) (fun _ => (by decide : 1 ≤ 4)) hr
  exact ⟨r, hr, hlen.trans hnext⟩

/-- One bucket is accepted, but an entry is put into a bucket that does not exist. -/
theorem one_bucket_out_of_range : ∃ z : MapSizes, z.Accepted ∧
    (∀ ring, 1 ≤ z.taskWindowSizes ring) ∧
    ∃ r : MapRun, Reach (MapRun.step z) free .init r ∧
      0 ∈ r.map.linked ∧ ∃ b ∈ r.map.bucketIndex 0, z.numBuckets ≤ b := by
  refine ⟨⟨1, 8, fun _ => 4⟩, ⟨by decide, by decide⟩, fun _ => (by decide : 1 ≤ 4), ?_⟩
  exact Reach.exists_of_run [.insert (fourAt 64) ⟨0, 0⟩] (by decide +kernel)

end PtoRuntime.Tmrb
