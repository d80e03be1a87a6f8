import PtoRuntime.Lib.Reach
import PtoRuntime.Lib.RingQueue

/-!
# The buffers of a profiler

A device-side writer fills buffers; the host collects and recycles them. A free queue leads from
the management loop of the host to the writer, a ready queue from the writer to the loop, and both
have one writer and one reader. To switch buffers the writer checks that the free queue has one,
publishes the full buffer in the ready queue, and only then takes the free one; a flush publishes
without taking. The loop pops a ready entry, refills the free queue with one buffer without
looking at it, and passes the entry to the collector; now and then it tops up the free queue to
`kSlotCount`.

Every access to an index that the other side writes, and every access to a slot, is a step. The
pointer `current_buf_ptr` still names the old buffer while the writer takes the new one; here the
writer lets go of a buffer when it publishes it.

* `one_owner` — if every refill finds room and no flush finds the ready queue full, the free
  queue never holds more than `kSlotCount` buffers and every buffer is in one place;
* `refill_overwrites_slot` — a refill between publishing and taking overfills a full queue.
-/

namespace PtoRuntime.Prof

open Lib List Option

/-- `kSlotCount`, `kReadyQueueSize` and `batch_size`. -/
structure BufferConfig where
  slotCount : Nat
  readyQueueSize : Nat
  batchSize : Nat
  ready_pos : 0 < readyQueueSize

/-- The writer: in `enqueue`, before or after the store of the entry, for a switch or a flush;
then taking a buffer from the free queue. -/
inductive WriterPc
  | idle
  | enqueue (switch : Bool)
  | storeEntry (switch : Bool)
  | publish (switch : Bool)
  | popSlot
  | popHead (b : Nat)

/-- What the loop does after a push to the free queue. -/
inductive AfterPush
  /-- `process_entry` passes the popped buffer on. -/
  | deliver (b : Nat)
  /-- `top_up_free_queue` goes on, with its count of the entries in use. -/
  | topUp (used : Nat)

inductive LoopPc
  | idle
  | readEntry
  | popEntry (b : Nat)
  | obtain (k : AfterPush)
  | pushSlot (n : Nat) (k : AfterPush)
  | pushTail (n : Nat) (k : AfterPush)
  | deliver (b : Nat)

/-- After the push. -/
def AfterPush.pushed : AfterPush → LoopPc
  | .deliver b => .deliver b
  | .topUp used => .obtain (.topUp (used + 1))

/-- When there is no buffer to push. -/
def AfterPush.skipped : AfterPush → LoopPc
  | .deliver b => .deliver b
  | .topUp _ => .idle

structure BufferState where
  free : RingQueue Nat
  ready : RingQueue Nat
  writer : WriterPc
  current : Option Nat
  loop : LoopPc
  collector : List Nat
  done : List Nat
  recycled : List Nat
  allocated : List Nat

inductive BufferAct
  /-- The first buffer of the writer. -/
  | start
  | switch
  | flush
  /-- The next step of the writer; it may wait while the ready queue is full. -/
  | writer (wait : Bool)
  /-- `try_pop_aicpu_entry`. -/
  | pop
  /-- `top_up_free_queue`. -/
  | topUp
  /-- The next step of the loop; `fresh` are buffers it allocates, if it does. -/
  | loop (fresh : List Nat)
  /-- `consume`. -/
  | consume
  /-- `drain_done_into_recycled`. -/
  | drain

namespace BufferState

variable (c : BufferConfig)

/-- `init`: the first buffers are in the free queue, the others are recycled, the last one on
top. -/
def init (n : Nat) : BufferState where
  free := ⟨id, 0, min n c.slotCount⟩
  ready := ⟨fun _ => 0, 0, 0⟩
  writer := .idle
  current := none
  loop := .idle
  collector := []
  done := []
  recycled := ((range n).drop c.slotCount).reverse
  allocated := range n

/-- `next_tail == current_head`. -/
def readyFull (s : BufferState) : Prop :=
  (s.ready.tail + 1) % c.readyQueueSize = s.ready.head % c.readyQueueSize

instance (s : BufferState) : Decidable (s.readyFull c) := inferInstanceAs (Decidable (_ = _))

def writerStep (s : BufferState) (wait : Bool) : Option BufferState :=
  match s.writer with
  | .idle => none
  | .enqueue switch =>
    if s.readyFull c then
      if switch then some { s with writer := if wait then .enqueue true else .idle }
      else some { s with writer := .idle, current := none }
    else some { s with writer := .storeEntry switch }
  | .storeEntry switch =>
    s.current.map fun b =>
      { s with ready := s.ready.store c.readyQueueSize b, writer := .publish switch }
  | .publish switch =>
    some { s with
      ready := s.ready.publish, current := none, writer := if switch then .popSlot else .idle }
  | .popSlot => some { s with writer := .popHead (s.free.front c.slotCount) }
  | .popHead b => some { s with free := s.free.release, current := some b, writer := .idle }

/-- New buffers in an empty pool: the ones that the collector has returned, for
`process_entry`, or else allocated ones. -/
def restock (s : BufferState) (harvest : Bool) (fresh : List Nat) : BufferState :=
  if s.recycled ≠ [] then s
  else if harvest ∧ s.done ≠ [] then { s with recycled := s.done.reverse, done := [] }
  else { s with recycled := fresh, allocated := fresh ++ s.allocated }

/-- A buffer for the free queue, if the pool has one. -/
def takeRecycled (s : BufferState) (k : AfterPush) : BufferState :=
  match s.recycled with
  | n :: rest => { s with recycled := rest, loop := .pushSlot n k }
  | [] => { s with loop := k.skipped }

def loopStep (s : BufferState) (fresh : List Nat) : Option BufferState :=
  match s.loop with
  | .idle => none
  | .readEntry => some { s with loop := .popEntry (s.ready.front c.readyQueueSize) }
  | .popEntry b => some { s with ready := s.ready.release, loop := .obtain (.deliver b) }
  | .obtain (.deliver b) =>
    if fresh.length ≤ 1 then some ((s.restock true fresh).takeRecycled (.deliver b)) else none
  | .obtain (.topUp used) =>
    if used < c.slotCount then
      if fresh.length ≤ c.batchSize then some ((s.restock false fresh).takeRecycled (.topUp used))
      else none
    else some { s with loop := .idle }
  | .pushSlot n k => some { s with free := s.free.store c.slotCount n, loop := .pushTail n k }
  | .pushTail _ k => some { s with free := s.free.publish, loop := k.pushed }
  | .deliver b => some { s with collector := s.collector ++ [b], loop := .idle }

def step (s : BufferState) : BufferAct → Option BufferState
  | .start =>
    match s.writer, s.current with
    | .idle, none =>
      if s.free.head ≠ s.free.tail then some { s with writer := .popSlot } else none
    | _, _ => none
  | .switch =>
    match s.writer, s.current with
    | .idle, some _ =>
      if s.free.head ≠ s.free.tail then some { s with writer := .enqueue true } else none
    | _, _ => none
  | .flush =>
    match s.writer, s.current with
    | .idle, some _ => some { s with writer := .enqueue false }
    | _, _ => none
  | .writer wait => s.writerStep c wait
  | .pop =>
    match s.loop with
    | .idle => if s.ready.head ≠ s.ready.tail then some { s with loop := .readEntry } else none
    | _ => none
  | .topUp =>
    match s.loop with
    | .idle => some { s with loop := .obtain (.topUp (s.free.tail - s.free.head)) }
    | _ => none
  | .loop fresh =>
    if fresh.Nodup ∧ ∀ b ∈ fresh, b ∉ s.allocated then s.loopStep c fresh else none
  | .consume =>
    match s.collector with
    | b :: rest => some { s with collector := rest, done := s.done ++ [b] }
    | [] => none
  | .drain =>
    match s.loop with
    | .idle => some { s with recycled := s.done.reverse ++ s.recycled, done := [] }
    | _ => none

/-- The step stores a refill by `process_entry`. -/
def refills (s : BufferState) : BufferAct → Bool
  | .loop _ => (s.loop matches .pushSlot _ (.deliver _))
  | _ => false

/-- The step looks for room in the ready queue for a flush. -/
def flushes (s : BufferState) : BufferAct → Bool
  | .writer _ => (s.writer matches .enqueue false)
  | _ => false

/-- Condition on a step: a refill finds room in the free queue, and a flush finds room in the ready
queue. -/
def Roomy (s : BufferState) (a : BufferAct) : Prop :=
  (s.refills a = true → s.free.tail < s.free.head + c.slotCount) ∧
    (s.flushes a = true → ¬ s.readyFull c)

instance (s : BufferState) (a : BufferAct) : Decidable (s.Roomy c a) :=
  inferInstanceAs (Decidable (_ ∧ _))

/-! ## Places -/

/-- The entry that the loop is about to pass to the collector. -/
def popped (s : BufferState) : List Nat :=
  match s.loop with
  | .obtain (.deliver b) | .pushSlot _ (.deliver b) | .pushTail _ (.deliver b) | .deliver b => [b]
  | _ => []

/-- The buffer that the loop is about to push to the free queue. -/
def taken (s : BufferState) : List Nat :=
  match s.loop with
  | .pushSlot n _ | .pushTail n _ => [n]
  | _ => []

/-- The buffers by place: free queue, writer, ready queue, collector and recycled pool. A buffer
in the hands of the loop counts for the place it goes to or comes from. -/
def places (s : BufferState) : List (List Nat) :=
  [s.free.unread c.slotCount, s.current.toList, s.ready.unread c.readyQueueSize,
    s.popped ++ s.collector ++ s.done, s.taken ++ s.recycled]

/-! ## The invariant -/

variable {c : BufferConfig} {s s' : BufferState}

/-- What the writer relies on. -/
def WriterOk (c : BufferConfig) (s : BufferState) : WriterPc → Prop
  | .idle => True
  | .enqueue switch => s.current ≠ none ∧ (switch = true → s.free.head < s.free.tail)
  | .storeEntry switch => s.current ≠ none ∧ (switch = true → s.free.head < s.free.tail) ∧
    s.ready.tail + 1 < s.ready.head + c.readyQueueSize
  | .publish switch => s.current = some (s.ready.back c.readyQueueSize) ∧
    (switch = true → s.free.head < s.free.tail) ∧ s.ready.tail + 1 < s.ready.head + c.readyQueueSize
  | .popSlot => s.current = none ∧ s.free.head < s.free.tail
  | .popHead b => s.current = none ∧ s.free.head < s.free.tail ∧ s.free.front c.slotCount = b

/-- What the loop relies on. -/
def LoopOk (c : BufferConfig) (s : BufferState) : LoopPc → Prop
  | .idle | .obtain (.deliver _) | .pushSlot _ (.deliver _) | .deliver _ => True
  | .readEntry => s.ready.head < s.ready.tail
  | .popEntry b => s.ready.head < s.ready.tail ∧ s.ready.front c.readyQueueSize = b
  | .obtain (.topUp used) => s.free.tail ≤ s.free.head + used
  | .pushSlot _ (.topUp used) => s.free.tail ≤ s.free.head + used ∧ used < c.slotCount
  | .pushTail n (.deliver _) =>
    s.free.tail < s.free.head + c.slotCount ∧ s.free.back c.slotCount = n
  | .pushTail n (.topUp used) => s.free.tail < s.free.head + c.slotCount ∧
      s.free.back c.slotCount = n ∧
    s.free.tail ≤ s.free.head + used

structure Inv (c : BufferConfig) (s : BufferState) : Prop where
  free_le : s.free.head ≤ s.free.tail ∧ s.free.tail ≤ s.free.head + c.slotCount
  ready_le : s.ready.head ≤ s.ready.tail ∧ s.ready.tail < s.ready.head + c.readyQueueSize
  writer : s.WriterOk c s.writer
  loop : s.LoopOk c s.loop
  nodup : s.allocated.Nodup
  owned : (s.places c).flatten ~ s.allocated

/-- The loop does nothing that the writer could notice. -/
theorem WriterOk.frame {pc : WriterPc} (h : s.WriterOk c pc) (hcur : s'.current = s.current)
    (hhead : s'.free.head = s.free.head) (htail : s.free.tail ≤ s'.free.tail)
    (hfront : s.free.head < s.free.tail → s'.free.front c.slotCount = s.free.front c.slotCount)
    (hrtail : s'.ready.tail = s.ready.tail) (hrslots : s'.ready.slots = s.ready.slots)
    (hrhead : s.ready.head ≤ s'.ready.head) : s'.WriterOk c pc := by
  have hback : s'.ready.back c.readyQueueSize = s.ready.back c.readyQueueSize := by
    rw [RingQueue.back, RingQueue.back, hrtail, hrslots]
  cases pc with
  | idle => trivial
  | enqueue switch =>
    obtain ⟨hc, hf⟩ := h
    exact ⟨hcur ▸ hc, fun hsw => by have := hf hsw; omega⟩
  | storeEntry switch =>
    obtain ⟨hc, hf, hr⟩ := h
    exact ⟨hcur ▸ hc, fun hsw => by have := hf hsw; omega, by omega⟩
  | publish switch =>
    obtain ⟨hc, hf, hr⟩ := h
    exact ⟨by rw [hcur, hback, hc], fun hsw => by have := hf hsw; omega, by omega⟩
  | popSlot => exact ⟨hcur.trans h.1, by have := h.2; omega⟩
  | popHead b =>
    obtain ⟨hc, hf, hb⟩ := h
    exact ⟨hcur.trans hc, by omega, (hfront hf).trans hb⟩

/-- The writer does nothing that the loop could notice. -/
theorem LoopOk.frame {pc : LoopPc} (h : s.LoopOk c pc) (hhead : s.free.head ≤ s'.free.head)
    (htail : s'.free.tail = s.free.tail) (hslots : s'.free.slots = s.free.slots)
    (hrhead : s'.ready.head = s.ready.head) (hrtail : s.ready.tail ≤ s'.ready.tail)
    (hfront : s.ready.head < s.ready.tail →
      s'.ready.front c.readyQueueSize = s.ready.front c.readyQueueSize) : s'.LoopOk c pc := by
  have hback : s'.free.back c.slotCount = s.free.back c.slotCount := by
    rw [RingQueue.back, RingQueue.back, htail, hslots]
  match pc, h with
  | .idle, _ | .obtain (.deliver _), _ | .pushSlot _ (.deliver _), _ | .deliver _, _ => trivial
  | .readEntry, h =>
    show s'.ready.head < s'.ready.tail
    have h : s.ready.head < s.ready.tail := h
    omega
  | .popEntry b, h => exact ⟨by have := h.1; omega, (hfront h.1).trans h.2⟩
  | .obtain (.topUp used), h =>
    show s'.free.tail ≤ s'.free.head + used
    have h : s.free.tail ≤ s.free.head + used := h
    omega
  | .pushSlot _ (.topUp used), h => exact ⟨by have := h.1; omega, h.2⟩
  | .pushTail n (.deliver _), h => exact ⟨by have := h.1; omega, hback.trans h.2⟩
  | .pushTail n (.topUp used), h =>
    exact ⟨by have := h.1; omega, hback.trans h.2.1, by have := h.2.2; omega⟩

theorem Inv.init (n : Nat) : (BufferState.init c n).Inv c := by
  refine ⟨⟨Nat.zero_le _, ?_⟩, ⟨le_rfl, ?_⟩, trivial, trivial, nodup_range, ?_⟩
  · show min n c.slotCount ≤ 0 + c.slotCount
    omega
  · show 0 < 0 + c.readyQueueSize
    have := c.ready_pos
    omega
  · have hfree : (BufferState.init c n).free.unread c.slotCount = (range n).take c.slotCount := by
      rw [take_range, Nat.min_comm]
      refine (map_congr_left fun i hi => ?_).trans (map_id _)
      have hi : i < min n c.slotCount := mem_range.mp hi
      show (0 + i) % c.slotCount = i
      rw [zero_add, Nat.mod_eq_of_lt (by omega)]
    simp only [places, hfree, flatten_cons, flatten_nil]
    show (range n).take c.slotCount ++
      ([] ++ ([] ++ ([] ++ (((range n).drop c.slotCount).reverse ++ [])))) ~ range n
    simp only [nil_append, append_nil]
    refine ((reverse_perm _).append_left _).trans ?_
    rw [take_append_drop]

theorem Inv.owned_of_count (h : s.Inv c) (hall : s'.allocated = s.allocated)
    (hcount : ∀ x, (s'.places c).flatten.count x = (s.places c).flatten.count x) :
    (s'.places c).flatten ~ s'.allocated :=
  (perm_iff_count.mpr hcount).trans (hall ▸ h.owned)

/-- A step of the writer. -/
theorem Inv.writerStep {wait : Bool} (h : s.Inv c) (hok : s.Roomy c (.writer wait))
    (hst : s.writerStep c wait = some s') : s'.Inv c := by
  have hw := h.writer
  unfold BufferState.writerStep at hst
  split at hst <;> rename_i hpc <;> rw [hpc] at hw
  · cases hst
  · rename_i switch
    split at hst
    · rename_i hfull
      cases switch with
      -- a flush with a full queue is excluded
      | false => exact absurd hfull (hok.2 (by simp [flushes, hpc]))
      | true =>
        cases hst
        cases wait with
        | false => exact { h with writer := trivial }
        | true => exact { h with writer := hw }
    · rename_i hfull
      cases hst
      refine { h with writer := ⟨hw.1, hw.2, ?_⟩ }
      have hle := h.ready_le
      -- the test for full keeps one slot free
      have hne : s.ready.tail + 1 ≠ s.ready.head + c.readyQueueSize := fun heq =>
        hfull (by rw [readyFull, heq, Nat.add_mod_right])
      show s.ready.tail + 1 < s.ready.head + c.readyQueueSize
      omega
  · obtain ⟨b, hb, rfl⟩ := map_eq_some_iff.mp hst
    obtain ⟨-, hf, hr⟩ := hw
    have hroom : s.ready.tail < s.ready.head + c.readyQueueSize := h.ready_le.2
    refine { h with writer := ⟨?_, hf, hr⟩, loop := ?_, owned := ?_ }
    · exact hb.trans (congrArg some RingQueue.back_store.symm)
    · exact h.loop.frame le_rfl rfl rfl rfl le_rfl
        fun hlt => RingQueue.front_store hlt hroom
    · have hunread := RingQueue.unread_store (x := b) hroom
      exact h.owned_of_count rfl fun x => by simp [places, hunread, popped, taken]
  · rename_i switch
    cases hst
    obtain ⟨hcur, hf, hr⟩ := hw
    refine ⟨h.free_le, ?_, ?_, ?_, h.nodup, ?_⟩
    · exact ⟨h.ready_le.1.trans (Nat.le_succ _), hr⟩
    · cases switch with
      | false => trivial
      | true => exact ⟨rfl, hf rfl⟩
    · exact h.loop.frame le_rfl rfl rfl rfl (Nat.le_succ _) fun _ => rfl
    · have hunread : s.ready.publish.unread c.readyQueueSize =
          s.ready.unread c.readyQueueSize ++ [s.ready.back c.readyQueueSize] :=
        RingQueue.unread_publish h.ready_le.1
      refine h.owned_of_count rfl fun x => ?_
      simp only [places, hunread, hcur, popped, taken, flatten_cons, count_append, toList_some,
        toList_none, count_nil]
      omega
  · cases hst
    exact { h with writer := ⟨hw.1, hw.2, rfl⟩ }
  · rename_i b
    cases hst
    obtain ⟨hcur, hlt, hb⟩ := hw
    refine ⟨?_, h.ready_le, trivial, ?_, h.nodup, ?_⟩
    · have hle := h.free_le
      exact ⟨hlt, by show s.free.tail ≤ s.free.head + 1 + c.slotCount; omega⟩
    · exact h.loop.frame (Nat.le_succ _) rfl rfl rfl le_rfl fun _ => rfl
    · have hunread : s.free.unread c.slotCount =
          s.free.front c.slotCount :: s.free.release.unread c.slotCount :=
        RingQueue.unread_release hlt
      refine h.owned_of_count rfl fun x => ?_
      simp only [places, hunread, hcur, hb, popped, taken, flatten_cons, count_append, count_cons,
        toList_some, toList_none, count_nil]
      omega

theorem Inv.restock {harvest : Bool} {fresh : List Nat} (h : s.Inv c) (hnd : fresh.Nodup)
    (hfresh : ∀ b ∈ fresh, b ∉ s.allocated) :
    (s.restock harvest fresh).Inv c ∧ (s.restock harvest fresh).loop = s.loop := by
  unfold BufferState.restock
  split
  · exact ⟨h, rfl⟩
  · rename_i hempty
    have hempty : s.recycled = [] := not_not.mp hempty
    split
    · refine ⟨{ h with owned := h.owned_of_count rfl fun x => ?_ }, rfl⟩
      simp only [places, popped, taken, hempty, flatten_cons, count_append,
        count_reverse, count_nil]
      omega
    · refine ⟨{ h with nodup := Nodup.append hnd h.nodup hfresh, owned := ?_ }, rfl⟩
      have howned := h.owned.append_left fresh
      refine (perm_iff_count.mpr fun x => ?_).trans howned
      simp only [places, popped, taken, hempty, flatten_cons, count_append, count_nil]
      omega

theorem Inv.takeRecycled {k : AfterPush} (h : s.Inv c) (hpc : s.loop = .obtain k)
    (hroom : ∀ used, k = .topUp used → used < c.slotCount) : (s.takeRecycled k).Inv c := by
  have hl := h.loop
  rw [hpc] at hl
  unfold BufferState.takeRecycled
  split
  · rename_i n rest hrec
    refine { h with loop := ?_, owned := h.owned_of_count rfl fun x => ?_ }
    · cases k with
      | deliver b => trivial
      | topUp used => exact ⟨hl, hroom used rfl⟩
    · cases k <;>
        simp only [places, popped, taken, hpc, hrec, flatten_cons, count_append, count_cons,
          count_nil] <;>
        omega
  · refine { h with loop := ?_, owned := h.owned_of_count rfl fun x => ?_ }
    · cases k <;> trivial
    · cases k <;> simp only [places, popped, taken, hpc, AfterPush.skipped]

/-- A step of the management loop. -/
theorem Inv.loopStep {fresh : List Nat} (h : s.Inv c) (hok : s.Roomy c (.loop fresh))
    (hnd : fresh.Nodup)
    (hfresh : ∀ b ∈ fresh, b ∉ s.allocated) (hst : s.loopStep c fresh = some s') : s'.Inv c := by
  have hl := h.loop
  unfold BufferState.loopStep at hst
  split at hst <;> rename_i hpc <;> rw [hpc] at hl
  · cases hst
  · cases hst
    refine { h with loop := ⟨hl, rfl⟩, owned := ?_ }
    exact h.owned_of_count rfl fun x => by simp only [places, popped, taken, hpc]
  · rename_i b
    cases hst
    obtain ⟨hlt, hb⟩ := hl
    refine ⟨h.free_le, ?_, ?_, trivial, h.nodup, ?_⟩
    · have hle := h.ready_le
      exact ⟨hlt, by show s.ready.tail < s.ready.head + 1 + c.readyQueueSize; omega⟩
    · exact h.writer.frame rfl rfl le_rfl (fun _ => rfl) rfl rfl (Nat.le_succ _)
    · have hunread : s.ready.unread c.readyQueueSize =
          s.ready.front c.readyQueueSize :: s.ready.release.unread c.readyQueueSize :=
        RingQueue.unread_release hlt
      refine h.owned_of_count rfl fun x => ?_
      simp only [places, hunread, hb, popped, taken, hpc, flatten_cons, count_append,
        count_cons, count_nil]
      omega
  · obtain ⟨-, ⟨⟩⟩ := ite_none_right_eq_some.mp hst
    obtain ⟨h', hloop⟩ := h.restock hnd hfresh
    exact h'.takeRecycled (hloop.trans hpc) nofun
  · rename_i used
    split at hst
    · rename_i hused
      obtain ⟨-, ⟨⟩⟩ := ite_none_right_eq_some.mp hst
      obtain ⟨h', hloop⟩ := h.restock hnd hfresh
      exact h'.takeRecycled (hloop.trans hpc) fun _ heq => AfterPush.topUp.inj heq ▸ hused
    · cases hst
      refine { h with loop := trivial, owned := ?_ }
      exact h.owned_of_count rfl fun x => by simp only [places, popped, taken, hpc]
  · rename_i n k
    cases hst
    have hroom : s.free.tail < s.free.head + c.slotCount := by
      cases k with
      | deliver b => exact hok.1 (by simp [refills, hpc])
      | topUp used =>
        have hle := hl.1
        have hlt := hl.2
        omega
    refine { h with writer := ?_, loop := ?_, owned := ?_ }
    · exact h.writer.frame rfl rfl le_rfl (fun hlt => RingQueue.front_store hlt hroom) rfl rfl
        le_rfl
    · cases k with
      | deliver b => exact ⟨hroom, RingQueue.back_store⟩
      | topUp used => exact ⟨hroom, RingQueue.back_store, hl.1⟩
    · have hunread := RingQueue.unread_store (x := n) hroom
      refine h.owned_of_count rfl fun x => ?_
      cases k <;> simp only [places, hunread, popped, taken, hpc]
  · rename_i n k
    cases hst
    have hpush : s.free.tail < s.free.head + c.slotCount ∧ s.free.back c.slotCount = n := by
      cases k with
      | deliver b => exact hl
      | topUp used => exact ⟨hl.1, hl.2.1⟩
    refine ⟨⟨h.free_le.1.trans (Nat.le_succ _), hpush.1⟩, h.ready_le, ?_, ?_, h.nodup, ?_⟩
    · exact h.writer.frame rfl rfl (Nat.le_succ _) (fun _ => rfl) rfl rfl le_rfl
    · cases k with
      | deliver b => trivial
      | topUp used => exact Nat.succ_le_succ hl.2.2
    · have hunread : s.free.publish.unread c.slotCount =
          s.free.unread c.slotCount ++ [s.free.back c.slotCount] :=
        RingQueue.unread_publish h.free_le.1
      refine h.owned_of_count rfl fun x => ?_
      cases k <;>
        simp only [places, hunread, hpush.2, popped, taken, hpc, AfterPush.pushed, flatten_cons,
          count_append, count_nil] <;>
        omega
  · cases hst
    refine { h with loop := trivial, owned := ?_ }
    refine h.owned_of_count rfl fun x => ?_
    simp only [places, popped, taken, hpc, flatten_cons, count_append, count_nil]
    omega

theorem Inv.step {a : BufferAct} (h : s.Inv c) (hok : s.Roomy c a) (hst : s.step c a = some s') :
    s'.Inv c := by
  have hne : s.free.head ≠ s.free.tail → s.free.head < s.free.tail := Nat.lt_of_le_of_ne h.free_le.1
  cases a with
  | start =>
    simp only [BufferState.step] at hst
    split at hst
    · rename_i hcur
      obtain ⟨hfree, ⟨⟩⟩ := ite_none_right_eq_some.mp hst
      exact { h with writer := ⟨hcur, hne hfree⟩ }
    · cases hst
  | switch =>
    simp only [BufferState.step] at hst
    split at hst
    · rename_i b hcur
      obtain ⟨hfree, ⟨⟩⟩ := ite_none_right_eq_some.mp hst
      exact { h with writer := ⟨by simp [hcur], fun _ => hne hfree⟩ }
    · cases hst
  | flush =>
    simp only [BufferState.step] at hst
    split at hst
    · rename_i b hcur
      cases hst
      exact { h with writer := ⟨by simp [hcur], nofun⟩ }
    · cases hst
  | writer wait => exact h.writerStep hok hst
  | pop =>
    simp only [BufferState.step] at hst
    split at hst
    · rename_i hpc
      obtain ⟨hready, ⟨⟩⟩ := ite_none_right_eq_some.mp hst
      refine { h with loop := Nat.lt_of_le_of_ne h.ready_le.1 hready, owned := ?_ }
      exact h.owned_of_count rfl fun x => by simp only [places, popped, taken, hpc]
    · cases hst
  | topUp =>
    simp only [BufferState.step] at hst
    split at hst
    · rename_i hpc
      cases hst
      have hle := h.free_le.1
      refine { h with loop := ?_, owned := ?_ }
      · show s.free.tail ≤ s.free.head + (s.free.tail - s.free.head)
        omega
      · exact h.owned_of_count rfl fun x => by simp only [places, popped, taken, hpc]
    · cases hst
  | loop fresh =>
    obtain ⟨⟨hnd, hfresh⟩, hst⟩ := ite_none_right_eq_some.mp hst
    exact h.loopStep hok hnd hfresh hst
  | consume =>
    simp only [BufferState.step] at hst
    split at hst
    · rename_i b rest hcol
      cases hst
      refine { h with owned := h.owned_of_count rfl fun x => ?_ }
      simp only [places, popped, taken, hcol, flatten_cons, count_append, count_cons, count_nil]
      omega
    · cases hst
  | drain =>
    simp only [BufferState.step] at hst
    split at hst
    · rename_i hpc
      cases hst
      refine { h with owned := h.owned_of_count rfl fun x => ?_ }
      simp only [places, popped, taken, hpc, flatten_cons, count_append, count_reverse, count_nil]
      omega
    · cases hst

end BufferState

/--
**Profiling buffers.** In every interleaving in which each refill by `process_entry` finds room
in the free queue and no flush finds the ready queue full: the free queue never holds more than
`kSlotCount` unread entries, and each buffer is in exactly one of the free queue, the writer, the
ready queue, the collector and the recycled pool.
-/
theorem one_owner {c : BufferConfig} {n : Nat} {s : BufferState}
    (h : Reach (BufferState.step c) (BufferState.Roomy c) (.init c n) s) :
    s.free.tail - s.free.head ≤ c.slotCount ∧ (s.places c).flatten.Nodup ∧
      ∀ b, b ∈ s.allocated ↔ b ∈ (s.places c).flatten := by
  have hinv : s.Inv c := h.invariant (.init n) fun _ _ _ _ hi hok hst => hi.step hok hst
  refine ⟨?_, hinv.owned.nodup_iff.mpr hinv.nodup, fun b => hinv.owned.mem_iff.symm⟩
  have hle := hinv.free_le.2
  omega

/-- Four slots, as for the tensor dump. -/
def fourSlots : BufferConfig := ⟨4, 8, 4, by decide⟩

/-- The writer takes its first buffer, and the loop tops up the free queue. -/
def startUp : List BufferAct :=
  [.start, .writer false, .writer false, .topUp, .loop [], .loop [], .loop [], .loop []]

theorem one_owner_eight : ∃ s : BufferState, s.current = some 1 ∧ s.allocated.length = 8 ∧
    (s.places fourSlots).flatten.Nodup := by
  have hrun : ∃ s : BufferState,
      Reach (BufferState.step fourSlots) (BufferState.Roomy fourSlots) (.init fourSlots 8) s ∧
        s.current = some 1 ∧ s.allocated.length = 8 :=
    Reach.exists_of_run
      (startUp ++ .switch :: replicate 5 (.writer false) ++ .pop :: replicate 6 (.loop []))
      (by decide +kernel)
  obtain ⟨s, hs, hcur, hall⟩ := hrun
  exact ⟨s, hcur, hall, (one_owner hs).2.1⟩

/-- The free queue is full when the writer publishes its buffer. The refill for that buffer comes
before the writer takes another one, and overwrites the slot at the head: buffer 1 is in no place
any more, and the refill is in the queue twice. -/
theorem refill_overwrites_slot : ∃ s : BufferState,
    Reach (BufferState.step fourSlots) free (.init fourSlots 8) s ∧
      fourSlots.slotCount < s.free.tail - s.free.head ∧ 1 ∈ s.allocated ∧
      1 ∉ (s.places fourSlots).flatten ∧ ¬ (s.places fourSlots).flatten.Nodup :=
  Reach.exists_of_run
    (startUp ++ .switch :: replicate 3 (.writer false) ++ .pop :: replicate 5 (.loop []))
    (by decide +kernel)

end PtoRuntime.Prof
