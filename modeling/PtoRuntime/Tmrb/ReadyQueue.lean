import PtoRuntime.Lib.Reach
import PtoRuntime.Lib.Sole
import PtoRuntime.Lib.Window

/-!
# The ready queue

`PTO2ReadyQueue` is a bounded queue for any number of producers and consumers. A position is
claimed by a compare-and-swap on `enqueue_pos` or `dequeue_pos`, and every cell has a sequence
number that says whose turn it is: the cell of position `p` holds `p` while it waits for the
push of `p`, `p + 1` from that push to the pop of `p`, and `p + capacity` afterwards. The batch
operations claim several positions at once.

Each load, store and compare-and-swap is one step here, and so are the plain accesses to
`slot_state`. Positions and sequence numbers are 64-bit words; they are compared as signed
numbers. The order of the claims is the order of the queue.

Main results: `ready_queue_fifo`, `ready_queue_unordered`.
-/

namespace PtoRuntime.Tmrb

open Lib Function List Option

/-- The capacity given to `ready_queue_init`. The cells are 16 bytes each and in memory. -/
structure QueueConfig where
  capacityBits : Nat
  fits : capacityBits < 60

namespace QueueConfig

def capacity (q : QueueConfig) : Nat := 2 ^ q.capacityBits

def mask (q : QueueConfig) : Nat := q.capacity - 1

/-- The index of the cell of a position. -/
def cell (q : QueueConfig) (pos : Nat) : Nat := pos % 2 ^ 64 &&& q.mask

theorem capacity_pos (q : QueueConfig) : 0 < q.capacity := Nat.two_pow_pos _

theorem capacity_le (q : QueueConfig) : q.capacity ≤ 2 ^ 59 :=
  Nat.pow_le_pow_right (by decide) (Nat.le_of_lt_succ q.fits)

theorem cell_eq (q : QueueConfig) (pos : Nat) : q.cell pos = pos % q.capacity := by
  rw [cell, mask, capacity, Nat.and_two_pow_sub_one_eq_mod]
  exact Nat.mod_mod_of_dvd pos (Nat.pow_dvd_pow 2 (by have := q.fits; omega))

end QueueConfig

structure Cell (α : Type) where
  sequence : Nat
  slotState : Option α

/-- What the last operation of a thread has returned. -/
inductive Returned (α : Type)
  | nothing
  | pushed (accepted : Bool)
  | popped (out : List (Option α))
  deriving DecidableEq

/-- Where a thread is. `push` and `push_batch` differ in what they do when a cell is not free;
`pop` is the fast path and then a `pop_batch` of one. -/
inductive QueuePc (α : Type)
  | idle (result : Returned α)
  | pushLoad (batch : Bool) (items : List α)
  | pushSeq (batch : Bool) (items : List α) (pos i : Nat)
  | pushCas (batch : Bool) (items : List α) (pos : Nat)
  | pushWrite (items : List α) (pos i : Nat)
  | pushPublish (items : List α) (pos i : Nat)
  | popDequeuePos
  | popEnqueuePos (d : Nat)
  | popLoad (maxCount : Nat)
  | popSeq (maxCount pos count : Nat)
  | popCas (maxCount pos count : Nat)
  | popRead (pos count i : Nat) (out : List (Option α))
  | popRelease (pos count i : Nat) (out : List (Option α))
  deriving DecidableEq

structure ReadyQueue (α : Type) where
  cells : Nat → Cell α
  enqueuePos : Nat
  dequeuePos : Nat
  thread : Nat → QueuePc α
  -- history
  pushed : List α               -- the item of every position claimed by a push
  left : List Nat               -- the positions in the order in which pops claim them
  popped : List (Nat × Option α) -- the positions read, with what was read there

namespace ReadyQueue

variable {α : Type}

/-- `ready_queue_init`. -/
def init : ReadyQueue α where
  cells i := ⟨i, none⟩
  enqueuePos := 0
  dequeuePos := 0
  thread _ := .idle .nothing
  pushed := []
  left := []
  popped := []

inductive Act (α : Type)
  | push (t : Nat) (x : α)
  | pushBatch (t : Nat) (items : List α)
  | pop (t : Nat)
  | popBatch (t maxCount : Nat)
  | go (t : Nat) (spurious : Bool)   -- the next step; a compare-and-swap may fail spuriously

def setPc (s : ReadyQueue α) (t : Nat) (pc : QueuePc α) : ReadyQueue α :=
  { s with thread := update s.thread t pc }

theorem setPc_self {s : ReadyQueue α} {t : Nat} {pc : QueuePc α} : (s.setPc t pc).thread t = pc :=
  update_self ..

theorem setPc_setPc {s : ReadyQueue α} {t : Nat} {pc pc' : QueuePc α} :
    (s.setPc t pc).setPc t pc' = s.setPc t pc' := by
  simp only [setPc, update_idem]

variable (q : QueueConfig)

/-- `seq - pos` as an `int64_t`. -/
def diff (seq pos : Nat) : Int := Int.bmod (seq - pos) (2 ^ 64)

def sequence (s : ReadyQueue α) (pos : Nat) : Nat := (s.cells (q.cell pos)).sequence

/-- The sequence check of a push for the item `i`, or the compare-and-swap after the last. -/
def pushNext (batch : Bool) (items : List α) (pos i : Nat) : QueuePc α :=
  if i < items.length then .pushSeq batch items pos i else .pushCas batch items pos

/-- The sequence check of a pop, or the compare-and-swap if there is something to claim. -/
def popNext (maxCount pos count : Nat) : QueuePc α :=
  if count < maxCount then .popSeq maxCount pos count
  else if count = 0 then .idle (.popped []) else .popCas maxCount pos count

def pushSeq (s : ReadyQueue α) (batch : Bool) (items : List α) (pos i : Nat) : QueuePc α :=
  let d := diff (s.sequence q (pos + i)) (pos + i)
  if d = 0 then pushNext batch items pos (i + 1)
  else if batch = false ∧ d < 0 then .idle (.pushed false)
  else .pushLoad batch items

def popSeq (s : ReadyQueue α) (maxCount pos count : Nat) : QueuePc α :=
  let d := diff (s.sequence q (pos + count)) (pos + count + 1)
  if d = 0 then popNext maxCount pos (count + 1)
  else if d < 0 then (if count = 0 then .idle (.popped []) else .popCas maxCount pos count)
  else .popLoad maxCount

/-- The compare-and-swap of a push has succeeded. -/
def claim (s : ReadyQueue α) (t : Nat) (items : List α) (pos : Nat) : ReadyQueue α :=
  { s.setPc t (.pushWrite items pos 0) with
    enqueuePos := (pos + items.length) % 2 ^ 64
    pushed := s.pushed ++ items }

def write (s : ReadyQueue α) (t : Nat) (items : List α) (pos i : Nat) : ReadyQueue α :=
  { s.setPc t (.pushPublish items pos i) with
    cells := update s.cells (q.cell (pos + i))
      { s.cells (q.cell (pos + i)) with slotState := items[i]? } }

def publish (s : ReadyQueue α) (t : Nat) (items : List α) (pos i : Nat) : ReadyQueue α :=
  { s.setPc t (if i + 1 < items.length then .pushWrite items pos (i + 1) else
    .idle (.pushed true)) with
    cells := update s.cells (q.cell (pos + i))
      { s.cells (q.cell (pos + i)) with sequence := (pos + i + 1) % 2 ^ 64 } }

/-- The compare-and-swap of a pop has succeeded. -/
def take (s : ReadyQueue α) (t : Nat) (pos count : Nat) : ReadyQueue α :=
  { s.setPc t (.popRead pos count 0 []) with
    dequeuePos := (pos + count) % 2 ^ 64
    left := s.left ++ List.range' pos count }

def read (s : ReadyQueue α) (t : Nat) (pos count i : Nat) (out : List (Option α)) :
    ReadyQueue α :=
  let x := (s.cells (q.cell (pos + i))).slotState
  { s.setPc t (.popRelease pos count i (out ++ [x])) with popped := s.popped ++ [(pos + i, x)] }

def release (s : ReadyQueue α) (t : Nat) (pos count i : Nat) (out : List (Option α)) :
    ReadyQueue α :=
  { s.setPc t (if i + 1 < count then .popRead pos count (i + 1) out else .idle (.popped out)) with
    cells := update s.cells (q.cell (pos + i))
      { s.cells (q.cell (pos + i)) with sequence := (pos + i + q.mask + 1) % 2 ^ 64 } }

def go (s : ReadyQueue α) (t : Nat) (spurious : Bool) : Option (ReadyQueue α) :=
  match s.thread t with
  | .idle _ => none
  | .pushLoad batch items => some (s.setPc t (pushNext batch items s.enqueuePos 0))
  | .pushSeq batch items pos i => some (s.setPc t (s.pushSeq q batch items pos i))
  | .pushCas batch items pos =>
    some (if spurious = false ∧ s.enqueuePos = pos then s.claim t items pos
      else s.setPc t (.pushLoad batch items))
  | .pushWrite items pos i => some (s.write q t items pos i)
  | .pushPublish items pos i => some (s.publish q t items pos i)
  | .popDequeuePos => some (s.setPc t (.popEnqueuePos s.dequeuePos))
  | .popEnqueuePos d =>
    some (s.setPc t (if s.enqueuePos ≤ d then .idle (.popped []) else .popLoad 1))
  | .popLoad maxCount => some (s.setPc t (popNext maxCount s.dequeuePos 0))
  | .popSeq maxCount pos count => some (s.setPc t (s.popSeq q maxCount pos count))
  | .popCas maxCount pos count =>
    some (if spurious = false ∧ s.dequeuePos = pos then s.take t pos count
      else s.setPc t (.popLoad maxCount))
  | .popRead pos count i out => some (s.read q t pos count i out)
  | .popRelease pos count i out => some (s.release q t pos count i out)

/-- A call of an operation by an idle thread. The counts of the batch operations are of type
`int`. -/
def call (s : ReadyQueue α) (t : Nat) (pc : QueuePc α) : Option (ReadyQueue α) :=
  match s.thread t with
  | .idle _ => some (s.setPc t pc)
  | _ => none

def step (s : ReadyQueue α) : Act α → Option (ReadyQueue α)
  | .push t x => s.call t (.pushLoad false [x])
  | .pushBatch t items =>
    if items.length < 2 ^ 31 then
      s.call t (if items = [] then .idle (.pushed true) else .pushLoad true items)
    else none
  | .pop t => s.call t .popDequeuePos
  | .popBatch t maxCount => if maxCount < 2 ^ 31 then s.call t (.popLoad maxCount) else none
  | .go t spurious => s.go q t spurious

/-! ## Positions -/

/-- The push of the position has stored its sequence number. -/
def Published (s : ReadyQueue α) (p : Nat) : Prop := p < s.sequence q p

/-- The pop of the position has stored its sequence number. -/
def Released (s : ReadyQueue α) (p : Nat) : Prop := p + q.capacity ≤ s.sequence q p

/-- The next step of the thread is a sequence check at which `push` gives up. -/
def refuses (s : ReadyQueue α) (t : Nat) : Bool :=
  match s.thread t with
  | .pushSeq false _ pos i => diff (s.sequence q (pos + i)) (pos + i) < 0
  | _ => false

/-- The next step of the thread is a sequence check of `push` at a cell whose last item has been
claimed by a pop and not yet released. -/
def lagging (s : ReadyQueue α) (t : Nat) : Bool :=
  match s.thread t with
  | .pushSeq false _ pos i =>
    q.capacity ≤ pos + i ∧ pos + i < s.dequeuePos + q.capacity ∧ s.sequence q (pos + i) < pos + i
  | _ => false

/-- The position has been read. -/
def Read (s : ReadyQueue α) (p : Nat) : Prop := p ∈ s.popped.map Prod.fst

end ReadyQueue

namespace QueuePc

variable {α : Type}

/-- The positions that a push has claimed and not published. -/
def Pushes : QueuePc α → Nat → Prop
  | .pushWrite items pos i, p | .pushPublish items pos i, p => pos + i ≤ p ∧ p < pos + items.length
  | _, _ => False

/-- The positions that a pop has claimed and not released. -/
def Pops : QueuePc α → Nat → Prop
  | .popRead pos count i _, p | .popRelease pos count i _, p => pos + i ≤ p ∧ p < pos + count
  | _, _ => False

/-- What a push has still to claim positions for, and whether it is a `push_batch`. -/
def pending : QueuePc α → Option (Bool × List α)
  | .pushLoad batch items | .pushSeq batch items _ _ | .pushCas batch items _ => some (batch, items)
  | _ => none

/-- What a thread relies on. A push that has seen a cell free relies on it only as long as
`enqueue_pos` is where it was, and sequence numbers only grow. -/
def Ok (q : QueueConfig) (s : ReadyQueue α) : QueuePc α → Prop
  | .idle _ | .popDequeuePos | .popEnqueuePos _ => True
  | .pushLoad _ items => items ≠ [] ∧ items.length < 2 ^ 31
  | .pushSeq _ items pos i =>
    i < items.length ∧ items.length < 2 ^ 31 ∧ pos ≤ s.pushed.length ∧
      (s.pushed.length = pos → ∀ j < i, pos + j ≤ s.sequence q (pos + j))
  | .pushCas _ items pos =>
    items ≠ [] ∧ items.length < 2 ^ 31 ∧ pos ≤ s.pushed.length ∧
      (s.pushed.length = pos → ∀ j < items.length, pos + j ≤ s.sequence q (pos + j))
  | .pushWrite items pos i =>
    i < items.length ∧ pos + items.length ≤ s.pushed.length ∧
      (∀ j < items.length, s.pushed[pos + j]? = items[j]?) ∧
      ∀ p, pos + i ≤ p → p < pos + items.length → ¬ s.Published q p
  | .pushPublish items pos i =>
    (i < items.length ∧ pos + items.length ≤ s.pushed.length ∧
      (∀ j < items.length, s.pushed[pos + j]? = items[j]?) ∧
      ∀ p, pos + i ≤ p → p < pos + items.length → ¬ s.Published q p) ∧
      (s.cells (q.cell (pos + i))).slotState = items[i]?
  | .popLoad maxCount => maxCount < 2 ^ 31
  | .popSeq maxCount pos count =>
    count < maxCount ∧ maxCount < 2 ^ 31 ∧ pos ≤ s.dequeuePos ∧
      (s.dequeuePos = pos → ∀ j < count, s.Published q (pos + j))
  | .popCas maxCount pos count =>
    0 < count ∧ maxCount < 2 ^ 31 ∧ pos ≤ s.dequeuePos ∧
      (s.dequeuePos = pos → ∀ j < count, s.Published q (pos + j))
  | .popRead pos count i _ =>
    i < count ∧ pos + count ≤ s.dequeuePos ∧
      ∀ p, pos + i ≤ p → p < pos + count → ¬ s.Released q p ∧ ¬ s.Read p
  | .popRelease pos count i _ =>
    i < count ∧ pos + count ≤ s.dequeuePos ∧ s.Read (pos + i) ∧ ¬ s.Released q (pos + i) ∧
      ∀ p, pos + i < p → p < pos + count → ¬ s.Released q p ∧ ¬ s.Read p

/-- What a thread relies on is kept by what others do. -/
theorem Ok.frame {q : QueueConfig} {s s' : ReadyQueue α} {pc : QueuePc α} (h : pc.Ok q s)
    (hpushed : s.pushed <+: s'.pushed) (hdequeue : s.dequeuePos ≤ s'.dequeuePos)
    (hseq : ∀ p, s.sequence q p ≤ s'.sequence q p)
    (hpush : ∀ p, pc.Pushes p → s'.cells (q.cell p) = s.cells (q.cell p))
    (hpop : ∀ p, pc.Pops p → s'.sequence q p = s.sequence q p ∧ (s'.Read p ↔ s.Read p)) :
    pc.Ok q s' := by
  have hlen := hpushed.length_le
  -- the items of claimed positions
  have hitems {items : List α} {pos : Nat} (hle : pos + items.length ≤ s.pushed.length)
      (hi : ∀ j < items.length, s.pushed[pos + j]? = items[j]?) :
      ∀ j < items.length, s'.pushed[pos + j]? = items[j]? := fun j hj => by
    rw [← hi j hj]
    exact (prefix_iff_getElem?.mp hpushed (pos + j) (by omega)).trans
      (getElem?_eq_getElem (by omega)).symm
  cases pc with
  | idle | popDequeuePos | popEnqueuePos => trivial
  | pushLoad | popLoad => exact h
  | pushSeq batch items pos i | pushCas batch items pos =>
    obtain ⟨hi, hbound, hpos, hseen⟩ := h
    exact ⟨hi, hbound, by omega, fun heq j hj => (hseen (by omega) j hj).trans (hseq _)⟩
  | pushWrite items pos i =>
    obtain ⟨hi, hle, hj, hnot⟩ := h
    refine ⟨hi, by omega, hitems hle hj, fun p hlo hhi => ?_⟩
    rw [ReadyQueue.Published, ReadyQueue.sequence, hpush p ⟨hlo, hhi⟩]
    exact hnot p hlo hhi
  | pushPublish items pos i =>
    obtain ⟨⟨hi, hle, hj, hnot⟩, hslot⟩ := h
    refine ⟨⟨hi, by omega, hitems hle hj, fun p hlo hhi => ?_⟩, ?_⟩
    · rw [ReadyQueue.Published, ReadyQueue.sequence, hpush p ⟨hlo, hhi⟩]
      exact hnot p hlo hhi
    · rw [hpush (pos + i) ⟨le_rfl, by omega⟩]
      exact hslot
  | popSeq maxCount pos count | popCas maxCount pos count =>
    obtain ⟨hi, hbound, hpos, hseen⟩ := h
    exact ⟨hi, hbound, by omega, fun heq j hj => (hseen (by omega) j hj).trans_le (hseq _)⟩
  | popRead pos count i out =>
    obtain ⟨hi, hle, hnot⟩ := h
    refine ⟨hi, by omega, fun p hlo hhi => ?_⟩
    obtain ⟨hs, hr⟩ := hpop p ⟨hlo, hhi⟩
    rw [ReadyQueue.Released, hs, hr]
    exact hnot p hlo hhi
  | popRelease pos count i out =>
    obtain ⟨hi, hle, hread, hrel, hnot⟩ := h
    obtain ⟨hs, hr⟩ := hpop (pos + i) ⟨le_rfl, by omega⟩
    refine ⟨hi, by omega, hr.mpr hread, ?_, fun p hlo hhi => ?_⟩
    · rw [ReadyQueue.Released, hs]
      exact hrel
    · obtain ⟨hs, hr⟩ := hpop p ⟨by omega, hhi⟩
      rw [ReadyQueue.Released, hs, hr]
      exact hnot p hlo hhi

end QueuePc

namespace ReadyQueue

variable {α : Type} {q : QueueConfig} {s s' : ReadyQueue α} {t t' p p' : Nat}
variable {pc : QueuePc α} {batch : Bool} {items : List α} {pos i maxCount count : Nat} {act : Act α}

/-! ## The invariant -/

structure Inv (q : QueueConfig) (s : ReadyQueue α) : Prop where
  enqueuePos : s.enqueuePos = s.pushed.length
  left : s.left = range s.dequeuePos
  -- a push has waited for its turn, and a pop for the push
  turn : ∀ p < s.pushed.length, p ≤ s.sequence q p
  published : ∀ p < s.dequeuePos, s.Published q p
  published_lt : ∀ p, s.Published q p → p < s.pushed.length
  released : ∀ p, s.Released q p → s.Read p
  read_lt : ∀ p, s.Read p → p < s.dequeuePos
  data : ∀ p, s.Published q p → ¬ s.Released q p →
    (s.cells (q.cell p)).slotState = s.pushed[p]?
  popped : ∀ p x, (p, x) ∈ s.popped → x = s.pushed[p]?
  nodup : (s.popped.map Prod.fst).Nodup
  sequence_le : ∀ p, s.sequence q p ≤ s.pushed.length + q.capacity
  index_le : ∀ p, p % q.capacity ≤ s.sequence q p
  threads : ∀ t, (s.thread t).Ok q s
  pushes : Sole QueuePc.Pushes s.thread
  pops : Sole QueuePc.Pops s.thread

theorem inv_init : Inv q (init : ReadyQueue α) where
  enqueuePos := rfl
  left := rfl
  turn _ h := by cases h
  published _ h := by cases h
  published_lt p h := by
    -- the cells start with their own index
    rw [Published, sequence, q.cell_eq] at h
    exact absurd h (not_lt.mpr (Nat.mod_le p _))
  released p h := by
    rw [Released, sequence, q.cell_eq] at h
    have := (show p % q.capacity < q.capacity from Nat.mod_lt p q.capacity_pos)
    exact absurd h (by show ¬ p + _ ≤ p % _; omega)
  read_lt _ h := by cases h
  data p h := by
    rw [Published, sequence, q.cell_eq] at h
    exact absurd h (not_lt.mpr (Nat.mod_le p _))
  popped _ _ h := by cases h
  nodup := .nil
  sequence_le p := by
    rw [sequence, q.cell_eq]
    exact Nat.le_add_left_of_le (Nat.mod_lt p q.capacity_pos).le
  index_le p := by
    rw [sequence, q.cell_eq]
    exact le_rfl
  threads _ := trivial
  pushes _ _ _ h := h.elim
  pops _ _ _ h := h.elim

theorem sequence_congr (h : q.cell p = q.cell p') : s.sequence q p = s.sequence q p' := by
  rw [sequence, sequence, h]

/-- Two positions of one cell are a multiple of the capacity apart. -/
theorem eq_of_cell_eq (h : q.cell p = q.cell p') (hp : p < p' + q.capacity)
    (hp' : p' < p + q.capacity) : p = p' := by
  rw [q.cell_eq, q.cell_eq] at h
  exact eq_of_mod_eq h hp hp'

namespace Inv

/-- A claimed cell is free. -/
theorem pushes_spec (h : Inv q s) (ht : (s.thread t).Pushes p) :
    p < s.pushed.length ∧ s.sequence q p = p := by
  have hok := h.threads t
  have hlt : p < s.pushed.length ∧ ¬ s.Published q p := by
    cases hpc : s.thread t with
    | pushWrite items pos i =>
      rw [hpc] at hok ht
      obtain ⟨hlo, hhi⟩ := ht
      exact ⟨by have := hok.2.1; omega, hok.2.2.2 p hlo hhi⟩
    | pushPublish items pos i =>
      rw [hpc] at hok ht
      obtain ⟨hlo, hhi⟩ := ht
      exact ⟨by have := hok.1.2.1; omega, hok.1.2.2.2 p hlo hhi⟩
    | _ =>
      rw [hpc] at ht
      exact ht.elim
  have hturn := h.turn p hlt.1
  have hnot := hlt.2
  unfold Published at hnot
  exact ⟨hlt.1, by omega⟩

/-- A taken cell is full. -/
theorem pops_spec (h : Inv q s) (ht : (s.thread t).Pops p) :
    p < s.dequeuePos ∧ p < s.sequence q p ∧ s.sequence q p < p + q.capacity := by
  have hok := h.threads t
  have hlt : p < s.dequeuePos ∧ ¬ s.Released q p := by
    cases hpc : s.thread t with
    | popRead pos count i out =>
      rw [hpc] at hok ht
      obtain ⟨hlo, hhi⟩ := ht
      exact ⟨by have := hok.2.1; omega, (hok.2.2 p hlo hhi).1⟩
    | popRelease pos count i out =>
      rw [hpc] at hok ht
      obtain ⟨hlo, hhi⟩ := ht
      refine ⟨by have := hok.2.1; omega, ?_⟩
      rcases Nat.eq_or_lt_of_le hlo with heq | hlt
      · exact heq ▸ hok.2.2.2.1
      · exact (hok.2.2.2.2 p hlt hhi).1
    | _ =>
      rw [hpc] at ht
      exact ht.elim
  exact ⟨hlt.1, h.published p hlt.1, not_le.mp hlt.2⟩

/-- Positions that two threads have claimed are in different cells. -/
theorem cell_ne (h : Inv q s) (ht : (s.thread t).Pushes p ∨ (s.thread t).Pops p) (hne : t' ≠ t)
    (ht' : (s.thread t').Pushes p' ∨ (s.thread t').Pops p') :
    q.cell p' ≠ q.cell p := fun hcell => by
  have hseq := sequence_congr (s := s) hcell
  rcases ht with ht | ht <;> rcases ht' with ht' | ht'
  · have : p' = p := by rw [← (h.pushes_spec ht').2, hseq, (h.pushes_spec ht).2]
    exact hne (h.pushes t' t p (this ▸ ht') ht)
  · have hp := (h.pushes_spec ht).2
    obtain ⟨-, hlo, hhi⟩ := h.pops_spec ht'
    exact absurd (eq_of_cell_eq hcell (by omega) (by omega)) (by omega)
  · have hp := (h.pushes_spec ht').2
    obtain ⟨-, hlo, hhi⟩ := h.pops_spec ht
    exact absurd (eq_of_cell_eq hcell (by omega) (by omega)) (by omega)
  · obtain ⟨-, hlo, hhi⟩ := h.pops_spec ht
    obtain ⟨-, hlo', hhi'⟩ := h.pops_spec ht'
    have : p' = p := eq_of_cell_eq hcell (by omega) (by omega)
    exact hne (h.pops t' t p (this ▸ ht') ht)

theorem threads_update (hthread : s'.thread = update s.thread t pc) (hok : pc.Ok q s')
    (hothers : ∀ t' ≠ t, (s.thread t').Ok q s') (t' : Nat) :
    (s'.thread t').Ok q s' := by
  rw [hthread, update_apply]
  split_ifs with hne
  · exact hok
  · exact hothers t' hne

/-- A step that moves a thread on and touches nothing else. -/
theorem setPc (h : Inv q s) (hok : pc.Ok q s) (hpush : ∀ p, ¬ pc.Pushes p)
    (hpop : ∀ p, ¬ pc.Pops p) : Inv q (s.setPc t pc) := by
  have hframe {pc' : QueuePc α} (hok' : pc'.Ok q s) : pc'.Ok q (s.setPc t pc) :=
    hok'.frame (prefix_refl _) le_rfl (fun _ => le_rfl) (fun _ _ => rfl)
      (fun _ _ => ⟨rfl, .rfl⟩)
  exact { h with
    threads := threads_update rfl (hframe hok) fun t' _ => hframe (h.threads t')
    pushes := h.pushes.update fun p hp => absurd hp (hpush p)
    pops := h.pops.update fun p hp => absurd hp (hpop p) }

/-- No pop is ahead of the pushes. -/
theorem dequeuePos_le (h : Inv q s) : s.dequeuePos ≤ s.pushed.length := by
  by_contra hlt
  exact lt_irrefl _ (h.published_lt _ (h.published s.pushed.length (by omega)))

/-- What has been read has an item. -/
theorem read_lt_pushed (h : Inv q s) (hr : s.Read p) : p < s.pushed.length :=
  h.published_lt p (h.published p (h.read_lt p hr))

/-- A push wins its CAS. -/
theorem claim (h : Inv q s) (hpc : s.thread t = .pushCas batch items pos)
    (hpos : s.enqueuePos = pos) (hops : (s.pushed ++ items).length < 2 ^ 62) :
    Inv q (s.claim t items pos) := by
  have hok := h.threads t
  rw [hpc] at hok
  obtain ⟨hne, -, -, hseen⟩ := hok
  rw [h.enqueuePos] at hpos
  have hlen : 0 < items.length := length_pos_iff.mpr hne
  have hget {p : Nat} (hp : p < s.pushed.length) : (s.pushed ++ items)[p]? = s.pushed[p]? :=
    getElem?_append_left hp
  rw [length_append] at hops
  refine { h with
    enqueuePos := ?_
    turn := fun p hp => ?_
    published_lt := fun p hp => ?_
    data := fun p hpub hrel => (h.data p hpub hrel).trans (hget (h.published_lt p hpub)).symm
    popped := fun p x hx =>
      (h.popped p x hx).trans (hget (h.read_lt_pushed (mem_map_of_mem hx))).symm
    sequence_le := fun p => ?_
    threads := threads_update rfl ?_ fun t' _ =>
      (h.threads t').frame (prefix_append _ _) le_rfl (fun _ => le_rfl)
        (fun _ _ => rfl) (fun _ _ => ⟨rfl, .rfl⟩)
    pushes := h.pushes.update fun p hp => .inr fun t' ht' => ?_
    pops := h.pops.update fun p hp => hp.elim }
  · show (pos + items.length) % 2 ^ 64 = (s.pushed ++ items).length
    rw [length_append, Nat.mod_eq_of_lt (by omega), hpos]
  · -- the cells of the new positions were seen free
    have hp : p < (s.pushed ++ items).length := hp
    rw [length_append] at hp
    by_cases hold : p < s.pushed.length
    · exact h.turn p hold
    · have := hseen hpos (p - pos) (by omega)
      rw [Nat.add_sub_cancel' (by omega)] at this
      exact this
  · have := h.published_lt p hp
    show p < (s.pushed ++ items).length
    rw [length_append]
    omega
  · have := h.sequence_le p
    show s.sequence q p ≤ (s.pushed ++ items).length + _
    rw [length_append]
    omega
  · refine ⟨hlen, ?_, fun j hj => ?_, fun p hlo _ hpub => ?_⟩
    · show _ ≤ (s.pushed ++ items).length
      rw [length_append, hpos]
    · show (s.pushed ++ items)[pos + j]? = _
      rw [← hpos, getElem?_append_right (Nat.le_add_right _ _), Nat.add_sub_cancel_left]
    · have := h.published_lt p hpub
      omega
  · have := (h.pushes_spec ht').1
    have := hp.1
    omega

theorem sequence_write (items : List α) (pos i p : Nat) :
    (s.write q t items pos i).sequence q p = s.sequence q p := by
  simp only [ReadyQueue.write, ReadyQueue.sequence, update_apply]
  split_ifs with heq
  · rw [heq]
  · rfl

/-- An item is written. -/
theorem write (h : Inv q s) (hpc : s.thread t = .pushWrite items pos i) :
    Inv q (s.write q t items pos i) := by
  have hok := h.threads t
  rw [hpc] at hok
  obtain ⟨hi, hle, hitems, hnot⟩ := hok
  have hown : (s.thread t).Pushes (pos + i) := by
    rw [hpc]
    exact ⟨le_rfl, by omega⟩
  have hseq := sequence_write (s := s) (q := q) (t := t) items pos i
  have hcell {p : Nat} (hp : q.cell p ≠ q.cell (pos + i)) :
      (s.write q t items pos i).cells (q.cell p) = s.cells (q.cell p) :=
    update_of_ne hp ..
  have hpub (p : Nat) : (s.write q t items pos i).Published q p ↔ s.Published q p := by
    rw [Published, hseq]
    rfl
  have hrel (p : Nat) : (s.write q t items pos i).Released q p ↔ s.Released q p := by
    rw [Released, hseq]
    rfl
  refine { h with
    turn := fun p hp => (h.turn p hp).trans (hseq p).ge
    published := fun p hp => (hpub p).mpr (h.published p hp)
    published_lt := fun p hp => h.published_lt p ((hpub p).mp hp)
    released := fun p hp => h.released p ((hrel p).mp hp)
    data := fun p hp hr => ?_
    sequence_le := fun p => (hseq p).trans_le (h.sequence_le p)
    index_le := fun p => (h.index_le p).trans (hseq p).ge
    threads := threads_update rfl
      ⟨⟨hi, hle, hitems, fun p hlo hhi hp => hnot p hlo hhi ((hpub p).mp hp)⟩, ?_⟩ fun t' hne => ?_
    pushes := h.pushes.update fun p hp => .inl (hpc ▸ hp)
    pops := h.pops.update fun p hp => hp.elim }
  · -- a position that waits to be popped is not the one being pushed
    rw [hpub] at hp
    rw [hrel] at hr
    rw [hcell fun heq => ?_]
    · exact h.data p hp hr
    · have hown := (h.pushes_spec hown).2
      unfold Published at hp
      unfold Released at hr
      rw [sequence_congr heq, hown] at hp hr
      exact absurd (eq_of_cell_eq heq (by omega) (by omega)) (by omega)
  · show (update s.cells (q.cell (pos + i)) _ (q.cell (pos + i))).slotState = _
    rw [update_self]
  · exact (h.threads t').frame (prefix_refl _) le_rfl (fun p => (hseq p).ge)
      (fun p hp => hcell (h.cell_ne (.inl hown) hne (.inl hp))) (fun p _ => ⟨hseq p, .rfl⟩)

section Store

variable {pc : QueuePc α} {pos v : Nat}

theorem sequence_store (hs' : s' = { s.setPc t pc with
      cells := update s.cells (q.cell pos)
        { s.cells (q.cell pos) with sequence := v % 2 ^ 64 } }) (hlt : v < 2 ^ 64) (p : Nat) :
    s'.sequence q p = if q.cell p = q.cell pos then v else s.sequence q p := by
  rw [hs', sequence]
  simp only [update_apply]
  split
  · exact Nat.mod_eq_of_lt hlt
  · rfl

/-- A thread stores a new sequence number in the cell of a position that it has claimed. -/
theorem store (h : Inv q s) (hs' : s' = { s.setPc t pc with
      cells := update s.cells (q.cell pos)
        { s.cells (q.cell pos) with sequence := v % 2 ^ 64 } }) (hlt : v < 2 ^ 64)
    (hown : (s.thread t).Pushes pos ∨ (s.thread t).Pops pos)
    (hgrow : s.sequence q pos ≤ v) (hv : v ≤ s.pushed.length + q.capacity)
    (hpub : ∀ p, q.cell p = q.cell pos → p < v → p < s.pushed.length)
    (hrel : ∀ p, q.cell p = q.cell pos → p + q.capacity ≤ v → s.Read p)
    (hdata : ∀ p, q.cell p = q.cell pos → p < v → v < p + q.capacity →
      (s.cells (q.cell p)).slotState = s.pushed[p]?)
    (hok : pc.Ok q s') (hpushes : ∀ p, pc.Pushes p → (s.thread t).Pushes p)
    (hpops : ∀ p, pc.Pops p → (s.thread t).Pops p) : Inv q s' := by
  have hseq := sequence_store hs' hlt
  have hmono (p : Nat) : s.sequence q p ≤ s'.sequence q p := by
    rw [hseq]
    split_ifs with heq
    · exact (sequence_congr heq).trans_le hgrow
    · exact le_rfl
  subst hs'
  refine { h with
    turn := fun p hp => (h.turn p hp).trans (hmono p)
    published := fun p hp => (h.published p hp).trans_le (hmono p)
    published_lt := fun p hp => ?_
    released := fun p hp => ?_
    data := fun p hp hr => ?_
    sequence_le := fun p => ?_
    index_le := fun p => (h.index_le p).trans (hmono p)
    threads := threads_update rfl hok fun t' hne =>
      (h.threads t').frame (prefix_refl _) le_rfl hmono (fun p hp => ?_)
        (fun p hp => ⟨?_, .rfl⟩)
    pushes := h.pushes.update fun p hp => .inl (hpushes p hp)
    pops := h.pops.update fun p hp => .inl (hpops p hp) }
  · rw [Published, hseq] at hp
    split_ifs at hp with heq
    · exact hpub p heq hp
    · exact h.published_lt p hp
  · rw [Released, hseq] at hp
    split_ifs at hp with heq
    · exact hrel p heq hp
    · exact h.released p hp
  · rw [Published, hseq] at hp
    rw [Released, hseq] at hr
    simp only [update_apply]
    split at hp
    · rename_i heq
      rw [if_pos heq] at hr ⊢
      rw [← heq]
      exact hdata p heq hp (not_le.mp hr)
    · rename_i hne
      rw [if_neg hne] at hr ⊢
      exact h.data p hp hr
  · rw [hseq]
    split
    · exact hv
    · exact h.sequence_le p
  · exact update_of_ne (h.cell_ne hown hne (.inl hp)) ..
  · rw [hseq, if_neg (h.cell_ne hown hne (.inr hp))]

end Store

/-- The cell is handed to the consumers. -/
theorem publish (h : Inv q s) (hcap : 2 ≤ q.capacity) (hops : s.pushed.length < 2 ^ 62)
    (hpc : s.thread t = .pushPublish items pos i) :
    Inv q (s.publish q t items pos i) := by
  have hok := h.threads t
  rw [hpc] at hok
  obtain ⟨⟨hi, hle, hitems, hnot⟩, hslot⟩ := hok
  have hown : (s.thread t).Pushes (pos + i) := by
    rw [hpc]
    exact ⟨le_rfl, by omega⟩
  obtain ⟨-, hturn⟩ := h.pushes_spec hown
  refine h.store rfl (by omega) (.inl hown) (by omega) (by omega) (fun p _ hp => by omega) ?_ ?_ ?_
    ?_ ?_
  · -- with two cells or more, publishing a position releases none
    intro p heq hp
    refine h.released p (show _ ≤ _ from ?_)
    rw [sequence_congr heq, hturn]
    by_contra hlt
    have := eq_of_cell_eq heq (by omega) (by omega)
    omega
  · intro p heq hp hlt
    have := eq_of_cell_eq heq (by omega) (by omega)
    rw [this, hslot]
    exact (hitems i hi).symm
  · split_ifs with hnext
    · refine ⟨hnext, hle, hitems, fun p hlo hhi hp => ?_⟩
      rw [Published, sequence_store (show s.publish q t items pos i = _ from rfl) (by omega)] at hp
      split at hp
      · omega
      · exact hnot p (by omega) hhi hp
    · trivial
  · intro p hp
    rw [hpc]
    split at hp
    · exact ⟨by have := hp.1; omega, hp.2⟩
    · exact hp.elim
  · intro p hp
    split at hp <;> exact hp.elim

/-- A pop wins its CAS. -/
theorem take (h : Inv q s) (hops : s.pushed.length < 2 ^ 62)
    (hpc : s.thread t = .popCas maxCount pos count) (hpos : s.dequeuePos = pos) :
    Inv q (s.take t pos count) := by
  have hok := h.threads t
  rw [hpc] at hok
  obtain ⟨hcount, -, -, hseen⟩ := hok
  -- the items were seen published
  have hpub (p : Nat) (hp : p < pos + count) : s.Published q p := by
    by_cases hold : p < pos
    · exact h.published p (hpos ▸ hold)
    · have := hseen hpos (p - pos) (by omega)
      rwa [Nat.add_sub_cancel' (by omega)] at this
  have hle : pos + count ≤ s.pushed.length := by
    have := h.published_lt (pos + count - 1) (hpub _ (by omega))
    omega
  have hdeq : (s.take t pos count).dequeuePos = pos + count :=
    Nat.mod_eq_of_lt (by omega)
  refine { h with
    left := ?_
    published := fun p hp => hpub p (hdeq ▸ hp)
    read_lt := fun p hp => ?_
    threads := threads_update rfl ?_ fun t' _ =>
      (h.threads t').frame (prefix_refl _) ?_ (fun _ => le_rfl) (fun _ _ => rfl)
        (fun _ _ => ⟨rfl, .rfl⟩)
    pushes := h.pushes.update fun p hp => hp.elim
    pops := h.pops.update fun p hp => .inr fun t' ht' => ?_ }
  · rw [hdeq]
    show s.left ++ range' pos count = _
    rw [h.left, hpos, range_eq_range', range_eq_range']
    have := range'_append_1 (s := 0) (m := pos) (n := count)
    rwa [zero_add] at this
  · rw [hdeq]
    have := h.read_lt p hp
    omega
  · have hnew (p : Nat) (hlo : pos + 0 ≤ p) : ¬ s.Read p := fun hr => by
      have := h.read_lt p hr
      omega
    exact ⟨hcount, hdeq.ge, fun p hlo _ => ⟨fun hr => hnew p hlo (h.released p hr), hnew p hlo⟩⟩
  · rw [hdeq]
    omega
  -- nobody else has these positions
  · have := (h.pops_spec ht').1
    have := hp.1
    omega

/-- An item is read. -/
theorem read (h : Inv q s) {out : List (Option α)} (hpc : s.thread t = .popRead pos count i out) :
    Inv q (s.read q t pos count i out) := by
  have hok := h.threads t
  rw [hpc] at hok
  obtain ⟨hi, hle, hnot⟩ := hok
  have hown : (s.thread t).Pops (pos + i) := by
    rw [hpc]
    exact ⟨le_rfl, by omega⟩
  obtain ⟨hrel, hunread⟩ := hnot (pos + i) le_rfl (by omega)
  have hread (p : Nat) : (s.read q t pos count i out).Read p ↔ s.Read p ∨ p = pos + i := by
    simp [ReadyQueue.read, Read]
  refine { h with
    released := fun p hp => (hread p).mpr (.inl (h.released p hp))
    read_lt := fun p hp => ?_
    popped := fun p x hx => ?_
    nodup := ?_
    threads := threads_update rfl ⟨hi, hle, (hread _).mpr (.inr rfl), hrel, fun p hlo hhi => ?_⟩
      fun t' hne => ?_
    pushes := h.pushes.update fun p hp => hp.elim
    pops := h.pops.update fun p hp => .inl (hpc ▸ hp) }
  · rcases (hread p).mp hp with hp | rfl
    · exact h.read_lt p hp
    · exact (h.pops_spec hown).1
  · rcases mem_append.mp hx with hx | hx
    · exact h.popped p x hx
    · -- the cell still has the item: it is published and not released
      cases mem_singleton.mp hx
      exact h.data _ (h.published _ (h.pops_spec hown).1) hrel
  · show ((s.popped ++ [_]).map Prod.fst).Nodup
    rw [map_append, nodup_append]
    refine ⟨h.nodup, pairwise_singleton _ _, fun a ha b hb hab => hunread ?_⟩
    have hb : b = pos + i := by simpa using hb
    rw [← hb, ← hab]
    exact ha
  · obtain ⟨hr, hn⟩ := hnot p (by omega) hhi
    refine ⟨hr, fun hp => ?_⟩
    rcases (hread p).mp hp with hp | hp
    · exact hn hp
    · omega
  · refine (h.threads t').frame (prefix_refl _) le_rfl (fun _ => le_rfl)
      (fun _ _ => rfl) (fun p hp => ⟨rfl, ?_⟩)
    rw [hread, or_iff_left]
    rintro rfl
    exact hne (h.pops t' t _ hp hown)

/-- The cell is handed back. -/
theorem release (h : Inv q s) (hcap : 2 ≤ q.capacity) (hops : s.pushed.length < 2 ^ 62)
    {out : List (Option α)} (hpc : s.thread t = .popRelease pos count i out) :
    Inv q (s.release q t pos count i out) := by
  have hok := h.threads t
  rw [hpc] at hok
  obtain ⟨hi, hle, hread, hrel, hnot⟩ := hok
  have hown : (s.thread t).Pops (pos + i) := by
    rw [hpc]
    exact ⟨le_rfl, by omega⟩
  obtain ⟨hlt, hlo, hhi⟩ := h.pops_spec hown
  have hbound := q.capacity_le
  have hdeq := h.dequeuePos_le
  have hmask : q.mask + 1 = q.capacity := Nat.sub_add_cancel q.capacity_pos
  refine h.store rfl (by omega) (.inr hown) (by omega) (by omega) ?_ ?_ ?_ ?_ ?_ ?_
  · intro p heq hp
    by_contra hge
    have := eq_of_cell_eq heq (by omega) (by omega)
    omega
  · intro p heq hp
    rcases Nat.eq_or_lt_of_le (show p ≤ pos + i by omega) with hpe | hplt
    · exact hpe ▸ hread
    · -- an earlier position of the cell was released before
      refine h.released p (show _ ≤ _ from ?_)
      rw [sequence_congr heq]
      by_contra hno
      have := eq_of_cell_eq heq (by omega) (by omega)
      omega
  · intro p heq hp hlt
    have := eq_of_cell_eq heq (by omega) (by omega)
    omega
  · split_ifs with hnext
    · refine ⟨hnext, hle, fun p hplo hphi => ?_⟩
      obtain ⟨hr, hn⟩ := hnot p (by omega) hphi
      refine ⟨fun hp => ?_, hn⟩
      rw [Released,
        sequence_store (show s.release q t pos count i out = _ from rfl) (by omega)] at hp
      split at hp
      · omega
      · exact hr hp
    · trivial
  · intro p hp
    split at hp <;> exact hp.elim
  · intro p hp
    rw [hpc]
    split at hp
    · exact ⟨by have := hp.1; omega, hp.2⟩
    · exact hp.elim

/-! ## Steps -/

/-- Below half the range the comparison is exact. -/
theorem eq_of_diff_eq_zero {seq : Nat} (hseq : seq < 2 ^ 63) (hpos : pos < 2 ^ 63)
    (h : diff seq pos = 0) : seq = pos := by
  unfold diff Int.bmod at h
  dsimp only at h
  split at h <;> omega

theorem lt_of_diff_neg {seq : Nat} (hseq : seq < 2 ^ 63) (hpos : pos < 2 ^ 63)
    (h : diff seq pos < 0) : seq < pos := by
  unfold diff Int.bmod at h
  dsimp only at h
  split at h <;> omega

theorem call (h : Inv q s) (hst : s.call t pc = some s') (hok : pc.Ok q s)
    (hpush : ∀ p, ¬ pc.Pushes p) (hpop : ∀ p, ¬ pc.Pops p) : Inv q s' := by
  unfold ReadyQueue.call at hst
  split at hst
  · cases hst
    exact h.setPc hok hpush hpop
  · cases hst

theorem pushNext (h : Inv q s) (hne : items ≠ []) (hlen : items.length < 2 ^ 31)
    (hpos : pos ≤ s.pushed.length)
    (hseen : s.pushed.length = pos → ∀ j < i, pos + j ≤ s.sequence q (pos + j))
    (hi : i ≤ items.length) : Inv q (s.setPc t (pushNext batch items pos i)) := by
  unfold ReadyQueue.pushNext
  split
  · rename_i hlt
    exact h.setPc ⟨hlt, hlen, hpos, hseen⟩ (fun _ => id) fun _ => id
  · rename_i hge
    have hi : i = items.length := by omega
    exact h.setPc ⟨hne, hlen, hpos, hi ▸ hseen⟩ (fun _ => id) fun _ => id

theorem popNext (h : Inv q s) (hmax : maxCount < 2 ^ 31) (hpos : pos ≤ s.dequeuePos)
    (hseen : s.dequeuePos = pos → ∀ j < count, s.Published q (pos + j)) :
    Inv q (s.setPc t (popNext maxCount pos count)) := by
  unfold ReadyQueue.popNext
  split
  · rename_i hlt
    exact h.setPc ⟨hlt, hmax, hpos, hseen⟩ (fun _ => id) fun _ => id
  · split_ifs with hne
    · exact h.setPc trivial (fun _ => id) fun _ => id
    · exact h.setPc ⟨Nat.pos_of_ne_zero hne, hmax, hpos, hseen⟩ (fun _ => id) fun _ => id

theorem pushSeq (h : Inv q s) (hops : s.pushed.length < 2 ^ 62)
    (hpc : s.thread t = .pushSeq batch items pos i) :
    Inv q (s.setPc t (s.pushSeq q batch items pos i)) := by
  have hok := h.threads t
  rw [hpc] at hok
  obtain ⟨hi, hlen, hpos, hseen⟩ := hok
  have hne : items ≠ [] := length_pos_iff.mp (by omega)
  have hle := h.sequence_le (pos + i)
  have hcap := q.capacity_le
  unfold ReadyQueue.pushSeq
  dsimp only
  split
  · -- the cell is free for its position
    rename_i hd
    have hseq := eq_of_diff_eq_zero (by omega) (by omega) hd
    refine h.pushNext hne hlen hpos (fun heq j hj => ?_) hi
    rcases Nat.lt_succ_iff_lt_or_eq.mp hj with hj | rfl
    · exact hseen heq j hj
    · exact hseq.ge
  · split
    · exact h.setPc trivial (fun _ => id) fun _ => id
    · exact h.setPc ⟨hne, hlen⟩ (fun _ => id) fun _ => id

theorem popSeq (h : Inv q s) (hops : s.pushed.length < 2 ^ 62)
    (hpc : s.thread t = .popSeq maxCount pos count) :
    Inv q (s.setPc t (s.popSeq q maxCount pos count)) := by
  have hok := h.threads t
  rw [hpc] at hok
  obtain ⟨hcount, hmax, hpos, hseen⟩ := hok
  have hle := h.sequence_le (pos + count)
  have hdeq := h.dequeuePos_le
  have hcap := q.capacity_le
  unfold ReadyQueue.popSeq
  dsimp only
  split
  · -- the cell holds the item of its position
    rename_i hd
    have hseq := eq_of_diff_eq_zero (by omega) (by omega) hd
    refine h.popNext hmax hpos fun heq j hj => ?_
    rcases Nat.lt_succ_iff_lt_or_eq.mp hj with hj | rfl
    · exact hseen heq j hj
    · exact hseq.ge
  · split
    · split_ifs with hne
      · exact h.setPc trivial (fun _ => id) fun _ => id
      · exact h.setPc ⟨Nat.pos_of_ne_zero hne, hmax, hpos, hseen⟩ (fun _ => id) fun _ => id
    · exact h.setPc hmax (fun _ => id) fun _ => id

/-- A thread goes on. -/
theorem go (h : Inv q s) (hcap : 2 ≤ q.capacity) {spurious : Bool}
    (hst : s.go q t spurious = some s') (hops : s'.pushed.length < 2 ^ 62) : Inv q s' := by
  have hok := h.threads t
  unfold ReadyQueue.go at hst
  split at hst <;> cases hst
  · rename_i batch items hpc
    rw [hpc] at hok
    exact h.pushNext hok.1 hok.2 h.enqueuePos.le (fun _ _ hj => (by cases hj)) (Nat.zero_le _)
  · rename_i hpc
    exact h.pushSeq hops hpc
  · rename_i batch items pos hpc
    by_cases hcas : spurious = false ∧ s.enqueuePos = pos
    · rw [if_pos hcas] at hops ⊢
      exact h.claim hpc hcas.2 hops
    · rw [if_neg hcas]
      rw [hpc] at hok
      exact h.setPc ⟨hok.1, hok.2.1⟩ (fun _ => id) fun _ => id
  · rename_i hpc
    exact h.write hpc
  · rename_i hpc
    exact h.publish hcap hops hpc
  · exact h.setPc trivial (fun _ => id) fun _ => id
  · split
    · exact h.setPc trivial (fun _ => id) fun _ => id
    · exact h.setPc (show 1 < 2 ^ 31 by decide) (fun _ => id) fun _ => id
  · rename_i maxCount hpc
    rw [hpc] at hok
    exact h.popNext hok le_rfl fun _ _ hj => (by cases hj)
  · rename_i hpc
    exact h.popSeq hops hpc
  · rename_i maxCount pos count hpc
    by_cases hcas : spurious = false ∧ s.dequeuePos = pos
    · rw [if_pos hcas] at hops ⊢
      exact h.take hops hpc hcas.2
    · rw [if_neg hcas]
      rw [hpc] at hok
      exact h.setPc hok.2.1 (fun _ => id) fun _ => id
  · rename_i hpc
    exact h.read hpc
  · rename_i hpc
    exact h.release hcap hops hpc

theorem step (h : Inv q s) (hcap : 2 ≤ q.capacity) (hst : step q s act = some s')
    (hops : s'.pushed.length < 2 ^ 62) : Inv q s' := by
  cases act with
  | push t x =>
    exact h.call hst ⟨cons_ne_nil _ _, show 1 < 2 ^ 31 by decide⟩ (fun _ => id) fun _ => id
  | pushBatch t items =>
    obtain ⟨hlen, hst⟩ := ite_none_right_eq_some.mp hst
    split_ifs at hst with hne
    · exact h.call hst trivial (fun _ => id) fun _ => id
    · exact h.call hst ⟨hne, hlen⟩ (fun _ => id) fun _ => id
  | pop t => exact h.call hst trivial (fun _ => id) fun _ => id
  | popBatch t maxCount =>
    obtain ⟨hmax, hst⟩ := ite_none_right_eq_some.mp hst
    exact h.call hst hmax (fun _ => id) fun _ => id
  | go t spurious => exact h.go hcap hst hops

/-- All positions a capacity behind the last push have been read. -/
theorem pushed_le (h : Inv q s) : s.pushed.length ≤ s.popped.length + q.capacity := by
  have hsub : range (s.pushed.length - q.capacity) ⊆ s.popped.map Prod.fst := fun p hp => by
    rw [mem_range] at hp
    refine h.released p (show _ ≤ _ from ?_)
    have hcell : q.cell p = q.cell (p + q.capacity) := by
      rw [q.cell_eq, q.cell_eq, Nat.add_mod_right]
    rw [sequence_congr hcell]
    exact h.turn _ (by omega)
  have := (List.Nodup.subperm nodup_range hsub).length_le
  rw [length_range, length_map] at this
  omega

theorem popped_le (h : Inv q s) : s.popped.length ≤ s.dequeuePos := by
  have hsub : s.popped.map Prod.fst ⊆ range s.dequeuePos := fun p hp =>
    mem_range.mpr (h.read_lt p hp)
  have := (List.Nodup.subperm h.nodup hsub).length_le
  rwa [length_range, length_map] at this

end Inv

/-! ## The queue that the cells implement -/

/-- The steps of a bounded queue: items come in at the back and leave at the front. -/
inductive FifoStep (capacity : Nat) : List α → List α → Prop
  | stutter (l : List α) : FifoStep capacity l l
  | enqueue (l items : List α) : (l ++ items).length ≤ capacity → FifoStep capacity l (l ++ items)
  | dequeue (front l : List α) : FifoStep capacity (front ++ l) l

/-- The items whose positions no pop has claimed. -/
def contents (s : ReadyQueue α) : List α := s.pushed.drop s.dequeuePos

/-- What a step of an operation does for the others: it claims positions for a push or for a pop,
or it only moves its thread on. -/
inductive Effect (q : QueueConfig) (s : ReadyQueue α) (t : Nat) : ReadyQueue α → Prop
  | quiet {s' : ReadyQueue α} (pc : QueuePc α) (hthread : s'.thread = update s.thread t pc)
      (hpushed : s'.pushed = s.pushed) (hdequeue : s'.dequeuePos = s.dequeuePos)
      (hleft : s'.left = s.left)
      (hpending : pc.pending = none ∨ pc.pending = (s.thread t).pending)
      (hrefused : pc = .idle (.pushed false) → s.refuses q t = true) : Effect q s t s'
  | claim (batch : Bool) (items : List α) (pos : Nat) (hpc : s.thread t = .pushCas batch items pos)
      (hpos : s.enqueuePos = pos) : Effect q s t (s.claim t items pos)
  | take (maxCount pos count : Nat) (hpc : s.thread t = .popCas maxCount pos count)
      (hpos : s.dequeuePos = pos) : Effect q s t (s.take t pos count)

theorem go_effect {spurious : Bool} (hst : s.go q t spurious = some s') : Effect q s t s' := by
  have hquiet {pc : QueuePc α} (hpending : pc.pending = none ∨ pc.pending = (s.thread t).pending)
      (hpc : pc ≠ .idle (.pushed false)) : Effect q s t (s.setPc t pc) :=
    .quiet pc rfl rfl rfl rfl hpending fun he => absurd he hpc
  unfold go at hst
  cases hpc : s.thread t <;> simp only [hpc, Option.some.injEq] at hst <;> try subst hst
  case idle => cases hst
  case pushLoad batch items =>
    refine hquiet (.inr ?_) ?_ <;> unfold pushNext <;> split <;> first | rw [hpc]; rfl | nofun
  case pushSeq batch items pos i =>
    have hrefuses (hd : diff (s.sequence q (pos + i)) (pos + i) < 0) (hb : batch = false) :
        s.refuses q t = true := by
      rw [refuses, hpc, hb]
      exact decide_eq_true hd
    refine .quiet _ rfl rfl rfl rfl ?_ ?_ <;> unfold pushSeq <;> dsimp only <;> split
    · unfold pushNext
      split <;> exact .inr (by rw [hpc]; rfl)
    · split
      · exact .inl rfl
      · exact .inr (by rw [hpc]; rfl)
    · unfold pushNext
      split <;> exact nofun
    · split_ifs with hd
      · exact fun _ => hrefuses hd.2 hd.1
      · exact nofun
  case pushCas batch items pos =>
    by_cases hcas : spurious = false ∧ s.enqueuePos = pos
    · rw [if_pos hcas]
      exact .claim batch items pos hpc hcas.2
    · rw [if_neg hcas]
      exact hquiet (.inr (by rw [hpc]; rfl)) nofun
  case popCas maxCount pos count =>
    by_cases hcas : spurious = false ∧ s.dequeuePos = pos
    · rw [if_pos hcas]
      exact .take maxCount pos count hpc hcas.2
    · rw [if_neg hcas]
      exact hquiet (.inl rfl) nofun
  case pushWrite => exact .quiet _ rfl rfl rfl rfl (.inl rfl) nofun
  case popRead => exact .quiet _ rfl rfl rfl rfl (.inl rfl) nofun
  case pushPublish | popRelease =>
    refine .quiet _ rfl rfl rfl rfl ?_ ?_ <;> split <;> first | exact .inl rfl | nofun
  case popDequeuePos => exact hquiet (.inl rfl) nofun
  case popEnqueuePos =>
    refine hquiet ?_ ?_ <;> split <;> first | exact .inl rfl | nofun
  case popLoad =>
    refine hquiet ?_ ?_ <;> unfold popNext <;> (repeat' split) <;> first | exact .inl rfl | nofun
  case popSeq =>
    refine hquiet ?_ ?_ <;> unfold popSeq popNext <;> dsimp only <;> (repeat' split) <;>
      first | exact .inl rfl | nofun

/-- The steps that matter to the contents are the successful compare-and-swaps. -/
theorem step_effect (hst : step q s act = some s') :
    s'.pushed = s.pushed ∧ s'.dequeuePos = s.dequeuePos ∨
      (∃ t items pos, s.enqueuePos = pos ∧ s' = s.claim t items pos) ∨
      ∃ t pos count, s.dequeuePos = pos ∧ s' = s.take t pos count := by
  have hcall {t : Nat} {pc : QueuePc α} (hst : s.call t pc = some s') :
      s'.pushed = s.pushed ∧ s'.dequeuePos = s.dequeuePos := by
    unfold call at hst
    split at hst <;> cases hst
    exact ⟨rfl, rfl⟩
  cases act with
  | push t x => exact .inl (hcall hst)
  | pushBatch t items => exact .inl (hcall (ite_none_right_eq_some.mp hst).2)
  | pop t => exact .inl (hcall hst)
  | popBatch t maxCount => exact .inl (hcall (ite_none_right_eq_some.mp hst).2)
  | go t spurious =>
    cases go_effect hst with
    | quiet pc _ hpushed hdequeue => exact .inl ⟨hpushed, hdequeue⟩
    | claim batch items pos _ hpos => exact .inr (.inl ⟨t, items, pos, hpos, rfl⟩)
    | take maxCount pos count _ hpos => exact .inr (.inr ⟨t, pos, count, hpos, rfl⟩)

theorem pushed_length_le (hst : step q s act = some s') :
    s.pushed.length ≤ s'.pushed.length := by
  rcases step_effect hst with ⟨hp, -⟩ | ⟨t, items, pos, -, rfl⟩ | ⟨t, pos, count, -, rfl⟩
  · exact (congrArg length hp).ge
  · exact (prefix_append s.pushed items).length_le
  · exact le_rfl

/-- The invariant holds below 2⁶² pushes. -/
theorem inv_reach (hcap : 2 ≤ q.capacity) (h : Reach (step q) free (init : ReadyQueue α) s)
    (hops : s.pushed.length < 2 ^ 62) : Inv q s := by
  induction h with
  | init => exact inv_init
  | step _ _ hst ih => exact (ih ((pushed_length_le hst).trans_lt hops)).step hcap hst hops

/-- A queue that is not full refuses a push only while a pop is slow. -/
theorem lagging_of_refuses (h : Inv q s) (hops : s.pushed.length < 2 ^ 62)
    (hone : ∀ items, (s.thread t).pending = some (false, items) → items.length = 1)
    (hroom : s.contents.length < q.capacity) (hr : s.refuses q t = true) :
    s.lagging q t = true := by
  have hok := h.threads t
  unfold refuses at hr
  split at hr
  · rename_i items pos i hpc
    rw [hpc] at hok
    obtain ⟨hi, -, hpos, -⟩ := hok
    have hlen := hone items (by rw [hpc]; rfl)
    have hi : i = 0 := by omega
    subst hi
    rw [add_zero] at hr
    have hle := h.sequence_le pos
    have hcap := q.capacity_le
    have hlt := Inv.lt_of_diff_neg (by omega) (by omega) (of_decide_eq_true hr)
    -- the push is up to date, or the cell would have been published
    have hend : pos = s.pushed.length := by
      by_contra hne
      have := h.turn pos (by omega)
      omega
    rw [contents, length_drop] at hroom
    rw [lagging, hpc]
    refine decide_eq_true ⟨?_, ?_, ?_⟩ <;> rw [add_zero]
    · by_contra hsmall
      have := h.index_le pos
      rw [Nat.mod_eq_of_lt (by omega)] at this
      omega
    · omega
    · exact hlt
  · cases hr

/-- A claim appends its items. -/
theorem contents_claim (h : Inv q s) (t : Nat) (items : List α) (pos : Nat) :
    (s.claim t items pos).contents = s.contents ++ items :=
  drop_append_of_le_length h.dequeuePos_le

/-- The positions from the old `dequeue_pos` to the new one leave. -/
theorem contents_take (h : Inv q s) (h' : Inv q (s.take t pos count)) :
    (s.take t pos count).contents = s.contents.drop count := by
  have hold := congrArg length h.left
  have hnew := congrArg length h'.left
  rw [length_range] at hold hnew
  have hdeq : (s.take t pos count).dequeuePos = s.dequeuePos + count := by
    rw [← hold, ← hnew]
    show (s.left ++ range' pos count).length = _
    rw [length_append, length_range']
  rw [contents, contents, drop_drop, hdeq]
  rfl

/-- **Each step is one of the bounded queue.** -/
theorem fifo_of_step (h : Inv q s) (h' : Inv q s') (hst : step q s act = some s') :
    FifoStep q.capacity s.contents s'.contents := by
  have hle := h'.pushed_le
  have hpopped := h'.popped_le
  have hdeq := h'.dequeuePos_le
  rcases step_effect hst with ⟨hp, hd⟩ | ⟨t, items, pos, hpos, rfl⟩ | ⟨t, pos, count, hpos, rfl⟩
  · rw [contents, contents, hp, hd]
    exact .stutter _
  · have hcontents := contents_claim h t items pos
    have hlen : (s.claim t items pos).contents.length ≤ q.capacity := by
      rw [contents, length_drop]
      omega
    rw [hcontents] at hlen ⊢
    exact .enqueue _ _ hlen
  · rw [contents_take h h']
    have hstep : FifoStep q.capacity (s.contents.take count ++ s.contents.drop count)
        (s.contents.drop count) := .dequeue _ _
    rwa [take_append_drop] at hstep

/-- **The ready queue is a bounded queue.** For a capacity of at least two and fewer than `2 ^ 62`
items, in every state reached: what a pop has read at a position is the item pushed there; no
position is read twice; pops claim the positions in order, each before it is read; a push that
is about to write to a cell finds every earlier position of the cell read; and at most
`capacity` of the items pushed have not been read. The step to the state is one of the bounded
queue with these contents. -/
theorem ready_queue_fifo (hcap : 2 ≤ q.capacity)
    (h : Reach (step q) free (init : ReadyQueue α) s) (hops : s.pushed.length < 2 ^ 62) :
    (∀ p x, (p, x) ∈ s.popped → p < s.pushed.length ∧ x = s.pushed[p]?) ∧
      (s.popped.map Prod.fst).Nodup ∧
      s.left = List.range s.left.length ∧ (∀ p x, (p, x) ∈ s.popped → p ∈ s.left) ∧
      (∀ t items pos i, s.thread t = .pushWrite items pos i →
        ∀ p < pos + i, q.cell p = q.cell (pos + i) → p ∈ s.popped.map Prod.fst) ∧
      s.pushed.length ≤ s.popped.length + q.capacity ∧
      ∀ s₀ act, Reach (step q) free (init : ReadyQueue α) s₀ → step q s₀ act = some s →
        FifoStep q.capacity s₀.contents s.contents := by
  have hinv := inv_reach hcap h hops
  have hread {p : Nat} {x : Option α} (hx : (p, x) ∈ s.popped) : s.Read p :=
    mem_map_of_mem hx
  refine ⟨fun p x hx => ⟨hinv.read_lt_pushed (hread hx), hinv.popped p x hx⟩, hinv.nodup, ?_,
    fun p x hx => ?_, fun t items pos i hpc p hlt hcell => ?_, hinv.pushed_le,
    fun s₀ act hs₀ hst => ?_⟩
  · rw [hinv.left, length_range]
  · rw [hinv.left]
    exact mem_range.mpr (hinv.read_lt p (hread hx))
  · -- the cell's turn is the position being pushed, a capacity or more ahead
    have hown : (s.thread t).Pushes (pos + i) := by
      have hok := hinv.threads t
      rw [hpc] at hok ⊢
      exact ⟨le_rfl, by have := hok.1; omega⟩
    refine hinv.released p (show _ ≤ _ from ?_)
    rw [sequence_congr hcell, (hinv.pushes_spec hown).2]
    by_contra hno
    have := eq_of_cell_eq hcell (by omega) (by omega)
    omega
  · have hinv₀ := inv_reach hcap hs₀ ((pushed_length_le hst).trans_lt hops)
    exact fifo_of_step hinv₀ hinv hst

/-- A queue of two cells. -/
def twoCells : QueueConfig := ⟨1, by decide⟩

/-- A queue of one cell. -/
def oneCell : QueueConfig := ⟨0, by decide⟩

/-- A push of `x` by thread `t` that is not disturbed. -/
def pushAll (t : Nat) (x : Bool) : List (Act Bool) := .push t x :: replicate 5 (.go t false)

/-- A pop by thread `t` that is not disturbed. -/
def popAll (t : Nat) : List (Act Bool) := .pop t :: replicate 7 (.go t false)

/-- Two items through two cells. -/
theorem ready_queue_fifo_popAll :
    ∃ s : ReadyQueue Bool, Reach (step twoCells) free init s ∧
      s.popped = [(0, some true)] ∧ s.pushed.length = 2 ∧
      (∀ p x, (p, x) ∈ s.popped → p < s.pushed.length ∧ x = s.pushed[p]?) := by
  refine Reach.exists_of_run_imp (P := fun s => s.popped = [(0, some true)] ∧ s.pushed.length = 2)
    (pushAll 0 true ++ pushAll 1 false ++ popAll 2) (by decide +kernel)
    fun s hs ⟨hpopped, hlen⟩ => ?_
  exact ⟨hpopped, hlen, (ready_queue_fifo (by decide) hs (by omega)).1⟩

/-- With one cell, the sequence number after a push is the one that the next push waits for: the
second item is written over the first. With two, thread 0 claims position 0 and stops; thread 1
pushes and returns; the pop of thread 2 then finds nothing at position 0 and comes back empty. -/
theorem ready_queue_unordered :
    (∃ s : ReadyQueue Bool, Reach (step oneCell) free init s ∧ s.pushed = [true, false] ∧
      s.popped = [] ∧ (s.cells 0).slotState = some false) ∧
    ∃ s : ReadyQueue Bool, Reach (step twoCells) free init s ∧ s.pushed = [true, false] ∧
      s.left = [] ∧ s.thread 1 = .idle (.pushed true) ∧ s.thread 2 = .idle (.popped []) :=
  ⟨Reach.exists_of_run (pushAll 0 true ++ pushAll 1 false) (by decide +kernel),
    Reach.exists_of_run
      ([.push 0 true, .go 0 false, .go 0 false, .go 0 false] ++ pushAll 1 false ++
        [.pop 2, .go 2 false, .go 2 false, .go 2 false, .go 2 false]) (by decide +kernel)⟩

end ReadyQueue

end PtoRuntime.Tmrb
