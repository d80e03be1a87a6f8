import PtoRuntime.Lib.Reach
import PtoRuntime.Lib.Window

/-!
# The wiring queue

`PTO2SpscQueue` hands the submitted tasks from the orchestrator to scheduler thread 0. The indices
run on modulo 2⁶⁴ and are masked for the buffer. Each side keeps a private copy of the other's index
and loads the index itself only when the copy says that the queue is full, or empty; a copy may be
arbitrarily old, but it errs on the safe side.

Each load, store and access to a buffer cell is one step. The loads of the own index and of the
private copy come first in a call and are one step with it. A batch counts as popped when the
consumer stores its index.

Main results: `SpscQueue.Ok.step`, `spsc_fifo`.
-/

namespace PtoRuntime.Tmrb

open Lib Function List

/-- `a - b` for two `uint64_t` -/
def wordSub (a b : Nat) : Nat := (a + 2 ^ 64 - b) % 2 ^ 64

theorem wordSub_mod {a b : Nat} (hle : b ≤ a) (hlt : a < b + 2 ^ 64) :
    wordSub (a % 2 ^ 64) (b % 2 ^ 64) = a - b := by
  unfold wordSub
  omega

theorem prefix_concat {α : Type} {l m : List α} {x : α} (h : l <+: m)
    (hx : m[l.length]? = some x) : l ++ [x] <+: m := by
  obtain ⟨rest, rfl⟩ := h
  cases rest with
  | nil => simp at hx
  | cons y rest =>
    rw [getElem?_append_right (le_refl _), Nat.sub_self, getElem?_cons_zero] at hx
    cases hx
    exact ⟨rest, by simp⟩

/-- A capacity that `init` accepts. -/
structure SpscConfig where
  capacityBits : Nat
  fits : capacityBits < 64

namespace SpscConfig

def capacity (q : SpscConfig) : Nat := 2 ^ q.capacityBits

def mask (q : SpscConfig) : Nat := q.capacity - 1

theorem capacity_pos (q : SpscConfig) : 0 < q.capacity := Nat.two_pow_pos _

theorem capacity_lt (q : SpscConfig) : q.capacity < 2 ^ 64 :=
  Nat.pow_lt_pow_right (by decide) q.fits

/-- The masked index of a position. -/
theorem and_mask (q : SpscConfig) (p : Nat) : p % 2 ^ 64 &&& q.mask = p % q.capacity := by
  rw [mask, capacity, Nat.and_two_pow_sub_one_eq_mod]
  exact Nat.mod_mod_of_dvd p (Nat.pow_dvd_pow 2 q.fits.le)

end SpscConfig

inductive PushPc (α : Type)
  /-- what the last push has returned -/
  | idle (result : Option Bool)
  /-- the copy of the other index says full -/
  | loadTail (item : α) (h : Nat)
  | write (item : α) (h : Nat)
  | publish (item : α) (h : Nat)
  deriving DecidableEq

inductive PopPc (α : Type)
  /-- the items that the last `pop_batch` has returned -/
  | idle (out : List (Option α))
  /-- the copy of the other index says empty -/
  | loadHead (t maxCount : Nat)
  | read (t count : Nat) (out : List (Option α))
  deriving DecidableEq

structure SpscQueue (α : Type) where
  buffer : Nat → Option α
  head : Nat
  tailCached : Nat
  tail : Nat
  headCached : Nat
  producer : PushPc α
  consumer : PopPc α
  -- history
  accepted : List α           -- the items of the pushes that returned true
  popped : List (Option α)    -- the batches whose index has been stored
  tailSeen : Nat              -- the number of items popped when `tail_cached_` was loaded
  headSeen : Nat              -- the number of items accepted when `head_cached_` was loaded

inductive SpscAct (α : Type)
  | push (item : α)
  | producer
  | popBatch (maxCount : Nat)
  | consumer

namespace SpscQueue

variable {α : Type}

def init : SpscQueue α where
  buffer _ := none
  head := 0
  tailCached := 0
  tail := 0
  headCached := 0
  producer := .idle none
  consumer := .idle []
  accepted := []
  popped := []
  tailSeen := 0
  headSeen := 0

variable (q : SpscConfig)

/-- The full test of `push`. -/
def full (h tail : Nat) : Bool := q.mask < wordSub ((h + 1) % 2 ^ 64) tail

def producerStep (s : SpscQueue α) : Option (SpscQueue α) :=
  match s.producer with
  | .idle _ => none
  | .loadTail item h => some { s with
      tailCached := s.tail
      tailSeen := s.popped.length
      producer := if full q h s.tail then .idle (some false) else .write item h }
  | .write item h => some { s with
      buffer := update s.buffer (h &&& q.mask) (some item)
      producer := .publish item h }
  | .publish item h => some { s with
      head := (h + 1) % 2 ^ 64
      accepted := s.accepted ++ [item]
      producer := .idle (some true) }

/-- `count` of `pop_batch`, for an `avail` that is not zero. -/
def batch (avail maxCount : Nat) : Nat := if avail < maxCount then avail else maxCount

def consumerStep (s : SpscQueue α) : Option (SpscQueue α) :=
  match s.consumer with
  | .idle _ => none
  | .loadHead t maxCount =>
    let avail := wordSub s.head t
    some { s with
      headCached := s.head
      headSeen := s.accepted.length
      consumer := if avail = 0 then .idle [] else .read t (batch avail maxCount) [] }
  | .read t count out =>
    if out.length < count then
      some { s with
        consumer := .read t count (out ++ [s.buffer ((t + out.length) % 2 ^ 64 &&& q.mask)]) }
    else some { s with
      tail := (t + count) % 2 ^ 64
      popped := s.popped ++ out
      consumer := .idle out }

def step (s : SpscQueue α) : SpscAct α → Option (SpscQueue α)
  | .push item =>
    match s.producer with
    | .idle _ => some { s with
        producer := if full q s.head s.tailCached then .loadTail item s.head
          else .write item s.head }
    | _ => none
  | .producer => s.producerStep q
  | .popBatch maxCount =>
    match s.consumer with
    | .idle _ =>
      let avail := wordSub s.headCached s.tail
      some { s with
        consumer := if avail = 0 then .loadHead s.tail maxCount
          else .read s.tail (batch avail maxCount) [] }
    | _ => none
  | .consumer => s.consumerStep q

/-! ## The invariant -/

variable {q} {s s' : SpscQueue α} {item : α} {w t count : Nat} {out : List (Option α)}

/-- What the producer relies on: room for one more item. -/
def PushOk (q : SpscConfig) (s : SpscQueue α) : PushPc α → Prop
  | .idle _ => True
  | .loadTail _ h => h = s.accepted.length % 2 ^ 64
  | .write _ h => h = s.accepted.length % 2 ^ 64 ∧ s.accepted.length + 1 < s.tailSeen + q.capacity
  | .publish item h => h = s.accepted.length % 2 ^ 64 ∧
      s.accepted.length + 1 < s.tailSeen + q.capacity ∧
      s.buffer (s.accepted.length % q.capacity) = some item

/-- What the consumer relies on: the items of its batch are there, and it has read some of them. -/
def PopOk (s : SpscQueue α) : PopPc α → Prop
  | .idle _ => True
  | .loadHead t _ => t = s.popped.length % 2 ^ 64
  | .read t count out => t = s.popped.length % 2 ^ 64 ∧ s.popped.length + count ≤ s.headSeen ∧
      out.length ≤ count ∧ s.popped ++ out <+: s.accepted.map some

structure Ok (q : SpscConfig) (s : SpscQueue α) : Prop where
  head : s.head = s.accepted.length % 2 ^ 64
  tail : s.tail = s.popped.length % 2 ^ 64
  tailCached : s.tailCached = s.tailSeen % 2 ^ 64
  headCached : s.headCached = s.headSeen % 2 ^ 64
  tailSeen_le : s.tailSeen ≤ s.popped.length
  headSeen_le : s.headSeen ≤ s.accepted.length
  popped_le : s.popped.length ≤ s.headSeen
  held : s.accepted.length < s.tailSeen + q.capacity
  /-- the cells of the items that have not been popped -/
  cells : ∀ p, s.popped.length ≤ p → p < s.accepted.length →
    s.buffer (p % q.capacity) = s.accepted[p]?
  pops : s.popped <+: s.accepted.map some
  producer : PushOk q s s.producer
  consumer : PopOk s s.consumer

theorem ok_init : Ok q (init : SpscQueue α) where
  head := rfl
  tail := rfl
  tailCached := rfl
  headCached := rfl
  tailSeen_le := le_rfl
  headSeen_le := le_rfl
  popped_le := le_rfl
  held := by simpa [init] using q.capacity_pos
  cells := nofun
  pops := prefix_rfl
  producer := trivial
  consumer := trivial

/-- The full test, for indices whose distance is at most the capacity. -/
theorem full_iff {h n tail seen : Nat} (hn : h = n % 2 ^ 64) (htail : tail = seen % 2 ^ 64)
    (hle : seen ≤ n) (hlt : n < seen + q.capacity) :
    full q h tail = true ↔ n + 1 = seen + q.capacity := by
  have hcap := q.capacity_lt
  have hword : (h + 1) % 2 ^ 64 = (n + 1) % 2 ^ 64 := by omega
  rw [full, hword, htail, wordSub_mod (by omega) (by omega), SpscConfig.mask, decide_eq_true_eq]
  omega

namespace Ok

theorem tailSeen_le_accepted (h : Ok q s) : s.tailSeen ≤ s.accepted.length :=
  h.tailSeen_le.trans (h.popped_le.trans h.headSeen_le)

theorem setProducer (h : Ok q s) {p : PushPc α} (hp : PushOk q s p) :
    Ok q { s with producer := p } := { h with producer := hp }

theorem push (h : Ok q s) (item : α) :
    Ok q { s with
      producer := if full q s.head s.tailCached then .loadTail item s.head
        else .write item s.head } := by
  have hheld := h.held
  apply h.setProducer
  split_ifs with hroom
  · exact h.head
  · rw [full_iff h.head h.tailCached h.tailSeen_le_accepted hheld] at hroom
    exact ⟨h.head, Nat.lt_of_le_of_ne hheld hroom⟩

theorem loadTail (h : Ok q s) (hpc : s.producer = .loadTail item w) :
    Ok q { s with
      tailCached := s.tail
      tailSeen := s.popped.length
      producer := if full q w s.tail then .idle (some false) else .write item w } := by
  have hw : w = s.accepted.length % 2 ^ 64 := by
    have hok := h.producer
    rwa [hpc] at hok
  have hheld : s.accepted.length < s.popped.length + q.capacity :=
    Nat.lt_of_lt_of_le h.held (Nat.add_le_add_right h.tailSeen_le _)
  refine { h with
    tailCached := h.tail
    tailSeen_le := le_rfl
    held := hheld
    producer := ?_ }
  split_ifs with hroom
  · trivial
  · rw [full_iff hw h.tail (h.popped_le.trans h.headSeen_le) hheld] at hroom
    exact ⟨hw, Nat.lt_of_le_of_ne hheld hroom⟩

theorem write (h : Ok q s) (hpc : s.producer = .write item w) :
    Ok q { s with
      buffer := update s.buffer (w &&& q.mask) (some item)
      producer := .publish item w } := by
  have hok := h.producer
  rw [hpc] at hok
  obtain ⟨hw, hroom⟩ := hok
  have hindex : w &&& q.mask = s.accepted.length % q.capacity := by rw [hw, q.and_mask]
  have hseen := h.tailSeen_le
  refine { h with
    cells := ?_
    producer := ⟨hw, hroom, by simp only [hindex, update_self]⟩ }
  intro p hlo hhi
  dsimp only at hlo hhi
  -- an item that has not been popped lies less than a capacity back
  have hne : p % q.capacity ≠ w &&& q.mask := by
    rw [hindex]
    intro heq
    have := eq_of_mod_eq heq (by omega) (by omega)
    omega
  simp only [update_of_ne hne]
  exact h.cells p hlo hhi

theorem publish (h : Ok q s) (hpc : s.producer = .publish item w) :
    Ok q { s with
      head := (w + 1) % 2 ^ 64
      accepted := s.accepted ++ [item]
      producer := .idle (some true) } := by
  have hok := h.producer
  rw [hpc] at hok
  obtain ⟨hw, hroom, hcell⟩ := hok
  have hmap : s.accepted.map some <+: (s.accepted ++ [item]).map some := by
    rw [map_append]
    exact prefix_append _ _
  refine { h with
    head := by simp only [hw, length_append, length_singleton]; omega
    headSeen_le := by
      have := h.headSeen_le
      simp only [length_append, length_singleton]
      omega
    held := by simpa using hroom
    cells := ?_
    pops := h.pops.trans hmap
    producer := trivial
    consumer := ?_ }
  · intro p hlo hhi
    simp only [length_append, length_singleton] at hhi
    rcases Nat.lt_succ_iff_lt_or_eq.mp hhi with hold | rfl
    · rw [getElem?_append_left hold]
      exact h.cells p hlo hold
    · rw [getElem?_concat_length]
      exact hcell
  · have hold := h.consumer
    cases hc : s.consumer with
    | idle => trivial
    | loadHead => rwa [hc] at hold
    | read t count out =>
      rw [hc] at hold
      obtain ⟨ht, hcount, hlen, hout⟩ := hold
      exact ⟨ht, hcount, hlen, hout.trans hmap⟩

/-- What `pop_batch` computes from the index it knows, which stands for `seen` items. -/
theorem avail_eq (h : Ok q s) {cached t seen : Nat} (hcached : cached = seen % 2 ^ 64)
    (ht : t = s.popped.length % 2 ^ 64) (hseen : seen ≤ s.accepted.length)
    (hpopped : s.popped.length ≤ seen) : wordSub cached t = seen - s.popped.length := by
  have hheld := h.held
  have htail := h.tailSeen_le
  have hcap := q.capacity_lt
  rw [hcached, ht]
  exact wordSub_mod hpopped (by omega)

/-- A batch out of the items that the consumer has seen. -/
theorem startRead (h : Ok q s) {cached t seen : Nat} (maxCount : Nat)
    (hcached : cached = seen % 2 ^ 64) (ht : t = s.popped.length % 2 ^ 64)
    (hseen : seen ≤ s.accepted.length) (hpopped : s.popped.length ≤ seen) :
    Ok q { s with
      headCached := cached
      headSeen := seen
      consumer := .read t (batch (wordSub cached t) maxCount) [] } := by
  have hcount : s.popped.length + batch (wordSub cached t) maxCount ≤ seen := by
    rw [h.avail_eq hcached ht hseen hpopped, batch]
    split <;> omega
  exact { h with
    headCached := hcached
    headSeen_le := hseen
    popped_le := hpopped
    consumer := ⟨ht, hcount, Nat.zero_le _, by rw [append_nil]; exact h.pops⟩ }

theorem read (h : Ok q s) (hpc : s.consumer = .read t count out) (hlt : out.length < count) :
    Ok q { s with
      consumer := .read t count
        (out ++ [s.buffer ((t + out.length) % 2 ^ 64 &&& q.mask)]) } := by
  have hok := h.consumer
  rw [hpc] at hok
  obtain ⟨ht, hcount, -, hout⟩ := hok
  have hseen := h.headSeen_le
  have hword : (t + out.length) % 2 ^ 64 = (s.popped.length + out.length) % 2 ^ 64 := by omega
  have hnext : s.popped.length + out.length < s.accepted.length := by omega
  have hitem := h.cells (s.popped.length + out.length) (by omega) hnext
  have hlen (x : Option α) : (out ++ [x]).length ≤ count := by
    rw [length_append, length_singleton]
    omega
  refine { h with consumer := ⟨ht, hcount, hlen _, ?_⟩ }
  rw [hword, q.and_mask, hitem, ← append_assoc]
  refine prefix_concat hout ?_
  rw [length_append, getElem?_map, getElem?_eq_getElem hnext]
  rfl

theorem storeTail (h : Ok q s) (hpc : s.consumer = .read t count out) (hge : ¬ out.length < count) :
    Ok q { s with
      tail := (t + count) % 2 ^ 64
      popped := s.popped ++ out
      consumer := .idle out } := by
  have hok := h.consumer
  rw [hpc] at hok
  obtain ⟨ht, hcount, hlen, hout⟩ := hok
  have hsize : (s.popped ++ out).length = s.popped.length + count := by
    rw [length_append]
    omega
  have hseen := h.tailSeen_le
  exact { h with
    tail := by simp only [hsize, ht]; omega
    tailSeen_le := by simp only [hsize]; omega
    popped_le := by simpa only [hsize] using hcount
    cells := fun p hlo hhi => h.cells p (by rw [hsize] at hlo; omega) hhi
    pops := hout
    producer := by
      -- the producer does not look at what is popped
      have hold := h.producer
      cases hp : s.producer <;> rw [hp] at hold <;> exact hold
    consumer := trivial }

/-- One step of either side. -/
theorem step (h : Ok q s) {a : SpscAct α} (hs : s.step q a = some s') : Ok q s' := by
  cases a with
  | push item =>
    simp only [SpscQueue.step] at hs
    split at hs <;> cases hs
    exact h.push item
  | producer =>
    simp only [SpscQueue.step, producerStep] at hs
    split at hs <;> cases hs
    · exact h.loadTail ‹_›
    · exact h.write ‹_›
    · exact h.publish ‹_›
  | popBatch maxCount =>
    simp only [SpscQueue.step] at hs
    split at hs <;> cases hs
    split
    · exact { h with consumer := h.tail }
    · exact h.startRead maxCount h.headCached h.tail h.headSeen_le h.popped_le
  | consumer =>
    simp only [SpscQueue.step, consumerStep] at hs
    split at hs
    · cases hs
    · rename_i t maxCount hpc
      cases hs
      have ht : t = s.popped.length % 2 ^ 64 := by
        have hok := h.consumer
        rwa [hpc] at hok
      have hle := h.popped_le.trans h.headSeen_le
      split
      · exact { h with
          headCached := h.head
          headSeen_le := le_rfl
          popped_le := hle
          consumer := trivial }
      · exact h.startRead maxCount h.head ht le_rfl hle
    · rename_i t count out hpc
      split at hs <;> cases hs
      · exact h.read hpc ‹_›
      · exact h.storeTail hpc ‹_›

theorem reach (h : Reach (SpscQueue.step q) free (SpscQueue.init : SpscQueue α) s) : Ok q s :=
  h.invariant ok_init fun _ _ _ _ hi _ hs => hi.step hs

end Ok

end SpscQueue

/-- In every state of every interleaving: the items popped are the first ones accepted; when the
producer is about to write to a cell, every item that was in it before has been popped; at most
`capacity - 1` items are held; and if the push returns false at its load of the consumer's index,
that many are held then. -/
theorem spsc_fifo {α : Type} (q : SpscConfig) (s : SpscQueue α)
    (h : Reach (SpscQueue.step q) free SpscQueue.init s) :
    s.popped <+: s.accepted.map some ∧
      (∀ item w, s.producer = .write item w → w &&& q.mask = s.accepted.length % q.capacity ∧
        ∀ p < s.accepted.length, p % q.capacity = w &&& q.mask → p < s.popped.length) ∧
      s.accepted.length ≤ s.popped.length + (q.capacity - 1) ∧
      ∀ item w s', s.producer = .loadTail item w → s.step q .producer = some s' →
        s'.producer = .idle (some false) →
          s.accepted.length = s.popped.length + (q.capacity - 1) := by
  have hok := SpscQueue.Ok.reach h
  have hpos := q.capacity_pos
  have hheld : s.accepted.length < s.popped.length + q.capacity :=
    Nat.lt_of_lt_of_le hok.held (Nat.add_le_add_right hok.tailSeen_le _)
  refine ⟨hok.pops, ?_, by omega, ?_⟩
  · intro item w hpc
    have hw := hok.producer
    rw [hpc] at hw
    have hindex : w &&& q.mask = s.accepted.length % q.capacity := by rw [hw.1, q.and_mask]
    refine ⟨hindex, ?_⟩
    intro p hp heq
    rw [hindex] at heq
    by_contra hge
    have := eq_of_mod_eq heq (by omega) (by omega)
    omega
  · intro item w s' hpc hs hfalse
    have hw := hok.producer
    rw [hpc] at hw
    simp only [SpscQueue.PushOk] at hw
    simp only [SpscQueue.step, SpscQueue.producerStep, hpc, Option.some.injEq] at hs
    subst hs
    dsimp only at hfalse
    split_ifs at hfalse with hfull
    rw [SpscQueue.full_iff hw hok.tail (hok.popped_le.trans hok.headSeen_le) hheld] at hfull
    omega

/-- Two cells: the second push loads the consumer's index and fails. -/
theorem spsc_fifo_full :
    ∃ s : SpscQueue Nat, Reach (SpscQueue.step ⟨1, by decide⟩) free SpscQueue.init s ∧
      s.producer = .loadTail 8 1 ∧ s.accepted = [7] ∧ s.popped <+: s.accepted.map some := by
  have hrun : ∃ s : SpscQueue Nat, Reach (SpscQueue.step ⟨1, by decide⟩) free SpscQueue.init s ∧
      s.producer = .loadTail 8 1 ∧ s.accepted = [7] :=
    Reach.exists_of_run [SpscAct.push 7, .producer, .producer, .push 8] (by decide +kernel)
  obtain ⟨s, hs, hpc, hacc⟩ := hrun
  exact ⟨s, hs, hpc, hacc, (spsc_fifo ⟨1, by decide⟩ s hs).1⟩

end PtoRuntime.Tmrb
