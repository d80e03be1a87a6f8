import PtoRuntime.Lib.Reach
import PtoRuntime.Lib.RingLog

/-!
# The fanin spill pool of a ring

A task's fanin list is collected by `PTO2FaninBuilder` while the task is submitted: the
first `PTO2_FANIN_INLINE_CAP` producers go to an inline array, the others to consecutive
entries of the ring's `PTO2FaninPool`. The payload then keeps the count, the first spill
entry and the inline array, and `for_each_fanin_storage` reads the list back from there.

The pool is a ring of entries with two linear counters. Entries are given back by
`reclaim`, which is called only when an append finds no space. It walks over the tasks
between its cursor and the watermark `last_task_alive`, and moves the tail behind the
spilled entries of the payload it finds in each one's slot.

All of this is done by the orchestrator thread. The watermark is advanced by the
schedulers at any time, so `ensure_space` is a loop that works with the watermark loaded
last; a task is submitted in steps between which the watermark may move. The counters are
`int32_t`: a run has fewer than 2³¹ tasks and spilled entries.

Main results: `fanin_lists_survive`, `fanin_list_overwritten`.
-/

namespace PtoRuntime.Tmrb

open Lib Lib.RingLog Function List Option

/-- `PTO2_FANIN_INLINE_CAP`. -/
def faninInlineCap : Nat := 64

/-- `PTO2_DEP_POOL_SPIN_LIMIT`. -/
def depPoolSpinLimit : Nat := 100000

/-- One ring: its task window, and the capacity of its spill pool (`PTO2_RING_DEP_POOL`). -/
structure FaninConfig where
  windowBits : Nat
  capacity : Nat
  four_le : 4 ≤ capacity

namespace FaninConfig

def windowSize (c : FaninConfig) : Nat := 2 ^ c.windowBits

/-- `get_payload_by_task_id` masks the task id. -/
def slotOf (c : FaninConfig) (taskId : Nat) : Nat := taskId &&& (c.windowSize - 1)

theorem slotOf_eq (c : FaninConfig) (t : Nat) : c.slotOf t = t % c.windowSize :=
  Nat.and_two_pow_sub_one_eq_mod t c.windowBits

theorem capacity_pos (c : FaninConfig) : 0 < c.capacity :=
  lt_of_lt_of_le (by decide) c.four_le

end FaninConfig

variable {α : Type}

/-- What the builder collects, and what the payload keeps of it. -/
structure FaninStorage (α : Type) where
  count : Nat
  spillStart : Nat
  inlineSlots : List α
  deriving DecidableEq, Repr

namespace FaninStorage

/-- A fresh `PTO2FaninBuilder`. -/
def empty : FaninStorage α := ⟨0, 0, []⟩

def inlineCount (f : FaninStorage α) : Nat := min f.count faninInlineCap

def spillCount (f : FaninStorage α) : Nat := f.count - f.inlineCount

theorem spillCount_eq (f : FaninStorage α) : f.spillCount = f.count - faninInlineCap := by
  unfold spillCount inlineCount
  omega

end FaninStorage

/-- `PTO2FaninPool`; the entries are producers, null at first. -/
structure FaninPool (α : Type) where
  base : Nat → Option α
  top : Nat
  tail : Nat
  reclaimTaskCursor : Nat

namespace FaninPool

def init : FaninPool α := ⟨fun _ => none, 1, 1, 0⟩

def used (p : FaninPool α) : Nat := p.top - p.tail

def available (c : FaninConfig) (p : FaninPool α) : Nat := c.capacity - p.used

/-- `alloc`: the entry handed out, if there is one. -/
def alloc (c : FaninConfig) (p : FaninPool α) : Option (Nat × FaninPool α) :=
  if c.capacity ≤ p.used then none
  else some (p.top % c.capacity, { p with top := p.top + 1 })

def advanceTail (p : FaninPool α) (newTail : Nat) : FaninPool α :=
  if p.tail < newTail then { p with tail := newTail } else p

/-- The tail only moves up. -/
theorem advanceTail_eq (p : FaninPool α) (n : Nat) :
    p.advanceTail n = { p with tail := max p.tail n } := by
  unfold advanceTail
  split
  · rw [Nat.max_eq_right (by omega)]
  · rw [Nat.max_eq_left (by omega)]

/-- The body of the loop of `reclaim`. A payload that was never filled has no pool. -/
def reclaimPayload (p : FaninPool α) : Option (FaninStorage α) → FaninPool α
  | none => p
  | some f => if 0 < f.spillCount then p.advanceTail (f.spillStart + f.spillCount) else p

def reclaim (c : FaninConfig) (payloads : Nat → Option (FaninStorage α)) (p : FaninPool α)
    (smLastTaskAlive : Nat) : FaninPool α :=
  if smLastTaskAlive ≤ p.reclaimTaskCursor then p
  else
    let scan := List.range' p.reclaimTaskCursor (smLastTaskAlive - p.reclaimTaskCursor)
    let p' := scan.foldl (fun q taskId => q.reclaimPayload (payloads (c.slotOf taskId))) p
    { p' with reclaimTaskCursor := smLastTaskAlive }

/-- `for_each_fanin_storage`: what the callback is called with, in order. -/
def forEachFaninStorage (c : FaninConfig) (p : FaninPool α) (f : FaninStorage α) :
    List (Option α) :=
  let inlinePart := (f.inlineSlots.take f.inlineCount).map some
  if f.spillCount = 0 then inlinePart
  else
    let startIdx := f.spillStart % c.capacity
    let firstCount := min f.spillCount (c.capacity - startIdx)
    inlinePart ++ ((range firstCount).map (fun i => p.base (startIdx + i)) ++
      (range (f.spillCount - firstCount)).map p.base)

/-- The entries of the pool that belong to a list. -/
def spilledEntries (c : FaninConfig) (f : FaninStorage α) : List Nat :=
  (range f.spillCount).map fun i => (f.spillStart + i) % c.capacity

end FaninPool

/-- Where the orchestrator is in the submission of a task. -/
inductive FaninPc (α : Type)
  | idle
  | building (taskId : Nat) (builder : FaninStorage α)
  -- in the loop of `ensure_space`, for one more producer
  | ensuring (taskId : Nat) (builder : FaninStorage α) (prodState : α)
      (spinCount prevLastAlive : Nat)
  | failed

/-- The builder of the task in submission. -/
def FaninPc.builder : FaninPc α → Option (Nat × FaninStorage α)
  | .building t b => some (t, b)
  | .ensuring t b _ _ _ => some (t, b)
  | _ => none

/-- The watermark up to which the next turn of `ensure_space` reclaims. -/
def FaninPc.scanEnd : FaninPc α → Nat
  | .ensuring _ _ _ _ prevLastAlive => prevLastAlive
  | _ => 0

inductive PoolError
  | depPoolOverflow
  deriving DecidableEq, Repr

structure FaninRing (α : Type) where
  pool : FaninPool α
  -- shared memory of the ring
  lastTaskAlive : Nat
  payloads : Nat → Option (FaninStorage α)
  orchErrorCode : Option PoolError
  -- the orchestrator
  localTaskId : Nat
  pc : FaninPc α
  -- history
  filled : Nat                  -- tasks whose payloads have been written
  owner : Nat → Option Nat      -- the task that wrote the payload of a slot last
  producers : Nat → List α      -- the producers appended for a task
  log : Nat → Option α          -- the producer in an entry, by its linear number
  logTask : Nat → Nat           -- and the task it was appended for

inductive FaninAct (α : Type)
  | prepareTask
  | append (prodState : α)
  | ensureSpace
  | submit
  | advance (lastTaskAlive : Nat)
  deriving DecidableEq, Repr

namespace FaninRing

def init : FaninRing α where
  pool := .init
  lastTaskAlive := 0
  payloads _ := none
  orchErrorCode := none
  localTaskId := 0
  pc := .idle
  filled := 0
  owner _ := none
  producers _ := []
  log _ := none
  logTask _ := 0

/-- `latch_pool_error`, and the orchestrator stops. -/
def fail (s : FaninRing α) : FaninRing α :=
  { s with pc := .failed, orchErrorCode := s.orchErrorCode.or (some .depPoolOverflow) }

section Step

variable [DecidableEq α]

/-- A producer is appended once, however often it is found. -/
def addProducer (l : List α) (x : α) : List α := if x ∈ l then l else l ++ [x]

/-- The history of an append that returns true. -/
def noted (s : FaninRing α) (t : Nat) (x : α) : Nat → List α :=
  update s.producers t (addProducer (s.producers t) x)

/-- The rest of `append_fanin_or_fail` once there is space. -/
def spill (c : FaninConfig) (s : FaninRing α) (t : Nat) (b : FaninStorage α) (x : α) :
    FaninRing α :=
  match s.pool.alloc c with
  | none => s.fail
  | some (idx, pool) =>
    { s with
      pool := { pool with base := update pool.base idx (some x) }
      pc := .building t
        { b with
          count := b.count + 1
          spillStart := if b.count = faninInlineCap then s.pool.top else b.spillStart }
      producers := s.noted t x
      log := update s.log s.pool.top (some x)
      logTask := update s.logTask s.pool.top t }

/-- `append_fanin_or_fail` up to the loop of `ensure_space`. -/
def appendFanin (c : FaninConfig) (s : FaninRing α) (t : Nat) (b : FaninStorage α) (x : α) :
    FaninRing α :=
  if some x ∈ s.pool.forEachFaninStorage c b then { s with producers := s.noted t x }
  else if b.count < faninInlineCap then
    { s with
      pc := .building t { b with count := b.count + 1, inlineSlots := b.inlineSlots ++ [x] }
      producers := s.noted t x }
  else if 1 ≤ s.pool.available c then s.spill c t b x
  else { s with pc := .ensuring t b x 0 s.lastTaskAlive }

/-- One turn of the loop of `ensure_space`, and what follows when it returns. -/
def ensureSpace (c : FaninConfig) (s : FaninRing α) (t : Nat) (b : FaninStorage α) (x : α)
    (spinCount prevLastAlive : Nat) : FaninRing α :=
  let s' := { s with pool := s.pool.reclaim c s.payloads prevLastAlive }
  if 1 ≤ s'.pool.available c then s'.spill c t b x
  else if prevLastAlive < s.lastTaskAlive then
    { s' with pc := .ensuring t b x 0 s.lastTaskAlive }
  else if depPoolSpinLimit ≤ spinCount + 1 then s'.fail
  else { s' with pc := .ensuring t b x (spinCount + 1) prevLastAlive }

/-- STEP 5 of `submit_task_common`: the payload is written from the builder. `alloc_tensors`
writes the one of an empty builder. -/
def submitted (c : FaninConfig) (s : FaninRing α) (t : Nat) (b : FaninStorage α) : FaninRing α :=
  { s with
    payloads := update s.payloads (c.slotOf t) (some b)
    pc := .idle
    filled := t + 1
    owner := update s.owner (c.slotOf t) (some t) }

def step (c : FaninConfig) (s : FaninRing α) : FaninAct α → Option (FaninRing α)
  | .prepareTask =>
    match s.pc with
    | .idle =>
      -- the allocator grants an id only below the window of the watermark
      if s.localTaskId + 1 < s.lastTaskAlive + c.windowSize then
        some { s with localTaskId := s.localTaskId + 1, pc := .building s.localTaskId .empty }
      else none
    | _ => none
  | .append x =>
    match s.pc with
    | .building t b => some (s.appendFanin c t b x)
    | _ => none
  | .ensureSpace =>
    match s.pc with
    | .ensuring t b x spinCount prevLastAlive =>
      some (s.ensureSpace c t b x spinCount prevLastAlive)
    | _ => none
  | .submit =>
    match s.pc with
    | .building t b => some (s.submitted c t b)
    | _ => none
  | .advance n =>
    if s.lastTaskAlive ≤ n ∧ n ≤ s.localTaskId then some { s with lastTaskAlive := n } else none

end Step

/-! ## What is asked, and when it holds -/

/-- The list of a task: in its payload, or still in the builder. -/
def faninOf (c : FaninConfig) (s : FaninRing α) (t : Nat) : Option (FaninStorage α) :=
  if t < s.filled then s.payloads (c.slotOf t)
  else (s.pc.builder.filter fun b => b.1 = t).map Prod.snd

/-- The entry that a step hands out: `top` moves only there. -/
def handedOut (c : FaninConfig) (s s' : FaninRing α) : Option Nat :=
  if s'.pool.top = s.pool.top then none else some (s.pool.top % c.capacity)

/-- The task whose payload is in the slot has retired, or has no spilled entries. -/
def SlotSpent (s : FaninRing α) (slot : Nat) : Prop :=
  ∀ t ∈ s.owner slot, faninInlineCap < (s.producers t).length → t < s.lastTaskAlive

instance (s : FaninRing α) (slot : Nat) : Decidable (s.SlotSpent slot) :=
  inferInstanceAs (Decidable (∀ t ∈ s.owner slot, _))

/-- A reclaim walks over spent slots only. -/
def ReclaimGuard (c : FaninConfig) (s : FaninRing α) : FaninAct α → Prop
  | .ensureSpace => ∀ id < s.pc.scanEnd, s.pool.reclaimTaskCursor ≤ id → s.SlotSpent (c.slotOf id)
  | _ => True

instance (c : FaninConfig) : DecidableRel (ReclaimGuard c : FaninRing α → FaninAct α → Prop) :=
  fun _ a =>
    match a with
    | .ensureSpace => inferInstanceAs (Decidable (∀ id < _, _))
    | .prepareTask | .append _ | .submit | .advance _ => inferInstanceAs (Decidable True)

/-! ## Reclaiming -/

section Reclaim

variable {P : Nat → Prop}

/-- One payload moves the tail and nothing else, to where it was or behind the payload. -/
theorem reclaimPayload_spec (p : FaninPool α) (o : Option (FaninStorage α)) (hP : P p.tail)
    (ho : ∀ f, o = some f → 0 < f.spillCount → P (f.spillStart + f.spillCount)) :
    ∃ tail', p.tail ≤ tail' ∧ P tail' ∧ p.reclaimPayload o = { p with tail := tail' } := by
  cases o with
  | none => exact ⟨p.tail, le_rfl, hP, rfl⟩
  | some f =>
    rw [FaninPool.reclaimPayload]
    split_ifs with hpos
    · refine ⟨_, Nat.le_max_left _ _, ?_, p.advanceTail_eq _⟩
      rcases le_total p.tail (f.spillStart + f.spillCount) with h | h
      · rw [max_eq_right h]
        exact ho f rfl hpos
      · rwa [max_eq_left h]
    · exact ⟨p.tail, le_rfl, hP, rfl⟩

/-- By induction on the scanned ids. -/
theorem foldl_reclaimPayload_spec (found : Nat → Option (FaninStorage α)) (ids : List Nat)
    (p : FaninPool α) (hP : P p.tail)
    (hids : ∀ id ∈ ids, ∀ f, found id = some f → 0 < f.spillCount →
      P (f.spillStart + f.spillCount)) :
    ∃ tail', p.tail ≤ tail' ∧ P tail' ∧
      ids.foldl (fun q id => q.reclaimPayload (found id)) p = { p with tail := tail' } := by
  induction ids generalizing p with
  | nil => exact ⟨p.tail, le_rfl, hP, rfl⟩
  | cons id ids ih =>
    obtain ⟨tail₁, hle₁, hP₁, heq₁⟩ :=
      reclaimPayload_spec p (found id) hP (hids id mem_cons_self)
    obtain ⟨tail₂, hle₂, hP₂, heq₂⟩ := ih { p with tail := tail₁ } hP₁
      fun i hi => hids i (mem_cons_of_mem _ hi)
    refine ⟨tail₂, hle₁.trans hle₂, hP₂, ?_⟩
    rw [foldl_cons, heq₁, heq₂]

/-- `reclaim` moves the tail and the cursor, and the tail only to where it was or behind a
payload it has found. -/
theorem reclaim_spec (c : FaninConfig) (payloads : Nat → Option (FaninStorage α))
    (p : FaninPool α) (n : Nat) (hP : P p.tail)
    (hScan : ∀ id < n, p.reclaimTaskCursor ≤ id → ∀ f, payloads (c.slotOf id) = some f →
      0 < f.spillCount → P (f.spillStart + f.spillCount)) :
    ∃ tail' cursor', p.tail ≤ tail' ∧ P tail' ∧
      p.reclaim c payloads n = { p with tail := tail', reclaimTaskCursor := cursor' } := by
  unfold FaninPool.reclaim
  split
  · exact ⟨p.tail, p.reclaimTaskCursor, le_rfl, hP, rfl⟩
  · obtain ⟨tail', hle, hP', heq⟩ := foldl_reclaimPayload_spec (fun id => payloads (c.slotOf id))
      (range' p.reclaimTaskCursor (n - p.reclaimTaskCursor)) p hP fun id hid => by
        have := mem_range'_1.mp hid
        exact hScan id (by omega) this.1
    refine ⟨tail', n, hle, hP', ?_⟩
    dsimp only
    rw [heq]

end Reclaim

/-! ## The lists and the log -/

/-- What is stored for a task is the list of the producers appended for it, as far as the
log of the pool goes. -/
structure Records (s : FaninRing α) (t : Nat) (f : FaninStorage α) : Prop where
  count : f.count = (s.producers t).length
  inlined : f.inlineSlots = (s.producers t).take faninInlineCap
  spilled : ∀ i, faninInlineCap + i < f.count →
    1 ≤ f.spillStart ∧ f.spillStart + i < s.pool.top ∧
      s.log (f.spillStart + i) = (s.producers t)[faninInlineCap + i]? ∧
      s.logTask (f.spillStart + i) = t

structure Inv (c : FaninConfig) (s : FaninRing α) : Prop where
  stored : Stored c.capacity s.pool.tail s.pool.top s.log s.pool.base
  tail_le : s.pool.tail ≤ s.pool.top
  top_pos : 1 ≤ s.pool.top
  -- the log is in the order of submission, and the tail has passed retired tasks only
  sorted : ∀ l l', 1 ≤ l → l ≤ l' → l' < s.pool.top → s.logTask l ≤ s.logTask l'
  logged : ∀ l, 1 ≤ l → l < s.pool.top → s.logTask l < s.localTaskId
  freed : ∀ l, 1 ≤ l → l < s.pool.tail → s.logTask l < s.lastTaskAlive ∧ s.logTask l < s.filled
  alive_le : s.lastTaskAlive ≤ s.localTaskId
  window : s.localTaskId ≤ s.lastTaskAlive + c.windowSize
  filled_le : s.filled ≤ s.localTaskId
  payload : ∀ k f, s.payloads k = some f → ∃ t, s.owner k = some t ∧ t < s.filled ∧ s.Records t f
  latest : ∀ t, t < s.filled → s.filled ≤ t + c.windowSize →
    s.owner (c.slotOf t) = some t ∧ (s.payloads (c.slotOf t)).isSome
  unborn : ∀ t, s.localTaskId ≤ t → s.producers t = []
  idle : s.pc = .idle → s.filled = s.localTaskId
  -- the task in submission is the youngest one, and its entries end the log
  building : ∀ t b, s.pc.builder = some (t, b) → t = s.filled ∧ s.localTaskId = t + 1 ∧
    s.Records t b ∧
    (faninInlineCap < b.count → b.spillStart + (b.count - faninInlineCap) = s.pool.top)
  ensuring : ∀ t b x n v, s.pc = .ensuring t b x n v →
    x ∉ s.producers t ∧ faninInlineCap ≤ b.count

variable {c : FaninConfig} {s s' : FaninRing α} {t : Nat} {b f : FaninStorage α}

/-- Appending for one task leaves the lists of the others. -/
theorem Records.mono (h : Records s t f) (hprod : s'.producers t = s.producers t)
    (htop : s.pool.top ≤ s'.pool.top)
    (hlog : ∀ l < s.pool.top, s'.log l = s.log l ∧ s'.logTask l = s.logTask l) :
    Records s' t f := by
  refine ⟨hprod ▸ h.count, hprod ▸ h.inlined, fun i hi => ?_⟩
  obtain ⟨hpos, hlt, hl, ht⟩ := h.spilled i hi
  obtain ⟨hlog, htask⟩ := hlog _ hlt
  exact ⟨hpos, hlt.trans_le htop, by rw [hlog, hprod, hl], by rw [htask, ht]⟩

/-- The empty ring. -/
theorem Inv.init : Inv c (FaninRing.init : FaninRing α) where
  stored := ⟨Nat.le_add_right 1 _, fun _ hl hlt => absurd hlt (Nat.not_lt.mpr hl)⟩
  tail_le := le_rfl
  top_pos := le_rfl
  sorted _ _ hl hle hlt := absurd hlt (not_lt.mpr (hl.trans hle))
  logged _ hl hlt := absurd hlt (not_lt.mpr hl)
  freed _ hl hlt := absurd hlt (not_lt.mpr hl)
  alive_le := le_rfl
  window := Nat.zero_le _
  filled_le := le_rfl
  payload := nofun
  latest := nofun
  unborn _ _ := rfl
  idle _ := rfl
  building := nofun
  ensuring := nofun

/-- The spilled entries of a task that has not retired, or is not yet submitted, lie between
the counters of the pool. -/
theorem Inv.between (h : Inv c s) (hf : Records s t f)
    (ht : s.lastTaskAlive ≤ t ∨ s.filled ≤ t) (hpos : 0 < f.spillCount) :
    s.pool.tail ≤ f.spillStart ∧ f.spillStart + f.spillCount ≤ s.pool.top := by
  rw [FaninStorage.spillCount_eq] at hpos ⊢
  constructor
  · -- otherwise the tail has passed an entry of the task
    obtain ⟨hone, -, -, htask⟩ := hf.spilled 0 (by omega)
    rw [add_zero] at htask
    rcases lt_or_ge f.spillStart s.pool.tail with hlt | hle
    · have := h.freed _ hone hlt
      omega
    · exact hle
  · have := (hf.spilled (f.count - faninInlineCap - 1) (by omega)).2.1
    omega

private theorem map_getElem_drop (l : List α) (k : Nat) :
    (range (l.length - k)).map (fun i => l[k + i]?) = (l.drop k).map some := by
  apply ext_getElem
  · simp
  · intro i hi _
    simp only [length_map, length_range] at hi
    simp [getElem?_eq_getElem (show k + i < l.length by omega)]

/-- **Reading back.** -/
theorem Inv.forEach (h : Inv c s) (hf : Records s t f)
    (ht : s.lastTaskAlive ≤ t ∨ s.filled ≤ t) :
    s.pool.forEachFaninStorage c f = (s.producers t).map some := by
  have hinline : f.inlineSlots.take f.inlineCount = (s.producers t).take faninInlineCap := by
    rw [hf.inlined, take_take, FaninStorage.inlineCount, hf.count]
    rw [show min (min (s.producers t).length faninInlineCap) faninInlineCap =
      min faninInlineCap (s.producers t).length by omega, ← take_eq_take_min]
  have hcount := hf.count
  have hspill := f.spillCount_eq
  unfold FaninPool.forEachFaninStorage
  split
  · rw [hinline, take_of_length_le (by omega)]
  · obtain ⟨hlo, hhi⟩ := h.between hf ht (by omega)
    dsimp only
    rw [hinline, h.stored.segment c.capacity_pos hlo hhi]
    have hrest : (range f.spillCount).map (fun i => s.log (f.spillStart + i)) =
        ((s.producers t).drop faninInlineCap).map some := by
      rw [← map_getElem_drop, hspill, hcount]
      refine map_congr_left fun i hi => ?_
      have := mem_range.mp hi
      exact (hf.spilled i (by omega)).2.2.1
    rw [hrest, ← map_append, take_append_drop]

/-! ## Steps -/

/-- A reclaim that walks over spent slots passes entries of retired tasks only. -/
theorem Inv.reclaim (h : Inv c s) (n : Nat)
    (hguard : ∀ id < n, s.pool.reclaimTaskCursor ≤ id → s.SlotSpent (c.slotOf id)) :
    Inv c { s with pool := s.pool.reclaim c s.payloads n } := by
  obtain ⟨tail', cursor', hle, ⟨htop, hfreed⟩, heq⟩ := reclaim_spec
    (P := fun tail => tail ≤ s.pool.top ∧ ∀ l, 1 ≤ l → l < tail →
      s.logTask l < s.lastTaskAlive ∧ s.logTask l < s.filled)
    c s.payloads s.pool n ⟨h.tail_le, h.freed⟩ fun id hid hcur f hf hpos => by
      obtain ⟨t, howner, hfilled, hrec⟩ := h.payload _ f hf
      rw [FaninStorage.spillCount_eq] at hpos ⊢
      have hretired : t < s.lastTaskAlive :=
        hguard id hid hcur t howner (by have := hrec.count; omega)
      -- the log is sorted, and the last entry of the payload is of task `t`
      obtain ⟨hone, hlt, -, htask⟩ := hrec.spilled (f.count - faninInlineCap - 1) (by omega)
      refine ⟨by omega, fun l hl hlast => ?_⟩
      have hsorted := h.sorted l (f.spillStart + (f.count - faninInlineCap - 1)) hl (by omega) hlt
      omega
  rw [heq]
  exact { h with
    stored := h.stored.advance hle
    tail_le := htop
    freed := hfreed
    payload := fun k f hk => (h.payload k f hk).imp fun _ ⟨ho, ht, hr⟩ => ⟨ho, ht, { hr with }⟩
    building := fun t b hb =>
      (h.building t b hb).imp_right fun ⟨hl, hr, ht⟩ => ⟨hl, { hr with }, ht⟩ }

/-- The next task begins. -/
theorem Inv.prepareTask (h : Inv c s) (hpc : s.pc = .idle)
    (hroom : s.localTaskId + 1 < s.lastTaskAlive + c.windowSize) :
    Inv c { s with localTaskId := s.localTaskId + 1, pc := .building s.localTaskId .empty } := by
  have hempty : s.producers s.localTaskId = [] := h.unborn _ le_rfl
  refine { h with
    logged := fun l hl hlt => Nat.lt_succ_of_lt (h.logged l hl hlt)
    alive_le := Nat.le_succ_of_le h.alive_le
    window := le_of_lt hroom
    filled_le := Nat.le_succ_of_le h.filled_le
    payload := fun k f hk => (h.payload k f hk).imp fun _ ⟨ho, ht, hr⟩ => ⟨ho, ht, { hr with }⟩
    unborn := fun t ht => h.unborn t (Nat.le_of_succ_le ht)
    idle := nofun
    building := fun t b hb => ?_
    ensuring := nofun }
  cases hb
  refine ⟨(h.idle hpc).symm, rfl, ⟨?_, ?_, fun i hi => absurd hi (Nat.not_lt_zero _)⟩, nofun⟩
  · show 0 = (s.producers s.localTaskId).length
    rw [hempty, length_nil]
  · show [] = (s.producers s.localTaskId).take faninInlineCap
    rw [hempty, take_nil]

/-- A change of the program counter that keeps the builder, or drops it for good. -/
theorem Inv.goto (h : Inv c s) (pc : FaninPc α) (e : Option PoolError)
    (hpc : pc.builder = s.pc.builder ∨ pc = .failed) (hidle : pc ≠ .idle)
    (hens : ∀ t b x n v, pc = .ensuring t b x n v → x ∉ s.producers t ∧ faninInlineCap ≤ b.count) :
    Inv c { s with pc := pc, orchErrorCode := e } := by
  refine { h with
    payload := fun k f hk => (h.payload k f hk).imp fun _ ⟨ho, ht, hr⟩ => ⟨ho, ht, { hr with }⟩
    idle := fun hi => absurd hi hidle
    building := fun t b hb => ?_
    ensuring := hens }
  rcases hpc with heq | rfl
  · obtain ⟨hfilled, hlocal, hr, hlast⟩ := h.building t b (heq ▸ hb)
    exact ⟨hfilled, hlocal, { hr with }, hlast⟩
  · cases hb

theorem Inv.fail (h : Inv c s) : Inv c s.fail :=
  h.goto .failed _ (.inr rfl) nofun nofun

/-- Live tasks have different slots. -/
theorem slotOf_ne (c : FaninConfig) {t t' : Nat} (hlt : t < t') (hw : t' < t + c.windowSize) :
    c.slotOf t ≠ c.slotOf t' := by
  rw [c.slotOf_eq, c.slotOf_eq]
  intro h
  have := eq_of_mod_eq h (by omega) hw
  omega

/-- The payload of the new task is filled. -/
theorem Inv.submit (h : Inv c s) (hpc : s.pc = .building t b) : Inv c (s.submitted c t b) := by
  obtain ⟨hfilled, hlocal, hrec, -⟩ := h.building t b (by rw [hpc]; rfl)
  have hmove {t' : Nat} {f : FaninStorage α} (hr : s.Records t' f) :
      (s.submitted c t b).Records t' f := { hr with }
  refine { h with
    freed := fun l hl hlt => ?_
    filled_le := hlocal.ge
    payload := fun k f hk => ?_
    latest := fun t' hlt hw => ?_
    idle := fun _ => hlocal.symm
    building := nofun
    ensuring := nofun }
  · obtain ⟨halive, hf⟩ := h.freed l hl hlt
    refine ⟨halive, ?_⟩
    show s.logTask l < t + 1
    omega
  · replace hk : update s.payloads (c.slotOf t) (some b) k = some f := hk
    show ∃ t', update s.owner (c.slotOf t) (some t) k = some t' ∧ t' < t + 1 ∧ _
    by_cases hkt : k = c.slotOf t
    · subst hkt
      rw [update_self, some.injEq] at hk
      rw [update_self]
      exact ⟨t, rfl, Nat.lt_succ_self t, hmove (hk ▸ hrec)⟩
    · rw [update_of_ne hkt] at hk ⊢
      obtain ⟨t', howner, hlt, hr⟩ := h.payload k f hk
      exact ⟨t', howner, by omega, hmove hr⟩
  · replace hlt : t' < t + 1 := hlt
    replace hw : t + 1 ≤ t' + c.windowSize := hw
    show update s.owner _ _ _ = _ ∧ (update s.payloads _ _ _).isSome
    rcases Nat.lt_succ_iff_lt_or_eq.mp hlt with hlt | rfl
    · -- the slot written is not the one of a task still in the window
      have hne := slotOf_ne c hlt (by omega)
      rw [update_of_ne hne, update_of_ne hne]
      exact h.latest t' (by omega) (by omega)
    · rw [update_self, update_self]
      exact ⟨rfl, rfl⟩

/-- The watermark moves. -/
theorem Inv.advance {n : Nat} (h : Inv c s) (hle : s.lastTaskAlive ≤ n) (hn : n ≤ s.localTaskId) :
    Inv c { s with lastTaskAlive := n } := by
  exact { h with
    freed := fun l hl hlt => (h.freed l hl hlt).imp_left fun halive => halive.trans_le hle
    alive_le := hn
    window := h.window.trans (Nat.add_le_add_right hle _)
    payload := fun k f hk => (h.payload k f hk).imp fun _ ⟨ho, ht, hr⟩ => ⟨ho, ht, { hr with }⟩
    building := fun t b hb =>
      (h.building t b hb).imp_right fun ⟨hl, hr, ht⟩ => ⟨hl, { hr with }, ht⟩ }

/-- `contains` finds exactly the producers appended so far. -/
theorem Inv.contains_iff {x : α} (h : Inv c s) (hb : s.pc.builder = some (t, b)) :
    some x ∈ s.pool.forEachFaninStorage c b ↔ x ∈ s.producers t := by
  obtain ⟨hfilled, -, hrec, -⟩ := h.building t b hb
  rw [h.forEach hrec (.inr hfilled.ge), List.mem_map_of_injective (some_injective α)]

/-- The list of an unretired task is its own. -/
theorem Inv.records (h : Inv c s) (hf : s.faninOf c t = some f) (ht : s.lastTaskAlive ≤ t) :
    s.Records t f := by
  unfold faninOf at hf
  split_ifs at hf with hlt
  · obtain ⟨t', howner, -, hr⟩ := h.payload _ f hf
    have hw := h.window
    have hfl := h.filled_le
    obtain ⟨hmine, -⟩ := h.latest t hlt (by omega)
    rw [hmine, some.injEq] at howner
    rwa [howner]
  · obtain ⟨⟨t', b⟩, hb, rfl⟩ := map_eq_some_iff.mp hf
    obtain ⟨hb, hteq⟩ := filter_eq_some_iff.mp hb
    exact of_decide_eq_true hteq ▸ (h.building t' b hb).2.2.1

/-- When there is space, the next entry belongs to no list that is in use. -/
theorem Inv.fresh (h : Inv c s) (hroom : 1 ≤ s.pool.available c) (hf : s.Records t f)
    (ht : s.lastTaskAlive ≤ t) : s.pool.top % c.capacity ∉ FaninPool.spilledEntries c f := by
  intro hmem
  obtain ⟨i, hi, heq⟩ := mem_map.mp hmem
  replace hi := mem_range.mp hi
  obtain ⟨hlo, hhi⟩ := h.between hf (.inl ht) (by omega)
  unfold FaninPool.available FaninPool.used at hroom
  exact RingLog.fresh (show s.pool.tail ≤ f.spillStart + i by omega) (by omega) (by omega) heq

section Step

variable [DecidableEq α] {x : α}

theorem addProducer_of_notMem {l : List α} (hx : x ∉ l) : addProducer l x = l ++ [x] :=
  if_neg hx

theorem noted_self (hx : x ∉ s.producers t) : s.noted t x t = s.producers t ++ [x] := by
  rw [noted, update_self, addProducer_of_notMem hx]

theorem noted_of_ne {t' : Nat} (hne : t' ≠ t) : s.noted t x t' = s.producers t' :=
  update_of_ne hne ..

theorem Inv.unborn_noted (h : Inv c s) (hlocal : s.localTaskId = t + 1) (t' : Nat)
    (ht' : s.localTaskId ≤ t') : s.noted t x t' = [] :=
  (noted_of_ne (by omega)).trans (h.unborn t' ht')

theorem spill_of_available (hroom : 1 ≤ s.pool.available c) :
    s.spill c t b x =
      { s with
        pool :=
          { s.pool with
            base := update s.pool.base (s.pool.top % c.capacity) (some x)
            top := s.pool.top + 1 }
        pc := .building t
          { b with
            count := b.count + 1
            spillStart := if b.count = faninInlineCap then s.pool.top else b.spillStart }
        producers := s.noted t x
        log := update s.log s.pool.top (some x)
        logTask := update s.logTask s.pool.top t } := by
  have hfree : ¬ c.capacity ≤ s.pool.used := by
    unfold FaninPool.available at hroom
    omega
  rw [spill, FaninPool.alloc, if_neg hfree]

/-- The new entry follows the ones the task has, if it has any. -/
theorem Records.spill (h : Records s t b) (hx : x ∉ s.producers t) (hcap : faninInlineCap ≤ b.count)
    (hpos : 1 ≤ s.pool.top)
    (hlast : faninInlineCap < b.count → b.spillStart + (b.count - faninInlineCap) = s.pool.top)
    (hroom : 1 ≤ s.pool.available c) :
    (s.spill c t b x).Records t
      { b with
        count := b.count + 1
        spillStart := if b.count = faninInlineCap then s.pool.top else b.spillStart } := by
  have hcount := h.count
  rw [spill_of_available hroom]
  refine ⟨?_, ?_, fun i hi => ?_⟩
  · show b.count + 1 = (s.noted t x t).length
    rw [noted_self hx, length_append, h.count, length_singleton]
  · show b.inlineSlots = (s.noted t x t).take faninInlineCap
    rw [noted_self hx, take_append_of_le_length (by omega), h.inlined]
  · show 1 ≤ (if _ then _ else _) ∧ (if _ then _ else _) + i < s.pool.top + 1 ∧
      update s.log s.pool.top (some x) ((if _ then _ else _) + i) =
        (s.noted t x t)[faninInlineCap + i]? ∧
      update s.logTask s.pool.top t ((if _ then _ else _) + i) = t
    replace hi : faninInlineCap + i < b.count + 1 := hi
    rw [noted_self hx]
    by_cases hnew : faninInlineCap + i = b.count
    · -- the entry handed out
      have hstart : (if b.count = faninInlineCap then s.pool.top else b.spillStart) + i =
          s.pool.top := by
        split <;> omega
      rw [hstart, hnew, hcount, getElem?_concat_length, update_self,
        update_self]
      refine ⟨?_, by omega, rfl, rfl⟩
      split
      · exact hpos
      · exact (h.spilled 0 (by omega)).1
    · obtain ⟨hone, hlt, hlog, htask⟩ := h.spilled i (by omega)
      rw [if_neg (by omega), update_of_ne hlt.ne, update_of_ne hlt.ne, hlog,
        htask, getElem?_append_left (by omega)]
      exact ⟨hone, by omega, rfl, rfl⟩

/-- A producer goes to the pool. -/
theorem Inv.spill (h : Inv c s) (hb : s.pc.builder = some (t, b)) (hx : x ∉ s.producers t)
    (hcap : faninInlineCap ≤ b.count) (hroom : 1 ≤ s.pool.available c) :
    Inv c (s.spill c t b x) := by
  obtain ⟨hfilled, hlocal, hrec, hlast⟩ := h.building t b hb
  have hnew := hrec.spill hx hcap h.top_pos hlast hroom
  have htail := h.tail_le
  have hspace : s.pool.top < s.pool.tail + c.capacity := by
    unfold FaninPool.available FaninPool.used at hroom
    omega
  -- below `top` the log is as it was
  have hlog : ∀ l < s.pool.top, update s.log s.pool.top (some x) l = s.log l ∧
      update s.logTask s.pool.top t l = s.logTask l := fun l hl =>
    ⟨update_of_ne hl.ne .., update_of_ne hl.ne ..⟩
  have htask (l : Nat) (hl : 1 ≤ l) (hlt : l < s.pool.top + 1) :
      update s.logTask s.pool.top t l < s.localTaskId := by
    rcases Nat.lt_succ_iff_lt_or_eq.mp hlt with hlt | rfl
    · rw [(hlog l hlt).2]
      exact h.logged l hl hlt
    · rw [update_self]
      omega
  rw [spill_of_available hroom] at hnew ⊢
  refine { h with
    stored := h.stored.push hspace (some x)
    tail_le := Nat.le_succ_of_le h.tail_le
    top_pos := Nat.le_succ_of_le h.top_pos
    sorted := fun l l' hl hle hlt => ?_
    logged := htask
    freed := fun l hl hlt => ?_
    payload := fun k f hk => ?_
    unborn := h.unborn_noted hlocal
    idle := nofun
    building := fun t' b' hb' => ?_
    ensuring := nofun }
  · show update s.logTask s.pool.top t l ≤ update s.logTask s.pool.top t l'
    rcases Nat.lt_succ_iff_lt_or_eq.mp hlt with hlt | rfl
    · rw [(hlog l' hlt).2, (hlog l (by omega)).2]
      exact h.sorted l l' hl hle hlt
    · have := htask l hl (by omega)
      rw [update_self]
      omega
  · show update s.logTask s.pool.top t l < s.lastTaskAlive ∧
      update s.logTask s.pool.top t l < s.filled
    rw [(hlog l (lt_of_lt_of_le hlt h.tail_le)).2]
    exact h.freed l hl hlt
  · obtain ⟨t', howner, hlt, hr⟩ := h.payload k f hk
    exact ⟨t', howner, hlt, hr.mono (noted_of_ne (by omega)) (Nat.le_succ _) hlog⟩
  · cases hb'
    refine ⟨hfilled, hlocal, hnew, fun _ => ?_⟩
    show (if _ then _ else _) + (b.count + 1 - faninInlineCap) = s.pool.top + 1
    split <;> omega

/-- A producer goes to the inline array. -/
theorem Inv.inline (h : Inv c s) (hpc : s.pc = .building t b) (hx : x ∉ s.producers t)
    (hcap : b.count < faninInlineCap) :
    Inv c { s with
      pc := .building t { b with count := b.count + 1, inlineSlots := b.inlineSlots ++ [x] }
      producers := s.noted t x } := by
  obtain ⟨hfilled, hlocal, hrec, -⟩ := h.building t b (by rw [hpc]; rfl)
  have hcount := hrec.count
  refine { h with
    payload := fun k f hk => ?_
    unborn := h.unborn_noted hlocal
    idle := nofun
    building := fun t' b' hb' => ?_
    ensuring := nofun }
  · obtain ⟨t', howner, hlt, hr⟩ := h.payload k f hk
    exact ⟨t', howner, hlt, hr.mono (noted_of_ne (by omega)) le_rfl fun _ _ => ⟨rfl, rfl⟩⟩
  · cases hb'
    refine ⟨hfilled, hlocal, ⟨?_, ?_, fun i hi => ?_⟩, fun hlt => ?_⟩
    · show b.count + 1 = (s.noted t x t).length
      rw [noted_self hx, length_append, hcount, length_singleton]
    · show b.inlineSlots ++ [x] = (s.noted t x t).take faninInlineCap
      rw [noted_self hx, hrec.inlined, take_of_length_le (by omega),
        take_of_length_le (by rw [length_append, length_singleton]; omega)]
    · replace hi : faninInlineCap + i < b.count + 1 := hi
      omega
    · replace hlt : faninInlineCap < b.count + 1 := hlt
      omega

/-- A producer is appended. -/
theorem Inv.appendFanin (h : Inv c s) (hpc : s.pc = .building t b) :
    Inv c (s.appendFanin c t b x) := by
  have hb : s.pc.builder = some (t, b) := by rw [hpc]; rfl
  unfold FaninRing.appendFanin
  split
  · rename_i hmem
    -- nothing is appended twice
    have hsame : s.noted t x = s.producers := by
      rw [noted, addProducer, if_pos ((h.contains_iff hb).mp hmem), update_eq_self]
    rwa [hsame]
  · rename_i hmem
    have hx : x ∉ s.producers t := fun hin => hmem ((h.contains_iff hb).mpr hin)
    split
    · rename_i hcap
      exact h.inline hpc hx hcap
    · rename_i hcap
      split_ifs with hroom
      · exact h.spill hb hx (not_lt.mp hcap) hroom
      · refine h.goto (.ensuring t b x 0 s.lastTaskAlive) s.orchErrorCode (.inl hb.symm) nofun ?_
        intro _ _ _ _ _ heq
        cases heq
        exact ⟨hx, not_lt.mp hcap⟩

/-- One turn of the loop for space. -/
theorem Inv.ensureSpace {n v : Nat} (h : Inv c s) (hpc : s.pc = .ensuring t b x n v)
    (hguard : ReclaimGuard c s .ensureSpace) : Inv c (s.ensureSpace c t b x n v) := by
  have hscan : s.pc.scanEnd = v := by rw [hpc]; rfl
  have h' := h.reclaim v (hscan ▸ hguard)
  have hb : s.pc.builder = some (t, b) := by rw [hpc]; rfl
  obtain ⟨hx, hcap⟩ := h.ensuring t b x n v hpc
  have hkeep (n' v' : Nat) : ∀ t' b' x' n'' v'', (FaninPc.ensuring t b x n' v') =
      .ensuring t' b' x' n'' v'' → x' ∉ s.producers t' ∧ faninInlineCap ≤ b'.count := by
    intro _ _ _ _ _ heq
    cases heq
    exact ⟨hx, hcap⟩
  unfold FaninRing.ensureSpace
  dsimp only
  split
  · rename_i hroom
    exact h'.spill hb hx hcap hroom
  · split
    · exact h'.goto (.ensuring t b x 0 s.lastTaskAlive) s.orchErrorCode (.inl hb.symm) nofun
        (hkeep _ _)
    · split
      · exact h'.fail
      · exact h'.goto (.ensuring t b x (n + 1) v) s.orchErrorCode (.inl hb.symm) nofun (hkeep _ _)

/-- What each step does. -/
inductive Move (c : FaninConfig) (s : FaninRing α) : FaninAct α → FaninRing α → Prop
  | prepareTask : s.pc = .idle → s.localTaskId + 1 < s.lastTaskAlive + c.windowSize →
      Move c s .prepareTask
        { s with localTaskId := s.localTaskId + 1, pc := .building s.localTaskId .empty }
  | append {t : Nat} {b : FaninStorage α} (x : α) : s.pc = .building t b →
      Move c s (.append x) (s.appendFanin c t b x)
  | ensureSpace {t : Nat} {b : FaninStorage α} {x : α} {n v : Nat} : s.pc = .ensuring t b x n v →
      Move c s .ensureSpace (s.ensureSpace c t b x n v)
  | submit {t : Nat} {b : FaninStorage α} : s.pc = .building t b →
      Move c s .submit (s.submitted c t b)
  | advance {n : Nat} : s.lastTaskAlive ≤ n → n ≤ s.localTaskId →
      Move c s (.advance n) { s with lastTaskAlive := n }

/-- What a step can do. -/
theorem step_cases {a : FaninAct α} (hst : s.step c a = some s') : Move c s a s' := by
  cases a with
  | advance n =>
    obtain ⟨⟨hle, hn⟩, heq⟩ := ite_none_right_eq_some.mp hst
    cases heq
    exact .advance hle hn
  | prepareTask =>
    cases hpc : s.pc <;> rw [FaninRing.step, hpc] at hst <;> try cases hst
    obtain ⟨hroom, heq⟩ := ite_none_right_eq_some.mp hst
    cases heq
    exact .prepareTask hpc hroom
  | append x =>
    cases hpc : s.pc <;> rw [FaninRing.step, hpc] at hst <;> cases hst
    exact .append x hpc
  | ensureSpace =>
    cases hpc : s.pc <;> rw [FaninRing.step, hpc] at hst <;> cases hst
    exact .ensureSpace hpc
  | submit =>
    cases hpc : s.pc <;> rw [FaninRing.step, hpc] at hst <;> cases hst
    exact .submit hpc

/-- One guarded step. -/
theorem Inv.move {a : FaninAct α} (h : Inv c s) (hok : ReclaimGuard c s a)
    (hm : Move c s a s') : Inv c s' := by
  cases hm with
  | prepareTask hpc hroom => exact h.prepareTask hpc hroom
  | append x hpc => exact h.appendFanin hpc
  | ensureSpace hpc => exact h.ensureSpace hpc hok
  | submit hpc => exact h.submit hpc
  | advance hle hn => exact h.advance hle hn

/-- An append that finds no space hands nothing out. -/
theorem appendFanin_top (hroom : ¬ 1 ≤ s.pool.available c) :
    (s.appendFanin c t b x).pool.top = s.pool.top := by
  unfold FaninRing.appendFanin
  rw [if_neg hroom]
  split
  · rfl
  · split <;> rfl

theorem ensureSpace_top {n v : Nat}
    (hroom : ¬ 1 ≤ (s.pool.reclaim c s.payloads v).available c) :
    (s.ensureSpace c t b x n v).pool.top = (s.pool.reclaim c s.payloads v).top := by
  unfold FaninRing.ensureSpace
  dsimp only
  rw [if_neg hroom]
  split
  · rfl
  · split <;> rfl

/-- A new entry is not one of a live list. -/
theorem Inv.handedOut_notMem {a : FaninAct α} {i : Nat} (h : Inv c s) (hok : ReclaimGuard c s a)
    (hm : Move c s a s') (hi : s.handedOut c s' = some i) (hf : s.Records t f)
    (ht : s.lastTaskAlive ≤ t) : i ∉ FaninPool.spilledEntries c f := by
  obtain ⟨hne, heq⟩ := ite_none_left_eq_some.mp hi
  cases heq
  cases hm with
  | append x hpc =>
    by_cases hroom : 1 ≤ s.pool.available c
    · exact h.fresh hroom hf ht
    · exact absurd (appendFanin_top hroom) hne
  | @ensureSpace t' b x n v hpc =>
    -- the space is found after the reclaim, which leaves `top` and the log
    obtain ⟨tail', cursor', -, -, heq⟩ := reclaim_spec (P := fun _ => True) c s.payloads s.pool v
      trivial fun _ _ _ _ _ _ => trivial
    have htop : (s.pool.reclaim c s.payloads v).top = s.pool.top := by rw [heq]
    by_cases hroom : 1 ≤ (s.pool.reclaim c s.payloads v).available c
    · have hscan : s.pc.scanEnd = v := by rw [hpc]; rfl
      have hf' : ({ s with pool := s.pool.reclaim c s.payloads v } : FaninRing α).Records t f :=
        { hf with spilled := htop.symm ▸ hf.spilled }
      exact htop ▸ (h.reclaim v (hscan ▸ hok)).fresh hroom hf' ht
    · exact absurd ((ensureSpace_top hroom).trans htop) hne
  | prepareTask | submit | advance => exact absurd rfl hne

/-- **Fanin lists survive.** In every execution in which each `reclaim` walks over spent slots
only, the list of every unretired task reads back as the producers appended at its submission,
in order, and no step hands out one of its entries. -/
theorem fanin_lists_survive (c : FaninConfig)
    (h : Reach (FaninRing.step c) (ReclaimGuard c) (FaninRing.init : FaninRing α) s) :
    (∀ t, s.lastTaskAlive ≤ t → t < s.filled → ∃ f, s.faninOf c t = some f ∧
      s.pool.forEachFaninStorage c f = (s.producers t).map some) ∧
    ∀ a s', ReclaimGuard c s a → s.step c a = some s' → ∀ i, s.handedOut c s' = some i →
      ∀ t f, s.lastTaskAlive ≤ t → s.faninOf c t = some f →
        i ∉ FaninPool.spilledEntries c f := by
  have hinv : Inv c s := h.invariant .init fun _ _ _ _ ih hok hst => ih.move hok (step_cases hst)
  constructor
  · intro t ht hlt
    have hw := hinv.window
    have hfl := hinv.filled_le
    obtain ⟨f, hf⟩ := isSome_iff_exists.mp (hinv.latest t hlt (by omega)).2
    have hlist : s.faninOf c t = some f := by rw [faninOf, if_pos hlt, hf]
    exact ⟨f, hlist, hinv.forEach (hinv.records hlist ht) (.inl ht)⟩
  · intro a s' hok hst i hi t f ht hf
    exact hinv.handedOut_notMem hok (step_cases hst) hi (hinv.records hf ht) ht

end Step

/-! ## A window of 32 tasks and a pool of four entries -/

def smallPool : FaninConfig := ⟨5, 4, .refl⟩

/-- The producers are numbered. -/
def appends (first n : Nat) : List (FaninAct Nat) := (List.range' first n).map .append

/-- A submission with `n` producers. -/
def submission (n : Nat) : List (FaninAct Nat) := .prepareTask :: appends 0 n ++ [.submit]

/-- Task 0 fills the pool and retires; task 1 then needs an entry. -/
def reclaimRetired : List (FaninAct Nat) :=
  submission 68 ++ [.advance 1, .prepareTask] ++ appends 100 65 ++ [.ensureSpace, .submit]

/-- Space of a retired task is used again. -/
theorem fanin_lists_survive_reclaimRetired :
    ∃ s, Reach (FaninRing.step smallPool) (ReclaimGuard smallPool) FaninRing.init s ∧
      s.lastTaskAlive = 1 ∧ s.filled = 2 ∧ s.producers 1 = range' 100 65 ∧ s.pool.tail = 5 ∧
      (∃ f, s.faninOf smallPool 1 = some f ∧
        s.pool.forEachFaninStorage smallPool f = (s.producers 1).map some) ∧
      ∀ a s', ReclaimGuard smallPool s a → s.step smallPool a = some s' →
        ∀ i, s.handedOut smallPool s' = some i → ∀ t f, s.lastTaskAlive ≤ t →
          s.faninOf smallPool t = some f → i ∉ FaninPool.spilledEntries smallPool f := by
  refine Reach.exists_of_run_imp (P := fun s => s.lastTaskAlive = 1 ∧ s.filled = 2 ∧
      s.producers 1 = range' 100 65 ∧ s.pool.tail = 5) reclaimRetired (by decide +kernel)
    fun s hs ⟨halive, hfilled, hprod, htail⟩ => ?_
  obtain ⟨hread, hfresh⟩ := fanin_lists_survive smallPool hs
  exact ⟨halive, hfilled, hprod, htail, hread 1 halive.le (by omega), hfresh⟩

/-- Task 32 has taken the slot of task 0 again and has filled the pool, which has not been
reclaimed so far; task 33 needs an entry. -/
def slotTaken : List (FaninAct Nat) :=
  (replicate 31 (submission 0)).flatten ++ [.advance 1] ++ submission 0 ++ [.advance 2] ++
    submission 68 ++ [.advance 3, .prepareTask] ++ appends 100 65

/-- The walk over tasks 0, 1 and 2 finds the payload of task 32, which is far from retired, and
frees its entries: entry 1 is handed out again, and the list of task 32 has changed. -/
theorem fanin_list_overwritten :
    ∃ s s', Reach (FaninRing.step smallPool) free FaninRing.init s ∧
      s.step smallPool .ensureSpace = some s' ∧ s.lastTaskAlive = 3 ∧
      s.handedOut smallPool s' = some 1 ∧
      (s.faninOf smallPool 32).map (FaninPool.spilledEntries smallPool) = some [1, 2, 3, 0] ∧
      s'.producers 32 = range 68 ∧
      (s'.faninOf smallPool 32).map (s'.pool.forEachFaninStorage smallPool) =
        some (((range 68).set 64 164).map some) :=
  Reach.exists_step_of_run slotTaken .ensureSpace (by decide +kernel)

end FaninRing

end PtoRuntime.Tmrb
