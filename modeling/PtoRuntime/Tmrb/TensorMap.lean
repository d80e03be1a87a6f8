import PtoRuntime.Tmrb.Tensor

/-!
# The tensor map

`PTO2TensorMap` is a hash table from buffer addresses to the regions that unretired tasks
have registered. Its entries live in a pool; each is on the chain of its bucket and on the
chain of its producer's slot, `task_entry_heads[ring][slot]`. The chains are lists of pool
indices here, head first.

A submission synchronises the map with the watermark of its ring: the threshold for stale
entries is set, and now and then `cleanup_retired` walks the slots of the tasks that have
retired since the last time and frees everything on their chains. Then the submission looks
up its inputs, which may remove entries that an INOUT argument covers, and inserts its
outputs.
-/

namespace PtoRuntime.Tmrb

open List

open Function

/-- `PTO2_TENSORMAP_POOL_SIZE`. -/
def tensormapPoolSize : Nat := 65536

/-- `PTO2_TENSORMAP_CLEANUP_INTERVAL`. -/
def tensormapCleanupInterval : Nat := 64

structure TensorMap where
  buckets : Nat → List Nat
  entries : Nat → Entry
  freeEntryList : List Nat
  nextEntryIdx : Nat
  taskEntryHeads : SlotRef → List Nat
  lastTaskAlives : Nat → Nat
  lastCleanup : Nat → Nat

variable {e : Nat} {l : List Nat} {P : TaskId → Prop}

namespace TensorMap

/-- An entry of the zeroed pool. -/
def blankEntry : Entry := ⟨0, ⟨0, 0⟩, 0, 0, .float32, false, [], 0, []⟩

def init : TensorMap where
  buckets _ := []
  entries _ := blankEntry
  freeEntryList := []
  nextEntryIdx := 0
  taskEntryHeads _ := []
  lastTaskAlives _ := 0
  lastCleanup _ := 0

/-- `hash`, for 4096 buckets. -/
def hash (key : Nat) : Nat := key * 0x9E3779B97F4A7C15 % 2 ^ 64 / 2 ^ 52

variable (c : Config)

/-- `new_entry`; a full pool is a failed assertion. -/
def newEntry (m : TensorMap) : Option (Nat × TensorMap) :=
  match m.freeEntryList with
  | e :: rest => some (e, { m with freeEntryList := rest })
  | [] =>
    if m.nextEntryIdx < tensormapPoolSize then
      some (m.nextEntryIdx, { m with nextEntryIdx := m.nextEntryIdx + 1 })
    else none

/-- `free_entry`: the entry leaves its bucket. -/
def freeEntry (m : TensorMap) (e : Nat) : TensorMap :=
  let bucket := hash (m.entries e).addr
  { m with
    buckets := update m.buckets bucket ((m.buckets bucket).erase e)
    freeEntryList := e :: m.freeEntryList }

/-- `remove_from_task`. -/
def removeFromTask (m : TensorMap) (e : Nat) : TensorMap :=
  let slot := c.slot (m.entries e).producer
  { m with
    taskEntryHeads := update m.taskEntryHeads slot ((m.taskEntryHeads slot).erase e) }

/-- `remove_entry`. -/
def removeEntry (m : TensorMap) (e : Nat) : TensorMap := (m.removeFromTask c e).freeEntry e

/-- `link_entry` for a new entry `e`. -/
def linkEntry (m : TensorMap) (e : Nat) (entry : Entry) : TensorMap :=
  let bucket := hash entry.addr
  let slot := c.slot entry.producer
  { m with
    entries := update m.entries e entry
    buckets := update m.buckets bucket (e :: m.buckets bucket)
    taskEntryHeads := update m.taskEntryHeads slot (e :: m.taskEntryHeads slot) }

/-- `insert`. -/
def insert (m : TensorMap) (t : Tensor) (producer : TaskId) : Option TensorMap :=
  m.newEntry.map fun (e, m') => m'.linkEntry c e (.copyFromTensor t producer)

/-- `entry_valid`. -/
def entryValid (m : TensorMap) (e : Nat) : Bool :=
  m.lastTaskAlives (m.entries e).producer.ring ≤ (m.entries e).producer.loc

/-- The body of the loop of `cleanup_retired`: all entries on the chain of a slot are freed. -/
def cleanupSlot (m : TensorMap) (slot : SlotRef) : TensorMap :=
  let m' := (m.taskEntryHeads slot).foldl freeEntry m
  { m' with taskEntryHeads := update m'.taskEntryHeads slot [] }

/-- `cleanup_retired(ring, local_id, local_id + n)`. -/
def cleanupRetired (m : TensorMap) (ring localId : Nat) : Nat → TensorMap
  | 0 => m
  | n + 1 => (m.cleanupSlot (c.slot ⟨ring, localId⟩)).cleanupRetired ring (localId + 1) n

/-- The entries that `cleanup_retired(ring, local_id, local_id + n)` frees. -/
def cleaned (m : TensorMap) (ring localId : Nat) : Nat → List Nat
  | 0 => []
  | n + 1 =>
    m.taskEntryHeads (c.slot ⟨ring, localId⟩) ++
      (m.cleanupSlot (c.slot ⟨ring, localId⟩)).cleaned ring (localId + 1) n

/-- The test in `sync_tensormap`: enough tasks have retired, or the new task takes the slot
that the next cleanup starts at. -/
def cleanupDue (m : TensorMap) (t : TaskId) (smLastTaskAlive : Nat) : Prop :=
  m.lastCleanup t.ring + tensormapCleanupInterval ≤ smLastTaskAlive ∨
    c.slot t = c.slot ⟨t.ring, m.lastCleanup t.ring⟩

instance (m : TensorMap) (t : TaskId) (n : Nat) : Decidable (m.cleanupDue c t n) :=
  inferInstanceAs (Decidable (_ ∨ _))

/-- `sync_tensormap`. -/
def syncTensormap (m : TensorMap) (t : TaskId) (smLastTaskAlive : Nat) : TensorMap :=
  let m' := { m with lastTaskAlives := update m.lastTaskAlives t.ring smLastTaskAlive }
  if m.cleanupDue c t smLastTaskAlive then
    { m'.cleanupRetired c t.ring (m.lastCleanup t.ring)
      (smLastTaskAlive - m.lastCleanup t.ring) with
      lastCleanup := update m.lastCleanup t.ring smLastTaskAlive }
  else m'

/-- The entries that `sync_tensormap` frees. -/
def syncCleaned (m : TensorMap) (t : TaskId) (smLastTaskAlive : Nat) : List Nat :=
  if m.cleanupDue c t smLastTaskAlive then
    m.cleaned c t.ring (m.lastCleanup t.ring) (smLastTaskAlive - m.lastCleanup t.ring)
  else []

section Lookup

variable {β : Type} (emit : β → TaskId → Option β)

/-- `lookup` on the entries left of a bucket, with the callback of `compute_task_fanin`: the
producer of every overlapping entry is emitted, and an INOUT argument removes the entries it
covers. `emit` fails when there is no space for the producer. -/
def lookup (tensor : Tensor) (inout : Bool) : List Nat → TensorMap × β → (TensorMap × β) × Bool
  | [], s => (s, true)
  | e :: rest, (m, b) =>
    let entry := m.entries e
    if m.entryValid e ∧ tensor.addr = entry.addr ∧ entry.checkOverlap tensor ≠ .noOverlap then
      match emit b entry.producer with
      | none => ((m, b), false)
      | some b' =>
        lookup tensor inout rest
          (if inout ∧ entry.checkOverlap tensor = .covered then m.removeEntry c e else m, b')
    else lookup tensor inout rest (m, b)

/-- Step A of `compute_task_fanin`: the creator of a tensor is a producer. -/
def emitOwner (tensor : Tensor) (b : β) : Option β :=
  match tensor.owner with
  | some owner => emit b owner
  | none => some b

/-- Steps A and B of `compute_task_fanin` for an INPUT or INOUT argument. -/
def accessFanin (tensor : Tensor) (inout : Bool) (s : TensorMap × β) : (TensorMap × β) × Bool :=
  match emitOwner emit tensor s.2 with
  | none => (s, false)
  | some b =>
    if tensor.manualDep then ((s.1, b), true)
    else lookup c emit tensor inout (s.1.buckets (hash tensor.addr)) (s.1, b)

/-- Step A alone, for the arguments that are not looked up. -/
def ownerFanin (tensor : Tensor) (s : TensorMap × β) : (TensorMap × β) × Bool :=
  match emitOwner emit tensor s.2 with
  | none => (s, false)
  | some b => ((s.1, b), true)

/-- The body of the loop of `compute_task_fanin`. -/
def argFanin (s : TensorMap × β) : TensorArg Tensor → (TensorMap × β) × Bool
  | .output _ => (s, true)
  | .input t => accessFanin c emit t false s
  | .inout t => accessFanin c emit t true s
  | .outputExisting t | .noDep t => ownerFanin emit t s

/-- `compute_task_fanin` outside manual scope. -/
def computeTaskFanin : List (TensorArg Tensor) → TensorMap × β → (TensorMap × β) × Bool
  | [], s => (s, true)
  | a :: rest, s =>
    match argFanin c emit s a with
    | (s', true) => computeTaskFanin rest s'
    | (s', false) => (s', false)

end Lookup

/-- The tensor that an argument registers, if any. -/
def registered? : TensorArg Tensor → Option Tensor
  | .inout t | .outputExisting t => if t.manualDep then none else some t
  | .input _ | .output _ | .noDep _ => none

/-- `register_task_outputs` outside manual scope. -/
def registerTaskOutputs (t : TaskId) : List (TensorArg Tensor) → TensorMap → Option TensorMap
  | [], m => some m
  | a :: rest, m =>
    match registered? a with
    | some tensor => (m.insert c tensor t).bind (registerTaskOutputs t rest)
    | none => registerTaskOutputs t rest m

/-! ## The pool and the two families of chains -/

variable {c} {m m' : TensorMap}

/-- The entry is linked. -/
def Live (c : Config) (m : TensorMap) (e : Nat) : Prop :=
  e ∈ m.taskEntryHeads (c.slot (m.entries e).producer)

structure Linked (c : Config) (m : TensorMap) : Prop where
  chain_slot : ∀ k, ∀ e ∈ m.taskEntryHeads k, c.slot (m.entries e).producer = k
  chain_nodup : ∀ k, (m.taskEntryHeads k).Nodup
  bucket_hash : ∀ b, ∀ e ∈ m.buckets b, hash (m.entries e).addr = b
  bucket_nodup : ∀ b, (m.buckets b).Nodup
  -- an entry is on both of its chains or on neither
  live_iff : ∀ e, e ∈ m.buckets (hash (m.entries e).addr) ↔ m.Live c e
  live_lt : ∀ e, m.Live c e → e < m.nextEntryIdx ∧ e ∉ m.freeEntryList
  free_lt : ∀ e ∈ m.freeEntryList, e < m.nextEntryIdx
  free_nodup : m.freeEntryList.Nodup

theorem linked_init : Linked c init :=
  ⟨nofun, fun _ => .nil, nofun, fun _ => .nil, fun _ => ⟨nofun, nofun⟩, nofun, nofun, .nil⟩

/-! ### Chains -/

section Chain

variable {κ : Type} [DecidableEq κ] {f : κ → List Nat} {k₀ : κ} {e : Nat}

theorem mem_update_cons {k : κ} {x : Nat} :
    x ∈ update f k₀ (e :: f k₀) k ↔ x ∈ f k ∨ x = e ∧ k = k₀ := by
  obtain rfl | hk := eq_or_ne k k₀
  · simp [or_comm]
  · simp [hk]

theorem nodup_update_cons (h : ∀ k, (f k).Nodup) (he : e ∉ f k₀) (k : κ) :
    (update f k₀ (e :: f k₀) k).Nodup :=
  (forall_update_iff f fun _ => List.Nodup).mpr
    ⟨nodup_cons.mpr ⟨he, h k₀⟩, fun k _ => h k⟩ k

/-- An entry leaves the only chain it is on. -/
theorem update_erase (h : ∀ k, (f k).Nodup) (honly : ∀ k, e ∈ f k → k₀ = k) (k : κ) :
    update f k₀ ((f k₀).erase e) k = (f k).filter (· ∉ [e]) := by
  obtain rfl | hk := eq_or_ne k k₀
  · rw [update_self, (h k).erase_eq_filter]
    refine filter_congr fun x _ => ?_
    by_cases hx : x = e <;> simp [hx]
  · rw [update_of_ne hk]
    refine (filter_eq_self.mpr fun x hx => ?_).symm
    rw [decide_eq_true_eq, mem_singleton]
    rintro rfl
    exact hk (honly k hx).symm

end Chain

/-- `new_entry` hands out an index that is on no chain. -/
theorem newEntry_spec (h : Linked c m) (hn : m.newEntry = some (e, m')) :
    Linked c m' ∧ ¬ m'.Live c e ∧ e < m'.nextEntryIdx ∧ e ∉ m'.freeEntryList ∧
      m'.buckets = m.buckets ∧ m'.entries = m.entries ∧ m'.taskEntryHeads = m.taskEntryHeads ∧
      m'.lastTaskAlives = m.lastTaskAlives ∧ m'.lastCleanup = m.lastCleanup := by
  unfold newEntry at hn
  split at hn
  · rename_i e' rest hfree
    cases hn
    have hnodup := h.free_nodup
    rw [hfree, nodup_cons] at hnodup
    have hsub : ∀ x ∈ rest, x ∈ m.freeEntryList := fun x hx => hfree ▸ mem_cons_of_mem _ hx
    have he : e ∈ m.freeEntryList := hfree ▸ mem_cons_self
    refine ⟨{ h with
        live_lt := fun x hx => ?_, free_lt := fun x hx => h.free_lt x (hsub x hx),
        free_nodup := hnodup.2 }, fun hl => (h.live_lt e hl).2 he,
      h.free_lt e he, hnodup.1, rfl, rfl, rfl, rfl, rfl⟩
    obtain ⟨hlt, hnot⟩ := h.live_lt x hx
    exact ⟨hlt, fun hm => hnot (hsub x hm)⟩
  · rename_i hfree
    obtain ⟨-, ⟨⟩⟩ := Option.ite_none_right_eq_some.mp hn
    refine ⟨{ h with
        live_lt := fun x hx => ?_, free_lt := fun x hx => Nat.lt_succ_of_lt (h.free_lt x hx) },
      fun hl => lt_irrefl _ (h.live_lt _ hl).1, Nat.lt_succ_self _, by simp [hfree],
      rfl, rfl, rfl, rfl, rfl⟩
    obtain ⟨hlt, hnot⟩ := h.live_lt x hx
    exact ⟨Nat.lt_succ_of_lt hlt, hnot⟩

/-- Linking an entry that is on no chain. -/
theorem Linked.linkEntry (h : Linked c m) (entry : Entry) (hnew : ¬ m.Live c e)
    (hlt : e < m.nextEntryIdx) (hfree : e ∉ m.freeEntryList) :
    Linked c (m.linkEntry c e entry) := by
  have hchain (k : SlotRef) : e ∉ m.taskEntryHeads k := fun hm => hnew (by
    rw [Live, h.chain_slot k e hm]
    exact hm)
  have hbucket (b : Nat) : e ∉ m.buckets b := fun hm => hnew (by
    rw [← h.live_iff, h.bucket_hash b e hm]
    exact hm)
  have hne {k : SlotRef} {x : Nat} (hx : x ∈ m.taskEntryHeads k) : x ≠ e := by
    rintro rfl
    exact hchain k hx
  have hneb {b : Nat} {x : Nat} (hx : x ∈ m.buckets b) : x ≠ e := by
    rintro rfl
    exact hbucket b hx
  -- membership in the chains after the link
  have hheads (k : SlotRef) (x : Nat) : x ∈ (m.linkEntry c e entry).taskEntryHeads k ↔
      x ∈ m.taskEntryHeads k ∨ x = e ∧ k = c.slot entry.producer := mem_update_cons
  have hbuckets (b x : Nat) : x ∈ (m.linkEntry c e entry).buckets b ↔
      x ∈ m.buckets b ∨ x = e ∧ b = hash entry.addr := mem_update_cons
  have hentry {x : Nat} (hx : x ≠ e) : (m.linkEntry c e entry).entries x = m.entries x :=
    update_of_ne hx ..
  have hself : (m.linkEntry c e entry).entries e = entry := update_self ..
  have hlive (x : Nat) : (m.linkEntry c e entry).Live c x ↔ m.Live c x ∨ x = e := by
    by_cases hx : x = e
    · subst hx
      rw [Live, hheads, hself]
      simp
    · rw [Live, hheads, hentry hx]
      simp [hx, Live]
  refine ⟨fun k x hx => ?_, nodup_update_cons h.chain_nodup (hchain _), fun b x hx => ?_,
    nodup_update_cons h.bucket_nodup (hbucket _), fun x => ?_, fun x hx => ?_, h.free_lt,
    h.free_nodup⟩
  · rcases (hheads k x).mp hx with hx | ⟨rfl, rfl⟩
    · rw [hentry (hne hx)]
      exact h.chain_slot k x hx
    · rw [hself]
  · rcases (hbuckets b x).mp hx with hx | ⟨rfl, rfl⟩
    · rw [hentry (hneb hx)]
      exact h.bucket_hash b x hx
    · rw [hself]
  · rw [hlive, hbuckets]
    by_cases hx : x = e
    · subst hx
      simp [hself]
    · rw [hentry hx, h.live_iff]
      simp [hx]
  · rcases (hlive x).mp hx with hx | rfl
    · exact h.live_lt x hx
    · exact ⟨hlt, hfree⟩

/-- The entries of `l` have been freed; everything else is as it was. -/
structure Unlinks (m : TensorMap) (l : List Nat) (m' : TensorMap) : Prop where
  entries : m'.entries = m.entries
  heads : ∀ k, m'.taskEntryHeads k = (m.taskEntryHeads k).filter (· ∉ l)
  buckets : ∀ b, m'.buckets b = (m.buckets b).filter (· ∉ l)
  free : m'.freeEntryList = l.reverse ++ m.freeEntryList
  nextEntryIdx : m'.nextEntryIdx = m.nextEntryIdx
  lastTaskAlives : m'.lastTaskAlives = m.lastTaskAlives
  lastCleanup : m'.lastCleanup = m.lastCleanup

theorem Unlinks.mem_heads (hu : Unlinks m l m') {k : SlotRef} :
    e ∈ m'.taskEntryHeads k ↔ e ∈ m.taskEntryHeads k ∧ e ∉ l := by
  simp [hu.heads]

theorem Unlinks.mem_buckets (hu : Unlinks m l m') {b : Nat} :
    e ∈ m'.buckets b ↔ e ∈ m.buckets b ∧ e ∉ l := by
  simp [hu.buckets]

/-- The other entries stay live. -/
theorem Unlinks.live_iff (hu : Unlinks m l m') :
    m'.Live c e ↔ m.Live c e ∧ e ∉ l := by
  rw [Live, Live, hu.entries, hu.mem_heads]

/-- Entries are taken out of all lists. -/
theorem Linked.unlink (h : Linked c m) (hnodup : l.Nodup) (hlive : ∀ e ∈ l, m.Live c e)
    (hu : Unlinks m l m') : Linked c m' := by
  refine ⟨fun k e he => ?_, fun k => ?_, fun b e he => ?_, fun b => ?_, fun e => ?_, fun e he => ?_,
    fun e he => ?_, ?_⟩
  · rw [hu.entries]
    exact h.chain_slot k e (hu.mem_heads.mp he).1
  · rw [hu.heads]
    exact (h.chain_nodup k).filter _
  · rw [hu.entries]
    exact h.bucket_hash b e (hu.mem_buckets.mp he).1
  · rw [hu.buckets]
    exact (h.bucket_nodup b).filter _
  · rw [hu.entries, hu.mem_buckets, h.live_iff, hu.live_iff]
  · obtain ⟨he, hel⟩ := hu.live_iff.mp he
    obtain ⟨hlt, hfree⟩ := h.live_lt e he
    rw [hu.nextEntryIdx, hu.free]
    exact ⟨hlt, by simp [hel, hfree]⟩
  · rw [hu.nextEntryIdx]
    rw [hu.free, mem_append, mem_reverse] at he
    exact he.elim (fun he => (h.live_lt e (hlive e he)).1) (h.free_lt e)
  · rw [hu.free, nodup_append]
    refine ⟨(reverse_perm l).nodup_iff.mpr hnodup, h.free_nodup, fun a ha b hb hab => ?_⟩
    exact (h.live_lt a (hlive a (mem_reverse.mp ha))).2 (hab ▸ hb)

/-- `free_entry` on a list of entries. -/
theorem freeEntries_spec (l : List Nat) (m : TensorMap) (hnodup : ∀ b, (m.buckets b).Nodup)
    (hhash : ∀ b, ∀ e ∈ m.buckets b, hash (m.entries e).addr = b) :
    (l.foldl freeEntry m).entries = m.entries ∧
      (l.foldl freeEntry m).taskEntryHeads = m.taskEntryHeads ∧
      (∀ b, (l.foldl freeEntry m).buckets b = (m.buckets b).filter (· ∉ l)) ∧
      (l.foldl freeEntry m).freeEntryList = l.reverse ++ m.freeEntryList ∧
      (l.foldl freeEntry m).nextEntryIdx = m.nextEntryIdx ∧
      (l.foldl freeEntry m).lastTaskAlives = m.lastTaskAlives ∧
      (l.foldl freeEntry m).lastCleanup = m.lastCleanup := by
  induction l generalizing m with
  | nil => simp
  | cons e l ih =>
    -- the bucket of the entry loses it, and no other bucket holds it
    have hbuckets : ∀ b, (m.freeEntry e).buckets b = (m.buckets b).filter (· ∉ [e]) :=
      update_erase hnodup fun b => hhash b e
    obtain ⟨h₁, h₂, h₃, h₄, h₅, h₆, h₇⟩ := ih (m.freeEntry e)
      (fun b => by rw [hbuckets]; exact (hnodup b).filter _)
      (fun b x hx => by
        rw [hbuckets] at hx
        exact hhash b x (mem_filter.mp hx).1)
    refine ⟨h₁, h₂, fun b => ?_, ?_, h₅, h₆, h₇⟩
    · rw [foldl_cons, h₃, hbuckets, filter_filter]
      refine filter_congr fun x _ => ?_
      by_cases hx : x = e <;> simp [hx]
    · rw [foldl_cons, h₄]
      simp [freeEntry]

/-- `remove_entry` frees one linked entry. -/
theorem removeEntry_unlinks (h : Linked c m) : Unlinks m [e] (m.removeEntry c e) := by
  obtain ⟨h₁, h₂, h₃, h₄, h₅, h₆, h₇⟩ :=
    freeEntries_spec [e] (m.removeFromTask c e) h.bucket_nodup h.bucket_hash
  have hheads := update_erase h.chain_nodup fun k => h.chain_slot k e
  exact ⟨h₁, fun k => (congrFun h₂ k).trans (hheads k), h₃, h₄, h₅, h₆, h₇⟩

/-- The loop body of `cleanup_retired` frees the chain of a slot. -/
theorem cleanupSlot_unlinks (h : Linked c m) (slot : SlotRef) :
    Unlinks m (m.taskEntryHeads slot) (m.cleanupSlot slot) := by
  obtain ⟨h₁, h₂, h₃, h₄, h₅, h₆, h₇⟩ :=
    freeEntries_spec (m.taskEntryHeads slot) m h.bucket_nodup h.bucket_hash
  refine ⟨h₁, fun k => ?_, h₃, h₄, h₅, h₆, h₇⟩
  simp only [cleanupSlot, h₂, update_apply]
  split
  · rename_i hk
    rw [hk]
    simp
  · rename_i hk
    refine (filter_eq_self.mpr fun x hx => ?_).symm
    rw [decide_eq_true_eq]
    intro hx'
    exact hk ((h.chain_slot k x hx).symm.trans (h.chain_slot slot x hx'))

/-- `m'` is `m` without some of its linked entries. -/
def Removes (c : Config) (m : TensorMap) (l : List Nat) (m' : TensorMap) : Prop :=
  l.Nodup ∧ (∀ e ∈ l, m.Live c e) ∧ Unlinks m l m'

theorem Removes.refl (m : TensorMap) : Removes c m [] m :=
  ⟨.nil, nofun, rfl, fun _ => (by simp), fun _ => (by simp), rfl, rfl, rfl, rfl⟩

theorem Removes.linked (hr : Removes c m l m') (h : Linked c m) : Linked c m' :=
  h.unlink hr.1 hr.2.1 hr.2.2

theorem Removes.trans {m'' : TensorMap} {l' : List Nat} (h : Removes c m l m')
    (h' : Removes c m' l' m'') : Removes c m (l ++ l') m'' := by
  obtain ⟨hnodup, hlive, hu⟩ := h
  obtain ⟨hnodup', hlive', hu'⟩ := h'
  have hold : ∀ e ∈ l', m.Live c e ∧ e ∉ l := fun e he => hu.live_iff.mp (hlive' e he)
  refine ⟨?_, fun e he => ?_, hu'.entries.trans hu.entries, fun k => ?_, fun b => ?_, ?_,
    hu'.nextEntryIdx.trans hu.nextEntryIdx, hu'.lastTaskAlives.trans hu.lastTaskAlives,
    hu'.lastCleanup.trans hu.lastCleanup⟩
  · refine nodup_append.mpr ⟨hnodup, hnodup', fun a ha b hb hab => ?_⟩
    exact (hold b hb).2 (hab ▸ ha)
  · exact (mem_append.mp he).elim (hlive e) fun he => (hold e he).1
  · rw [hu'.heads, hu.heads, filter_filter]
    refine filter_congr fun x _ => ?_
    simp [Bool.and_comm]
  · rw [hu'.buckets, hu.buckets, filter_filter]
    refine filter_congr fun x _ => ?_
    simp [Bool.and_comm]
  · rw [hu'.free, hu.free]
    simp

/-- One entry goes. -/
theorem removes_removeEntry (h : Linked c m) (he : m.Live c e) :
    Removes c m [e] (m.removeEntry c e) :=
  ⟨pairwise_singleton _ e, by simpa using he, removeEntry_unlinks h⟩

/-- The entries of a slot go. -/
theorem removes_cleanupSlot (h : Linked c m) (slot : SlotRef) :
    Removes c m (m.taskEntryHeads slot) (m.cleanupSlot slot) := by
  refine ⟨h.chain_nodup slot, fun e he => ?_, cleanupSlot_unlinks h slot⟩
  rw [Live, h.chain_slot slot e he]
  exact he

/-- The entries of retired tasks go. -/
theorem removes_cleanupRetired (h : Linked c m) (ring localId n : Nat) :
    Removes c m (m.cleaned c ring localId n) (m.cleanupRetired c ring localId n) := by
  induction n generalizing m localId with
  | zero => exact .refl m
  | succ n ih =>
    have hslot := removes_cleanupSlot h (c.slot ⟨ring, localId⟩)
    exact hslot.trans (ih (hslot.linked h) (localId + 1))

/-- What a cleanup frees: the chains of the slots it walks. -/
theorem mem_cleaned (h : Linked c m) {ring localId n : Nat} :
    e ∈ m.cleaned c ring localId n ↔
      ∃ j < n, e ∈ m.taskEntryHeads (c.slot ⟨ring, localId + j⟩) := by
  induction n generalizing m localId with
  | zero => simp [cleaned]
  | succ n ih =>
    have hslot := removes_cleanupSlot h (c.slot ⟨ring, localId⟩)
    rw [cleaned, mem_append, ih (hslot.linked h)]
    constructor
    · rintro (he | ⟨j, hj, he⟩)
      · exact ⟨0, Nat.succ_pos n, he⟩
      · refine ⟨j + 1, Nat.succ_lt_succ hj, ?_⟩
        rw [← add_assoc, Nat.add_right_comm]
        exact (hslot.2.2.mem_heads.mp he).1
    · rintro ⟨j, hj, he⟩
      by_cases hfirst : e ∈ m.taskEntryHeads (c.slot ⟨ring, localId⟩)
      · exact .inl hfirst
      · obtain _ | j := j
        · exact absurd he hfirst
        · rw [← add_assoc, Nat.add_right_comm] at he
          exact .inr ⟨j, Nat.lt_of_succ_lt_succ hj, hslot.2.2.mem_heads.mpr ⟨he, hfirst⟩⟩

/-- What `sync_tensormap` leaves: everything but the entries it cleans up. -/
theorem syncTensormap_spec (h : Linked c m) (t : TaskId) (n : Nat) :
    Linked c (m.syncTensormap c t n) ∧ (m.syncTensormap c t n).entries = m.entries ∧
      (∀ k e, e ∈ (m.syncTensormap c t n).taskEntryHeads k ↔
        e ∈ m.taskEntryHeads k ∧ e ∉ m.syncCleaned c t n) ∧
      (m.syncTensormap c t n).lastTaskAlives = update m.lastTaskAlives t.ring n ∧
      (m.syncTensormap c t n).lastCleanup =
        if m.cleanupDue c t n then update m.lastCleanup t.ring n else m.lastCleanup := by
  have h' : Linked c { m with lastTaskAlives := update m.lastTaskAlives t.ring n } :=
    { h with }
  by_cases hdue : m.cleanupDue c t n
  · have hrem := removes_cleanupRetired h' t.ring (m.lastCleanup t.ring) (n - m.lastCleanup t.ring)
    simp only [syncTensormap, syncCleaned, if_pos hdue]
    refine ⟨{ hrem.linked h' with }, hrem.2.2.entries, fun k e => ?_,
      hrem.2.2.lastTaskAlives, trivial⟩
    rw [hrem.2.2.mem_heads, mem_cleaned h', mem_cleaned h]
  · simp only [syncTensormap, syncCleaned, if_neg hdue]
    exact ⟨h', trivial, fun k e => (by simp), trivial, trivial⟩

section Lookup

variable {β : Type} {emit : β → TaskId → Option β}

/-- A lookup removes entries of the bucket it walks, and changes nothing else. -/
theorem removes_lookup (tensor : Tensor) (inout : Bool) (bucket : List Nat) (b : β)
    (h : Linked c m) (hnodup : bucket.Nodup) (hlive : ∀ e ∈ bucket, m.Live c e) :
    ∃ l, Removes c m l (lookup c emit tensor inout bucket (m, b)).1.1 := by
  induction bucket generalizing m b with
  | nil => exact ⟨[], .refl m⟩
  | cons e rest ih =>
    have hrest := (nodup_cons.mp hnodup).2
    have hlive' : ∀ x ∈ rest, m.Live c x := fun x hx => hlive x (mem_cons_of_mem e hx)
    unfold lookup
    dsimp only
    split
    · split
      · exact ⟨[], .refl m⟩
      · split
        · -- the entry is removed, and the entries after it are still linked
          have hrem := removes_removeEntry h (hlive e mem_cons_self)
          obtain ⟨l, hl⟩ := ih _ (hrem.linked h) hrest fun x hx => hrem.2.2.live_iff.mpr
            ⟨hlive' x hx, fun hxe => (nodup_cons.mp hnodup).1 (mem_singleton.mp hxe ▸ hx)⟩
          exact ⟨[e] ++ l, hrem.trans hl⟩
        · exact ih _ h hrest hlive'
    · exact ih _ h hrest hlive'

theorem removes_argFanin (h : Linked c m) (b : β) (a : TensorArg Tensor) :
    ∃ l, Removes c m l (argFanin c emit (m, b) a).1.1 := by
  have haccess (t : Tensor) (inout : Bool) :
      ∃ l, Removes c m l (accessFanin c emit t inout (m, b)).1.1 := by
    unfold accessFanin
    split
    · exact ⟨[], .refl m⟩
    · split
      · exact ⟨[], .refl m⟩
      · refine removes_lookup t inout _ _ h (h.bucket_nodup _) fun e he => ?_
        rw [← h.live_iff, h.bucket_hash _ e he]
        exact he
  have howner (t : Tensor) : ∃ l, Removes c m l (ownerFanin emit t (m, b)).1.1 := by
    unfold ownerFanin
    split <;> exact ⟨[], .refl m⟩
  cases a with
  | output _ => exact ⟨[], .refl m⟩
  | input t => exact haccess t false
  | inout t => exact haccess t true
  | outputExisting t => exact howner t
  | noDep t => exact howner t

/-- A lookup only removes. -/
theorem removes_computeTaskFanin (h : Linked c m) (b : β) (args : List (TensorArg Tensor)) :
    ∃ l, Removes c m l (computeTaskFanin c emit args (m, b)).1.1 := by
  induction args generalizing m b with
  | nil => exact ⟨[], .refl m⟩
  | cons a rest ih =>
    obtain ⟨l, hl⟩ : ∃ l, Removes c m l (argFanin c emit (m, b) a).1.1 := removes_argFanin h b a
    unfold computeTaskFanin
    split
    · rename_i s' heq
      rw [heq] at hl
      obtain ⟨l', hl'⟩ := ih (hl.linked h) s'.2
      exact ⟨l ++ l', hl.trans hl'⟩
    · rename_i s' heq
      rw [heq] at hl
      exact ⟨l, hl⟩

end Lookup

/-- All linked entries have a producer in `P`. -/
def Producers (m : TensorMap) (P : TaskId → Prop) : Prop :=
  ∀ k, ∀ e ∈ m.taskEntryHeads k, P (m.entries e).producer

/-- The other entries keep their producers. -/
theorem Producers.removes (h : m.Producers P) (hr : Removes c m l m') :
    m'.Producers P := fun k e he => by
  rw [hr.2.2.entries]
  exact h k e (hr.2.2.mem_heads.mp he).1

/-- A new entry, and its producer. -/
theorem insert_spec {t : Tensor} {producer : TaskId} (h : Linked c m) (hP : m.Producers P)
    (hp : P producer) (hi : m.insert c t producer = some m') :
    Linked c m' ∧ m'.Producers P ∧ m'.lastTaskAlives = m.lastTaskAlives ∧
      m'.lastCleanup = m.lastCleanup := by
  obtain ⟨⟨e, m₁⟩, hn, rfl⟩ := Option.map_eq_some_iff.mp hi
  obtain ⟨h₁, hlive, hlt, hfree, -, hentries, hheads, halive, hcleanup⟩ := newEntry_spec h hn
  refine ⟨h₁.linkEntry _ hlive hlt hfree, fun k x hx => ?_, halive, hcleanup⟩
  simp only [linkEntry, update_apply] at hx ⊢
  split_ifs with hxe
  · exact hp
  · rw [hentries]
    split at hx
    · exact hP _ x (hheads ▸ (mem_cons.mp hx).resolve_left hxe)
    · exact hP _ x (hheads ▸ hx)

/-- The outputs of a task are entered. -/
theorem registerTaskOutputs_spec {t : TaskId} {args : List (TensorArg Tensor)} (h : Linked c m)
    (hP : m.Producers P) (ht : P t) (hr : m.registerTaskOutputs c t args = some m') :
    Linked c m' ∧ m'.Producers P ∧ m'.lastTaskAlives = m.lastTaskAlives ∧
      m'.lastCleanup = m.lastCleanup := by
  induction args generalizing m with
  | nil =>
    cases hr
    exact ⟨h, hP, rfl, rfl⟩
  | cons a rest ih =>
    unfold registerTaskOutputs at hr
    split at hr
    · obtain ⟨m₁, hi, hrest⟩ := Option.bind_eq_some_iff.mp hr
      obtain ⟨h₁, hP₁, halive, hcleanup⟩ := insert_spec h hP ht hi
      obtain ⟨h₂, hP₂, halive₂, hcleanup₂⟩ := ih h₁ hP₁ hrest
      exact ⟨h₂, hP₂, halive₂.trans halive, hcleanup₂.trans hcleanup⟩
    · exact ih h hP hr

end TensorMap

end PtoRuntime.Tmrb
