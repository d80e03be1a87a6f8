import PtoRuntime.Lib.Counting
import PtoRuntime.Lib.Reach
import PtoRuntime.Lib.Sole

/-!
# Persistent CUDA executor — the ready ring and the completion ring

One of the two rings by itself, with any number of blocks that push to it and pop from it, and with
any capacity: `queue_capacity` is only checked to be positive. Every atomic operation is a step, and
so is each access to a cell. Tickets and flags are 32-bit words.

A pusher waits until the flag of its slot is zero. The flag of a slot is zero before the first push
to it as well as after a pop, so a pusher cannot tell whether the pusher one round before has
written yet.

Main results: `ring_delivers_in_turn`, `ring_overwrites_unread`.
-/

namespace PtoRuntime.Cuda

open Lib Function List Option

/-- The rings differ in how a popper gets its ticket. -/
inductive RingKind
  | ready
  | completion
  deriving DecidableEq, Repr

structure RingConfig where
  kind : RingKind
  queueCapacity : Nat
  capacity_pos : 0 < queueCapacity
  taskCount : Nat

/-- Inside `pto_dag_push_ready` or `pto_dag_push_completion`. -/
inductive RingPushPc
  | idle
  | wait (id ticket : Nat)
  | write (id ticket : Nat)
  | publish (id ticket : Nat)
  deriving DecidableEq, Repr

/-- Inside `pto_dag_pop_ready` or `pto_dag_try_pop_completion`. -/
inductive RingPopPc
  | idle
  | head
  | tail (head : Nat)
  | cas (head : Nat)
  | wait (ticket : Nat)
  | error (ticket : Nat)
  | read (ticket : Nat)
  | clear (ticket id : Nat)
  deriving DecidableEq, Repr

structure Ring where
  head : Nat
  tail : Nat
  cells : Nat → Nat
  flags : Nat → Nat
  errorCount : Nat
  pusher : Nat → RingPushPc
  popper : Nat → RingPopPc
  /-- history: the ids in the order of their tickets -/
  pushed : List Nat
  /-- history: the tickets whose flag has been raised -/
  published : List Nat
  /-- history: slots with an id that nobody has read -/
  unread : Nat → Bool
  /-- history: tickets and the ids returned for them -/
  popped : List (Nat × Nat)

namespace Ring

inductive Act
  /-- a block begins to push an id -/
  | push (p id : Nat)
  | pusher (p : Nat)
  /-- a block begins to pop -/
  | pop (q : Nat)
  | popper (q : Nat)
  /-- `pto_dag_record_error` -/
  | fail
  deriving DecidableEq, Repr

def init (cells : Nat → Nat) : Ring where
  head := 0
  tail := 0
  cells := cells
  flags _ := 0
  errorCount := 0
  pusher _ := .idle
  popper _ := .idle
  pushed := []
  published := []
  unread _ := false
  popped := []

def setPusher (s : Ring) (p : Nat) (pc : RingPushPc) : Ring :=
  { s with pusher := update s.pusher p pc }

def setPopper (s : Ring) (q : Nat) (pc : RingPopPc) : Ring :=
  { s with popper := update s.popper q pc }

/-- `atomicAdd(tail, 1)`. -/
def drawTail (s : Ring) (p id : Nat) : Ring :=
  { s.setPusher p (.wait id s.tail) with
    tail := (s.tail + 1) % 2 ^ 32
    pushed := s.pushed ++ [id] }

/-- The plain store of the id. -/
def writeCell (s : Ring) (p id ticket slot : Nat) : Ring :=
  { s.setPusher p (.publish id ticket) with
    cells := update s.cells slot id
    unread := update s.unread slot true }

/-- `atomicExch(&flags[slot], ticket + 1)`. -/
def raiseFlag (s : Ring) (p ticket slot : Nat) : Ring :=
  { s.setPusher p .idle with
    flags := update s.flags slot ((ticket + 1) % 2 ^ 32)
    published := ticket :: s.published }

/-- A popper gets the ticket at the head. -/
def drawHead (s : Ring) (q : Nat) (pc : RingPopPc) : Ring :=
  { s.setPopper q pc with head := (s.head + 1) % 2 ^ 32 }

/-- The plain load of the id. -/
def readCell (s : Ring) (q ticket slot : Nat) : Ring :=
  { s.setPopper q (.clear ticket (s.cells slot)) with
    unread := update s.unread slot false }

/-- `atomicExch(&flags[slot], 0)`, and the return. -/
def clearFlag (s : Ring) (q ticket id slot : Nat) : Ring :=
  { s.setPopper q .idle with
    flags := update s.flags slot 0
    popped := (ticket, id) :: s.popped }

variable (c : RingConfig)

def stepPusher (s : Ring) (p : Nat) : Option Ring :=
  match s.pusher p with
  | .idle => none
  | .wait id t =>
    -- spins until the flag is zero
    if s.flags (t % c.queueCapacity) = 0 then some (s.setPusher p (.write id t)) else none
  | .write id t => some (s.writeCell p id t (t % c.queueCapacity))
  | .publish _ t => some (s.raiseFlag p t (t % c.queueCapacity))

/-- The call of a popper; `pto_dag_pop_ready` takes its ticket at once. -/
def startPop (s : Ring) (q : Nat) : Ring :=
  match c.kind with
  | .ready => s.drawHead q (if c.taskCount ≤ s.head then .idle else .wait s.head)
  | .completion => s.setPopper q .head

def stepPopper (s : Ring) (q : Nat) : Option Ring :=
  match s.popper q with
  | .idle => none
  | .head => some (s.setPopper q (.tail s.head))
  | .tail head =>
    some (s.setPopper q (if c.taskCount ≤ head ∨ s.tail ≤ head then .idle else .cas head))
  | .cas head => some (if s.head = head then s.drawHead q (.wait head) else s.setPopper q .head)
  | .wait t =>
    some (s.setPopper q
      (if s.flags (t % c.queueCapacity) = (t + 1) % 2 ^ 32 then .read t else .error t))
  | .error t => some (s.setPopper q (if s.errorCount ≠ 0 then .idle else .wait t))
  | .read t => some (s.readCell q t (t % c.queueCapacity))
  | .clear t id => some (s.clearFlag q t id (t % c.queueCapacity))

def step (s : Ring) : Act → Option Ring
  | .push p id => if s.pusher p = .idle then some (s.drawTail p id) else none
  | .pusher p => s.stepPusher c p
  | .pop q => if s.popper q = .idle then some (s.startPop c q) else none
  | .popper q => s.stepPopper c q
  | .fail => some { s with errorCount := 1 }

/-! ## What the rings are for -/

/-- Whoever is about to write to a slot finds no unread id in it, and what was popped for a ticket
is what was pushed with it, once. -/
structure Delivers (s : Ring) : Prop where
  free : ∀ p id t, s.pusher p = .write id t → s.unread (t % c.queueCapacity) = false
  same : ∀ t id, (t, id) ∈ s.popped → s.pushed[t]? = some id
  once : (s.popped.map Prod.fst).Nodup

/-- All earlier tickets of the slot of `t` have been published. -/
def Turn (s : Ring) (t : Nat) : Prop :=
  ∀ t' < t, t' % c.queueCapacity = t % c.queueCapacity → t' ∈ s.published

instance (s : Ring) (t : Nat) : Decidable (s.Turn c t) :=
  inferInstanceAs (Decidable (∀ t' < t, _ → _))

/-- A pusher goes on only when it is its turn, and no ticket counter wraps around. -/
def InTurn (s : Ring) : Act → Prop
  | .push _ _ => s.tail + 1 < 2 ^ 32
  | .pusher p =>
    match s.pusher p with
    | .wait _ t => s.flags (t % c.queueCapacity) = 0 → s.Turn c t
    | .idle | .write _ _ | .publish _ _ => True
  | .pop _ => s.head + 1 < 2 ^ 32
  | .popper _ | .fail => True

instance : DecidableRel (InTurn c) := fun s a =>
  match a with
  | .push _ _ => inferInstanceAs (Decidable (s.tail + 1 < 2 ^ 32))
  | .pusher p =>
    match h : s.pusher p with
    | .wait _ t =>
      decidable_of_iff (s.flags (t % c.queueCapacity) = 0 → s.Turn c t) (by simp only [InTurn, h])
    | .idle | .write _ _ | .publish _ _ => .isTrue (by simp only [InTurn, h])
  | .pop _ => inferInstanceAs (Decidable (s.head + 1 < 2 ^ 32))
  | .popper _ | .fail => inferInstanceAs (Decidable True)

end Ring

/-! ## The blocks -/

/-- The ticket a pusher has drawn and not published. -/
def RingPushPc.Holds : RingPushPc → Nat → Prop
  | .idle, _ => False
  | .wait _ t, t' | .write _ t, t' | .publish _ t, t' => t = t'

/-- The pusher has left its wait. -/
def RingPushPc.Writes : RingPushPc → Nat → Prop
  | .idle, _ | .wait _ _, _ => False
  | .write _ t, t' | .publish _ t, t' => t = t'

theorem RingPushPc.holds_of_writes {pc : RingPushPc} {t : Nat} (h : pc.Writes t) : pc.Holds t := by
  cases pc with
  | idle | wait id i => exact h.elim
  | write id i | publish id i => exact h

/-- The ticket a popper has drawn and not returned with. -/
def RingPopPc.Holds : RingPopPc → Nat → Prop
  | .idle, _ | .head, _ | .tail _, _ | .cas _, _ => False
  | .wait t, t' | .error t, t' | .read t, t' | .clear t _, t' => t = t'

namespace Ring

variable {c : RingConfig} {s s' : Ring} {p q t id : Nat}

/-- The tickets for which an id was returned. -/
def Returned (s : Ring) (t : Nat) : Prop := t ∈ s.popped.map Prod.fst

def PushOk (c : RingConfig) (s : Ring) : RingPushPc → Prop
  | .idle => True
  | .wait id t => s.pushed[t]? = some id ∧ t ∉ s.published
  | .write id t =>
    s.pushed[t]? = some id ∧ t ∉ s.published ∧ s.flags (t % c.queueCapacity) = 0 ∧ s.Turn c t
  | .publish id t =>
    s.pushed[t]? = some id ∧ t ∉ s.published ∧ s.flags (t % c.queueCapacity) = 0 ∧ s.Turn c t ∧
      s.cells (t % c.queueCapacity) = id

def PopOk (c : RingConfig) (s : Ring) : RingPopPc → Prop
  | .idle | .head | .tail _ => True
  | .cas head => head < s.tail
  | .wait t | .error t => t < s.head ∧ ¬ s.Returned t
  | .read t => t < s.head ∧ ¬ s.Returned t ∧ s.flags (t % c.queueCapacity) = t + 1
  | .clear t id =>
    t < s.head ∧ ¬ s.Returned t ∧ s.flags (t % c.queueCapacity) = t + 1 ∧ s.pushed[t]? = some id ∧
      s.unread (t % c.queueCapacity) = false

/-- A raised flag stands for a ticket that was published and not popped, and whose id is in the
cell. -/
def Raised (c : RingConfig) (s : Ring) (k t : Nat) : Prop :=
  s.flags k = t + 1 ∧ t % c.queueCapacity = k ∧ t ∈ s.published ∧ s.pushed[t]? = some (s.cells k)

structure Inv (c : RingConfig) (s : Ring) : Prop where
  tail_eq : s.tail = s.pushed.length
  tail_lt : s.tail < 2 ^ 32
  head_lt : s.head < 2 ^ 32
  pushers : ∀ p, PushOk c s (s.pusher p)
  poppers : ∀ q, PopOk c s (s.popper q)
  pushTickets : Sole RingPushPc.Holds s.pusher
  popTickets : Sole RingPopPc.Holds s.popper
  raised : ∀ k, s.flags k ≠ 0 → ∃ t, Raised c s k t
  published_lt : ∀ t ∈ s.published, t < s.pushed.length
  -- a published ticket stays in its slot until it has been popped
  kept : ∀ t ∈ s.published, s.flags (t % c.queueCapacity) = t + 1 ∨ s.Returned t
  returned : ∀ t, s.Returned t → t ∈ s.published ∧ t < s.head
  unread : ∀ k, s.unread k = true →
    s.flags k ≠ 0 ∨ ∃ p id t, s.pusher p = .publish id t ∧ t % c.queueCapacity = k
  same : ∀ t id, (t, id) ∈ s.popped → s.pushed[t]? = some id
  once : (s.popped.map Prod.fst).Nodup

theorem inv_init (cells : Nat → Nat) : Inv c (init cells) where
  tail_eq := rfl
  tail_lt := Nat.two_pow_pos 32
  head_lt := Nat.two_pow_pos 32
  pushers _ := trivial
  poppers _ := trivial
  pushTickets := .of_none fun _ _ => id
  popTickets := .of_none fun _ _ => id
  raised _ h := absurd rfl h
  published_lt _ h := nomatch h
  kept _ h := nomatch h
  returned _ h := nomatch h
  unread _ h := nomatch h
  same _ _ h := nomatch h
  once := .nil

/-! ## Pushers -/

theorem PushOk.holds {pc : RingPushPc} (h : PushOk c s pc) (ht : pc.Holds t) :
    t < s.pushed.length ∧ t ∉ s.published := by
  cases pc with
  | idle => exact ht.elim
  | wait id i =>
    cases ht
    exact ⟨(List.getElem?_eq_some_iff.mp h.1).1, h.2⟩
  | write id i | publish id i =>
    cases ht
    exact ⟨(List.getElem?_eq_some_iff.mp h.1).1, h.2.1⟩

theorem PushOk.writes {pc : RingPushPc} (h : PushOk c s pc) (ht : pc.Writes t) :
    t ∉ s.published ∧ s.flags (t % c.queueCapacity) = 0 ∧ s.Turn c t := by
  cases pc with
  | idle | wait id i => exact ht.elim
  | write id i =>
    cases ht
    exact ⟨h.2.1, h.2.2.1, h.2.2.2⟩
  | publish id i =>
    cases ht
    exact ⟨h.2.1, h.2.2.1, h.2.2.2.1⟩

/-- **One writer for each slot.** Of two, the later one would have had to wait until the earlier one
had published. -/
theorem Inv.slot_ne (h : Inv c s) {p' t' : Nat} (hp : (s.pusher p).Writes t)
    (hp' : (s.pusher p').Writes t') (hne : p' ≠ p) :
    t' % c.queueCapacity ≠ t % c.queueCapacity := by
  intro hslot
  obtain ⟨hunpublished, -, hturn⟩ := (h.pushers p).writes hp
  obtain ⟨hunpublished', -, hturn'⟩ := (h.pushers p').writes hp'
  rcases Nat.lt_trichotomy t t' with hlt | heq | hgt
  · exact hunpublished (hturn' t hlt hslot.symm)
  · subst heq
    exact hne (h.pushTickets p' p t (RingPushPc.holds_of_writes hp')
      (RingPushPc.holds_of_writes hp))
  · exact hunpublished' (hturn t' hgt hslot)

/-- What a pusher relies on, while others move. -/
theorem PushOk.frame {pc : RingPushPc} (h : PushOk c s pc)
    (hpushed : ∀ t x : Nat, s.pushed[t]? = some x → s'.pushed[t]? = some x)
    (hpublished : s.published ⊆ s'.published)
    (hholds : ∀ t, pc.Holds t → t ∉ s.published → t ∉ s'.published)
    (hslot : ∀ t, pc.Writes t → s'.flags (t % c.queueCapacity) = s.flags (t % c.queueCapacity) ∧
      s'.cells (t % c.queueCapacity) = s.cells (t % c.queueCapacity)) : PushOk c s' pc := by
  cases pc with
  | idle => trivial
  | wait id i => exact ⟨hpushed i id h.1, hholds i rfl h.2⟩
  | write id i =>
    obtain ⟨hid, hnot, hflag, hturn⟩ := h
    exact ⟨hpushed i id hid, hholds i rfl hnot, (hslot i rfl).1.trans hflag,
      fun j hj hmod => hpublished (hturn j hj hmod)⟩
  | publish id i =>
    obtain ⟨hid, hnot, hflag, hturn, hcell⟩ := h
    exact ⟨hpushed i id hid, hholds i rfl hnot, (hslot i rfl).1.trans hflag,
      fun j hj hmod => hpublished (hturn j hj hmod), (hslot i rfl).2.trans hcell⟩

/-- What a popper relies on, while others move. -/
theorem PopOk.frame {pc : RingPopPc} (h : PopOk c s pc)
    (hpushed : ∀ t x : Nat, s.pushed[t]? = some x → s'.pushed[t]? = some x)
    (htail : s.tail ≤ s'.tail) (hhead : s.head ≤ s'.head)
    (hreturned : ∀ t, pc.Holds t → ¬ s.Returned t → ¬ s'.Returned t)
    (hslot : ∀ t, pc.Holds t → s.flags (t % c.queueCapacity) = t + 1 →
      s'.flags (t % c.queueCapacity) = t + 1 ∧
        (s.unread (t % c.queueCapacity) = false → s'.unread (t % c.queueCapacity) = false)) :
    PopOk c s' pc := by
  cases pc with
  | idle | head | tail i => trivial
  | cas i => exact lt_of_lt_of_le h htail
  | wait i | error i => exact ⟨lt_of_lt_of_le h.1 hhead, hreturned i rfl h.2⟩
  | read i =>
    obtain ⟨hlt, hnot, hflag⟩ := h
    exact ⟨lt_of_lt_of_le hlt hhead, hreturned i rfl hnot, (hslot i rfl hflag).1⟩
  | clear i id =>
    obtain ⟨hlt, hnot, hflag, hid, hread⟩ := h
    exact ⟨lt_of_lt_of_le hlt hhead, hreturned i rfl hnot, (hslot i rfl hflag).1,
      hpushed i id hid, (hslot i rfl hflag).2 hread⟩

/-- Unread ids stay accounted for when a pusher moves on that is not about to publish. -/
theorem Inv.unread_move (h : Inv c s) {pc pc' : RingPushPc} (hp : s.pusher p = pc)
    (hpc : ∀ id t, pc ≠ .publish id t) (k : Nat) (hk : s.unread k = true) :
    s.flags k ≠ 0 ∨ ∃ p' id t, update s.pusher p pc' p' = .publish id t ∧
      t % c.queueCapacity = k := by
  refine (h.unread k hk).imp_right ?_
  rintro ⟨p', id, t, hpub, hslot⟩
  refine ⟨p', id, t, ?_, hslot⟩
  rw [update_of_ne, hpub]
  rintro rfl
  exact hpc id t (hp.symm.trans hpub)

theorem Inv.drawTail (h : Inv c s) (hp : s.pusher p = .idle) (hroom : s.tail + 1 < 2 ^ 32) :
    Inv c (s.drawTail p id) := by
  have htail : (s.drawTail p id).tail = s.tail + 1 := Nat.mod_eq_of_lt hroom
  have hlength : (s.drawTail p id).pushed.length = s.pushed.length + 1 := length_append
  have hgrow (t x : Nat) (hx : s.pushed[t]? = some x) : (s.drawTail p id).pushed[t]? = some x :=
    getElem?_concat_of_some hx
  -- nobody has had the new ticket before
  have hfresh : s.tail ∉ s.published := by
    intro hmem
    have := h.published_lt _ hmem
    have := h.tail_eq
    omega
  refine { h with tail_eq := ?_, tail_lt := ?_, pushers := ?_, poppers := ?_, pushTickets := ?_,
                  raised := ?_, published_lt := ?_, unread := h.unread_move hp nofun, same := ?_ }
  · rw [htail, hlength, h.tail_eq]
  · rw [htail]
    exact hroom
  · refine (forall_update_iff s.pusher fun _ pc => PushOk c _ pc).mpr ⟨⟨?_, hfresh⟩, ?_⟩
    · rw [Ring.drawTail, h.tail_eq, getElem?_concat_length]
    · intro p' _
      have hok : PushOk c s (s.pusher p') := h.pushers p'
      exact hok.frame hgrow (Subset.refl _) (fun _ _ hnot => hnot) fun _ _ => ⟨rfl, rfl⟩
  · intro q
    have hok : PopOk c s (s.popper q) := h.poppers q
    exact hok.frame hgrow (by rw [htail]; omega) le_rfl (fun _ _ hnot => hnot)
      fun _ _ hflag => ⟨hflag, fun hread => hread⟩
  · refine h.pushTickets.update fun t ht => .inr ?_
    cases ht
    intro p' hp'
    have hok : PushOk c s (s.pusher p') := h.pushers p'
    have := (hok.holds hp').1
    have := h.tail_eq
    omega
  · intro k hk
    obtain ⟨t, hflag, hslot, hpub, hcell⟩ := h.raised k hk
    exact ⟨t, hflag, hslot, hpub, hgrow t _ hcell⟩
  · intro t ht
    rw [hlength]
    exact Nat.lt_succ_of_lt (h.published_lt t ht)
  · intro t i hmem
    exact hgrow t i (h.same t i hmem)

/-- A pusher leaves its wait. -/
theorem Inv.leaveWait (h : Inv c s) (hp : s.pusher p = .wait id t)
    (hflag : s.flags (t % c.queueCapacity) = 0) (hturn : s.Turn c t) :
    Inv c (s.setPusher p (.write id t)) := by
  have hok : PushOk c s (s.pusher p) := h.pushers p
  rw [hp] at hok
  refine { h with
    pushers := (forall_update_iff s.pusher fun _ pc => PushOk c s pc).mpr
      ⟨⟨hok.1, hok.2, hflag, hturn⟩, fun p' _ => h.pushers p'⟩
    pushTickets := h.pushTickets.update fun t' ht' => .inl ?_
    unread := h.unread_move hp nofun }
  rw [hp]
  exact ht'

/-- The slot of a pusher that is about to write holds no unread id. -/
theorem Inv.unread_eq_false (h : Inv c s) (hp : s.pusher p = .write id t) :
    s.unread (t % c.queueCapacity) = false := by
  have hwrites : (s.pusher p).Writes t := hp ▸ rfl
  by_contra hunread
  rcases h.unread _ (Bool.not_eq_false _ ▸ hunread) with hflag | ⟨p', i, t', hpub, hslot⟩
  · exact hflag ((h.pushers p).writes hwrites).2.1
  · have hwrites' : (s.pusher p').Writes t' := hpub ▸ rfl
    have hne : p' ≠ p := by
      rintro rfl
      rw [hp] at hpub
      cases hpub
    exact h.slot_ne hwrites hwrites' hne hslot

theorem Inv.writeCell (h : Inv c s) (hp : s.pusher p = .write id t) :
    Inv c (s.writeCell p id t (t % c.queueCapacity)) := by
  have hwrites : (s.pusher p).Writes t := hp ▸ rfl
  have hok : PushOk c s (s.pusher p) := h.pushers p
  have hflag : s.flags (t % c.queueCapacity) = 0 := (hok.writes hwrites).2.1
  rw [hp] at hok
  -- other slots are as before
  have hcells {k : Nat} (hk : k ≠ t % c.queueCapacity) :
      (s.writeCell p id t (t % c.queueCapacity)).cells k = s.cells k := update_of_ne hk ..
  have hunread {k : Nat} (hk : k ≠ t % c.queueCapacity) :
      (s.writeCell p id t (t % c.queueCapacity)).unread k = s.unread k := update_of_ne hk ..
  refine { h with pushers := ?_, poppers := ?_, pushTickets := ?_, raised := ?_, unread := ?_ }
  · refine (forall_update_iff s.pusher fun _ pc => PushOk c _ pc).mpr
      ⟨⟨hok.1, hok.2.1, hflag, hok.2.2.2, update_self ..⟩, ?_⟩
    intro p' hne
    have hok' : PushOk c s (s.pusher p') := h.pushers p'
    exact hok'.frame (fun _ _ hx => hx) (Subset.refl _) (fun _ _ hnot => hnot)
      fun t' ht' => ⟨rfl, hcells (h.slot_ne hwrites ht' hne)⟩
  · intro q
    have hok' : PopOk c s (s.popper q) := h.poppers q
    refine hok'.frame (fun _ _ hx => hx) le_rfl le_rfl (fun _ _ hnot => hnot) ?_
    intro t' _ hflag'
    refine ⟨hflag', fun hread => ?_⟩
    rw [hunread]
    · exact hread
    · intro hslot
      rw [hslot, hflag] at hflag'
      cases hflag'
  · refine h.pushTickets.update fun t' ht' => .inl ?_
    rw [hp]
    exact ht'
  · intro k hk
    obtain ⟨t', hflag', hslot, hpub, hcell⟩ := h.raised k hk
    refine ⟨t', hflag', hslot, hpub, ?_⟩
    rw [hcells]
    · exact hcell
    · rintro rfl
      exact hk hflag
  · intro k hk
    by_cases heq : k = t % c.queueCapacity
    · exact .inr ⟨p, id, t, update_self .., heq.symm⟩
    · rw [hunread heq] at hk
      exact h.unread_move hp nofun k hk

theorem Inv.raiseFlag (h : Inv c s) (hp : s.pusher p = .publish id t) :
    Inv c (s.raiseFlag p t (t % c.queueCapacity)) := by
  have hwrites : (s.pusher p).Writes t := hp ▸ rfl
  have hok : PushOk c s (s.pusher p) := h.pushers p
  obtain ⟨hlt, hunpublished⟩ := hok.holds (RingPushPc.holds_of_writes hwrites)
  have hzero : s.flags (t % c.queueCapacity) = 0 := (hok.writes hwrites).2.1
  rw [hp] at hok
  have hword : (t + 1) % 2 ^ 32 = t + 1 := by
    have := h.tail_eq
    have := h.tail_lt
    exact Nat.mod_eq_of_lt (by omega)
  have hflag : (s.raiseFlag p t (t % c.queueCapacity)).flags (t % c.queueCapacity) = t + 1 :=
    (update_self ..).trans hword
  have hflags {k : Nat} (hk : k ≠ t % c.queueCapacity) :
      (s.raiseFlag p t (t % c.queueCapacity)).flags k = s.flags k := update_of_ne hk ..
  refine { h with pushers := ?_, poppers := ?_, pushTickets := ?_, raised := ?_, published_lt := ?_,
                  kept := ?_, returned := ?_, unread := ?_ }
  · refine (forall_update_iff s.pusher fun _ pc => PushOk c _ pc).mpr ⟨trivial, ?_⟩
    intro p' hne
    have hok' : PushOk c s (s.pusher p') := h.pushers p'
    refine hok'.frame (fun _ _ hx => hx) (subset_cons_self _ _) ?_
      fun t' ht' => ⟨hflags (h.slot_ne hwrites ht' hne), rfl⟩
    intro t' ht' hnot hmem
    rcases mem_cons.mp hmem with rfl | hmem
    · exact h.pushTickets.not_holds (RingPushPc.holds_of_writes hwrites) hne ht'
    · exact hnot hmem
  · intro q
    have hok' : PopOk c s (s.popper q) := h.poppers q
    refine hok'.frame (fun _ _ hx => hx) le_rfl le_rfl (fun _ _ hnot => hnot) ?_
    intro t' _ hflag'
    refine ⟨?_, fun hread => hread⟩
    rw [hflags]
    · exact hflag'
    · intro hslot
      rw [hslot, hzero] at hflag'
      cases hflag'
  · exact h.pushTickets.update fun t' ht' => ht'.elim
  · intro k hk
    by_cases heq : k = t % c.queueCapacity
    · subst heq
      refine ⟨t, hflag, rfl, mem_cons_self, ?_⟩
      rw [show (s.raiseFlag p t (t % c.queueCapacity)).cells = s.cells from rfl, hok.2.2.2.2]
      exact hok.1
    · rw [hflags heq] at hk
      obtain ⟨t', hflag', hslot, hpub, hcell⟩ := h.raised k hk
      exact ⟨t', (hflags heq).trans hflag', hslot, mem_cons_of_mem _ hpub, hcell⟩
  · intro t' ht'
    rcases mem_cons.mp ht' with rfl | ht'
    · exact hlt
    · exact h.published_lt t' ht'
  · intro t' ht'
    rcases mem_cons.mp ht' with rfl | ht'
    · exact .inl hflag
    · by_cases heq : t' % c.queueCapacity = t % c.queueCapacity
      · -- the flag was down, so the earlier ticket has been popped
        refine .inr ((h.kept t' ht').resolve_left fun hflag' => ?_)
        rw [heq, hzero] at hflag'
        cases hflag'
      · rw [hflags heq]
        exact h.kept t' ht'
  · intro t' ht'
    exact ⟨mem_cons_of_mem _ (h.returned t' ht').1, (h.returned t' ht').2⟩
  · intro k hk
    by_cases heq : k = t % c.queueCapacity
    · subst heq
      refine .inl ?_
      rw [hflag]
      exact Nat.succ_ne_zero t
    · rcases h.unread k hk with hflag' | ⟨p', i, t', hpub, hslot⟩
      · exact .inl (by rwa [hflags heq])
      · refine .inr ⟨p', i, t', ?_, hslot⟩
        have hne : p' ≠ p := by
          rintro rfl
          rw [hp] at hpub
          cases hpub
          exact heq hslot.symm
        exact (update_of_ne hne ..).trans hpub

/-! ## Poppers -/

theorem PopOk.holds {pc : RingPopPc} (h : PopOk c s pc) (ht : pc.Holds t) :
    t < s.head ∧ ¬ s.Returned t := by
  cases pc with
  | idle | head | tail i | cas i => exact ht.elim
  | wait i | error i =>
    cases ht
    exact h
  | read i | clear i id =>
    cases ht
    exact ⟨h.1, h.2.1⟩

/-- A popper moves on and draws no ticket. -/
theorem Inv.setPopper (h : Inv c s) {pc : RingPopPc} (hok : PopOk c s pc)
    (hholds : ∀ t, pc.Holds t → (s.popper q).Holds t) : Inv c (s.setPopper q pc) := by
  exact { h with
    poppers := (forall_update_iff s.popper fun _ pc => PopOk c s pc).mpr
      ⟨hok, fun q' _ => h.poppers q'⟩
    popTickets := h.popTickets.update fun t ht => .inl (hholds t ht) }

theorem Inv.drawHead (h : Inv c s) {pc : RingPopPc} (hpc : pc = .idle ∨ pc = .wait s.head)
    (hroom : s.head + 1 < 2 ^ 32) : Inv c (s.drawHead q pc) := by
  have hhead : (s.drawHead q pc).head = s.head + 1 := Nat.mod_eq_of_lt hroom
  -- the ticket is new
  have hfresh : ¬ s.Returned s.head := fun hret => lt_irrefl _ (h.returned _ hret).2
  refine { h with head_lt := ?_, poppers := ?_, popTickets := ?_, returned := ?_ }
  · rw [hhead]
    exact hroom
  · refine (forall_update_iff s.popper fun _ pc => PopOk c _ pc).mpr ⟨?_, ?_⟩
    · rcases hpc with rfl | rfl
      · trivial
      · exact ⟨by rw [hhead]; exact Nat.lt_succ_self _, hfresh⟩
    · intro q' _
      have hok : PopOk c s (s.popper q') := h.poppers q'
      exact hok.frame (fun _ _ hx => hx) le_rfl (by rw [hhead]; exact Nat.le_succ _)
        (fun _ _ hnot => hnot) fun _ _ hflag => ⟨hflag, fun hread => hread⟩
  · refine h.popTickets.update fun t ht => .inr fun q' hq' => ?_
    have hok : PopOk c s (s.popper q') := h.poppers q'
    have hlt := (hok.holds hq').1
    rcases hpc with rfl | rfl
    · exact ht
    · cases ht
      exact lt_irrefl _ hlt
  · intro t ht
    rw [hhead]
    exact ⟨(h.returned t ht).1, Nat.lt_succ_of_lt (h.returned t ht).2⟩

theorem Inv.readCell (h : Inv c s) (hq : s.popper q = .read t) :
    Inv c (s.readCell q t (t % c.queueCapacity)) := by
  have hok : PopOk c s (s.popper q) := h.poppers q
  rw [hq] at hok
  obtain ⟨hlt, hnot, hflag⟩ := hok
  have hunread {k : Nat} (hk : s.unread k = false) :
      (s.readCell q t (t % c.queueCapacity)).unread k = false := by
    show update s.unread _ false k = false
    rw [update_apply, hk, ite_self]
  refine { h with poppers := ?_, popTickets := ?_, unread := ?_ }
  · refine (forall_update_iff s.popper fun _ pc => PopOk c _ pc).mpr
      ⟨⟨hlt, hnot, hflag, ?_, update_self ..⟩, ?_⟩
    · obtain ⟨t', hflag', -, -, hcell⟩ := h.raised (t % c.queueCapacity) (by omega)
      have heq : t' = t := by omega
      rw [← heq] at hcell ⊢
      exact hcell
    · intro q' _
      have hok' : PopOk c s (s.popper q') := h.poppers q'
      exact hok'.frame (fun _ _ hx => hx) le_rfl le_rfl (fun _ _ hnot => hnot)
        fun _ _ hflag => ⟨hflag, hunread⟩
  · refine h.popTickets.update fun t' ht' => .inl ?_
    rw [hq]
    exact ht'
  · intro k hk
    refine h.unread k ?_
    by_contra hread
    rw [hunread (Bool.not_eq_true _ ▸ hread)] at hk
    cases hk

theorem Inv.clearFlag (h : Inv c s) (hq : s.popper q = .clear t id) :
    Inv c (s.clearFlag q t id (t % c.queueCapacity)) := by
  have hholds : (s.popper q).Holds t := hq ▸ rfl
  have hok : PopOk c s (s.popper q) := h.poppers q
  rw [hq] at hok
  obtain ⟨hlt, hnot, hflag, hid, hread⟩ := hok
  have hpublished : t ∈ s.published := by
    obtain ⟨t', hflag', -, hpub, -⟩ := h.raised (t % c.queueCapacity) (by omega)
    have heq : t' = t := by omega
    exact heq ▸ hpub
  have hzero : (s.clearFlag q t id (t % c.queueCapacity)).flags (t % c.queueCapacity) = 0 :=
    update_self ..
  have hflags {k : Nat} (hk : k ≠ t % c.queueCapacity) :
      (s.clearFlag q t id (t % c.queueCapacity)).flags k = s.flags k := update_of_ne hk ..
  have hreturned (t' : Nat) : (s.clearFlag q t id (t % c.queueCapacity)).Returned t' ↔
      t' = t ∨ s.Returned t' := mem_cons
  refine { h with pushers := ?_, poppers := ?_, popTickets := ?_, raised := ?_, kept := ?_,
                  returned := ?_, unread := ?_, same := ?_, once := ?_ }
  · intro p
    have hok' : PushOk c s (s.pusher p) := h.pushers p
    refine hok'.frame (fun _ _ hx => hx) (Subset.refl _) (fun _ _ hnot => hnot) ?_
    intro t' ht'
    refine ⟨hflags fun hslot => ?_, rfl⟩
    have := (hok'.writes ht').2.1
    rw [hslot, hflag] at this
    cases this
  · refine (forall_update_iff s.popper fun _ pc => PopOk c _ pc).mpr ⟨trivial, ?_⟩
    intro q' hne
    have hok' : PopOk c s (s.popper q') := h.poppers q'
    have hother (t' : Nat) (ht' : (s.popper q').Holds t') : t' ≠ t := by
      rintro rfl
      exact h.popTickets.not_holds hholds hne ht'
    refine hok'.frame (fun _ _ hx => hx) le_rfl le_rfl ?_ ?_
    · intro t' ht' hnot' hret
      exact ((hreturned t').mp hret).elim (hother t' ht') hnot'
    · intro t' ht' hflag'
      refine ⟨?_, fun hread => hread⟩
      rw [hflags]
      · exact hflag'
      · intro hslot
        rw [hslot, hflag] at hflag'
        exact hother t' ht' (by omega)
  · exact h.popTickets.update fun t' ht' => ht'.elim
  · intro k hk
    have heq : k ≠ t % c.queueCapacity := by
      rintro rfl
      exact hk hzero
    rw [hflags heq] at hk
    obtain ⟨t', hflag', hrest⟩ := h.raised k hk
    exact ⟨t', (hflags heq).trans hflag', hrest⟩
  · intro t' ht'
    rw [hreturned]
    by_cases heq : t' % c.queueCapacity = t % c.queueCapacity
    · refine .inr ?_
      rcases h.kept t' ht' with hflag' | hret
      · rw [heq, hflag] at hflag'
        exact .inl (by omega)
      · exact .inr hret
    · rw [hflags heq]
      exact (h.kept t' ht').imp_right .inr
  · intro t' ht'
    rcases (hreturned t').mp ht' with rfl | hret
    · exact ⟨hpublished, hlt⟩
    · exact h.returned t' hret
  · intro k hk
    have heq : k ≠ t % c.queueCapacity := by
      rintro rfl
      cases hread.symm.trans hk
    rw [hflags heq]
    exact h.unread k hk
  · intro t' id' hmem
    rcases mem_cons.mp hmem with heq | hmem
    · cases heq
      exact hid
    · exact h.same t' id' hmem
  · exact nodup_cons.mpr ⟨hnot, h.once⟩

/-! ## Runs -/

/-- A step of a pusher, in its turn. -/
theorem Inv.stepPusher (h : Inv c s) (hok : InTurn c s (.pusher p))
    (hstep : s.stepPusher c p = some s') : Inv c s' := by
  obtain ⟨pc, hpc⟩ : ∃ pc, s.pusher p = pc := ⟨_, rfl⟩
  rw [Ring.stepPusher, hpc] at hstep
  cases pc with
  | idle => cases hstep
  | wait id t =>
    obtain ⟨hflag, hstep⟩ := ite_none_right_eq_some.mp hstep
    cases hstep
    rw [InTurn, hpc] at hok
    exact h.leaveWait hpc hflag (hok hflag)
  | write id t =>
    cases hstep
    exact h.writeCell hpc
  | publish id t =>
    cases hstep
    exact h.raiseFlag hpc

theorem Inv.startPop (h : Inv c s) (hroom : s.head + 1 < 2 ^ 32) : Inv c (s.startPop c q) := by
  rw [Ring.startPop]
  split
  · exact h.drawHead (by split <;> simp) hroom
  · exact h.setPopper trivial fun _ ht => ht.elim

/-- A step of a popper. -/
theorem Inv.stepPopper (h : Inv c s) (hstep : s.stepPopper c q = some s') : Inv c s' := by
  obtain ⟨pc, hpc⟩ : ∃ pc, s.popper q = pc := ⟨_, rfl⟩
  have hok : PopOk c s pc := hpc ▸ h.poppers q
  have hholds {t : Nat} (ht : pc.Holds t) : (s.popper q).Holds t := hpc ▸ ht
  rw [Ring.stepPopper, hpc] at hstep
  cases pc with
  | idle => cases hstep
  | head =>
    cases hstep
    exact h.setPopper trivial fun _ ht => ht.elim
  | tail head =>
    cases hstep
    split_ifs with hnot
    · exact h.setPopper trivial fun _ ht => ht.elim
    · exact h.setPopper (not_le.mp fun hle => hnot (.inr hle)) fun _ ht => ht.elim
  | cas head =>
    cases hstep
    split_ifs with heq
    · subst heq
      have hlt : s.head < s.tail := hok
      have := h.tail_lt
      exact h.drawHead (.inr rfl) (by omega)
    · exact h.setPopper trivial fun _ ht => ht.elim
  | wait t =>
    cases hstep
    have hword : (t + 1) % 2 ^ 32 = t + 1 := by
      have := hok.1
      have := h.head_lt
      exact Nat.mod_eq_of_lt (by omega)
    split_ifs with hflag
    · exact h.setPopper ⟨hok.1, hok.2, hflag.trans hword⟩ fun _ ht => hholds ht
    · exact h.setPopper hok fun _ ht => hholds ht
  | error t =>
    cases hstep
    split
    · exact h.setPopper trivial fun _ ht => ht.elim
    · exact h.setPopper hok fun _ ht => hholds ht
  | read t =>
    cases hstep
    exact h.readCell hpc
  | clear t id =>
    cases hstep
    exact h.clearFlag hpc

theorem Inv.step {a : Act} (h : Inv c s) (hok : InTurn c s a) (hstep : s.step c a = some s') :
    Inv c s' := by
  cases a with
  | push p id =>
    obtain ⟨hp, hstep⟩ := ite_none_right_eq_some.mp hstep
    cases hstep
    exact h.drawTail hp hok
  | pusher p => exact h.stepPusher hok hstep
  | pop q =>
    obtain ⟨-, hstep⟩ := ite_none_right_eq_some.mp hstep
    cases hstep
    exact h.startPop hok
  | popper q => exact h.stepPopper hstep
  | fail =>
    cases hstep
    exact { h with }

/-- **The rings deliver in turn**, whatever the capacity and the numbers of blocks, as long as a
pusher leaves its wait only after all earlier pushers of its slot have published. -/
theorem ring_delivers_in_turn (c : RingConfig) (cells : Nat → Nat)
    (h : Reach (step c) (InTurn c) (init cells) s) : Delivers c s := by
  have hinv : Inv c s :=
    h.invariant (inv_init cells) fun _ _ _ _ hinv hok hstep => hinv.step hok hstep
  refine ⟨?_, hinv.same, hinv.once⟩
  intro p id t hp
  exact hinv.unread_eq_false hp

/-- No more pushes than slots so far, and no ticket counter wraps around. -/
def Roomy (c : RingConfig) (s : Ring) (_ : Act) : Prop :=
  s.tail ≤ c.queueCapacity ∧ s.tail + 1 < 2 ^ 32 ∧ s.head + 1 < 2 ^ 32

/-- With room, every step is in turn. -/
theorem Inv.inTurn (h : Inv c s) {a : Act} (hroom : Roomy c s a) : InTurn c s a := by
  cases a with
  | push => exact hroom.2.1
  | pop => exact hroom.2.2
  | popper | fail => trivial
  | pusher p =>
    rw [InTurn]
    cases hpc : s.pusher p with
    | idle | write | publish => trivial
    | wait id t =>
      -- two tickets below the capacity have different slots
      have hlt := ((h.pushers p).holds (t := t) (by rw [hpc]; rfl)).1
      rw [← h.tail_eq] at hlt
      intro _ t' ht' hslot
      have hle := hroom.1
      rw [Nat.mod_eq_of_lt (by omega), Nat.mod_eq_of_lt (by omega)] at hslot
      omega

/-- With a slot for every push, each pusher has its turn. -/
theorem in_turn_of_roomy (cells : Nat → Nat) (h : Reach (step c) (Roomy c) (init cells) s) :
    Reach (step c) (InTurn c) (init cells) s := by
  have hboth : Inv c s ∧ Reach (step c) (InTurn c) (init cells) s := by
    induction h with
    | init => exact ⟨inv_init cells, .init⟩
    | step _ hroom hstep ih =>
      have hturn := ih.1.inTurn hroom
      exact ⟨ih.1.step hturn hstep, .step ih.2 hturn hstep⟩
  exact hboth.2

/-- One slot for two tasks: a completion ring that is smaller than the number of its pushers. -/
def oneSlot : RingConfig where
  kind := .completion
  queueCapacity := 1
  capacity_pos := Nat.one_pos
  taskCount := 2

/-- The first block pushes task 7, the scheduler pops it, and the second block pushes task 8. -/
theorem ring_delivers_in_turn_one : ∃ s, Reach (step oneSlot) (InTurn oneSlot) (init fun _ => 0) s ∧
    s.popped = [(0, 7)] ∧ s.pusher 1 = .write 8 1 ∧ Delivers oneSlot s := by
  refine Reach.exists_of_run_imp (P := fun s => s.popped = [(0, 7)] ∧ s.pusher 1 = .write 8 1)
    ([Act.push 0 7, .push 1 8] ++ replicate 3 (Act.pusher 0) ++ [Act.pop 0] ++
      replicate 6 (Act.popper 0) ++ [Act.pusher 1]) (by decide +kernel)
    fun s hr ⟨hpopped, hwrite⟩ => ?_
  exact ⟨hpopped, hwrite, ring_delivers_in_turn oneSlot _ hr⟩

/-- Both blocks find the flag of the only slot down. -/
def bothEnter : List Act := [.push 0 7, .push 1 8, .pusher 0, .pusher 1]

/-- **An unread id is overwritten.** The second block writes over task 7 of the first, and the
scheduler, with the ticket of task 7, gets task 8. -/
theorem ring_overwrites_unread :
    (∃ s, Reach (step oneSlot) free (init fun _ => 0) s ∧ s.pusher 1 = .write 8 1 ∧
      s.unread (1 % oneSlot.queueCapacity) = true) ∧
    ∃ s, Reach (step oneSlot) free (init fun _ => 0) s ∧ s.pushed = [7, 8] ∧ s.popped =
      [(0, 8)] := by
  constructor
  · exact Reach.exists_of_run (bothEnter ++ [.pusher 0]) (by decide +kernel)
  · exact Reach.exists_of_run (bothEnter ++ [.pusher 0, .pusher 0, .pusher 1, .pop 0] ++
      replicate 6 (.popper 0)) (by decide +kernel)

end Ring

end PtoRuntime.Cuda
