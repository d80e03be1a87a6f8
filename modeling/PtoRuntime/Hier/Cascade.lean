import PtoRuntime.Hier.Callables

/-!
# Registration in a tree of workers

The children of a `Worker` of level 4 or more are workers again, each with a registry of its
own, in a process of its own. A `register` at the root takes the root's smallest free cid and
asks every child to register the callable under that very cid; the child does the same with its
children, and so on. `unregister` goes down the same way. A worker that has not run anything
yet has not forked its children: it keeps the callable to itself.

The children's registries are not the root's: they hold callables that were registered there
before, and what an earlier call left when it failed elsewhere. A child refuses a cid that it
holds already, and it drops whatever it holds under an unregistered one.

Main results: `register_succeeds`, `register_refused_forever`, `own_entries_kept`,
`unregister_drops_own_entry`.
-/

namespace PtoRuntime.Cascade

open Lib Callables Function Option

/-- An entry of a registry; history: whether a `register` of the root placed it. -/
structure Held (κ : Type) where
  callable : κ
  placed : Bool
  deriving DecidableEq

/-- A worker with its chips, if any, and the workers below it. -/
inductive Worker (κ : Type)
  | node (id : Nat) (started chips : Bool) (registry : Nat → Option (Held κ))
      (children : List (Worker κ))

variable {κ : Type}

namespace Worker

def registry : Worker κ → Nat → Option (Held κ)
  | node _ _ _ registry _ => registry

def children : Worker κ → List (Worker κ)
  | node _ _ _ _ children => children

mutual

/-- `_register_at`; `fails` are the workers with a chip that does not prepare the callable. The
entry is taken back when a child or a chip fails; what the other children did stays. -/
def registerAt (fails : Nat → Bool) (cid : Nat) (callable : κ) : Worker κ → Worker κ × Bool
  | node id started chips registry children =>
    if (registry cid).isSome then (node id started chips registry children, false)
    else if started then
      let r := registerAll fails cid callable children
      if r.2 && !(chips && fails id) then
        (node id started chips (update registry cid (some ⟨callable, true⟩)) r.1, true)
      else (node id started chips registry r.1, false)
    else
      (node id started chips (update registry cid (some ⟨callable, true⟩)) children, true)

/-- `broadcast_register_all`: every child is asked, whether others fail or not. -/
def registerAll (fails : Nat → Bool) (cid : Nat) (callable : κ) :
    List (Worker κ) → List (Worker κ) × Bool
  | [] => ([], true)
  | w :: ws =>
    let r := w.registerAt fails cid callable
    let rs := registerAll fails cid callable ws
    (r.1 :: rs.1, r.2 && rs.2)

end

mutual

/-- `unregister`; a cid that is not registered is an error, and goes no further down. -/
def unregister (cid : Nat) : Worker κ → Worker κ
  | node id started chips registry children =>
    if (registry cid).isSome then
      node id started chips (update registry cid none)
        (if started then unregisterAll cid children else children)
    else node id started chips registry children

/-- `broadcast_unregister_all`. -/
def unregisterAll (cid : Nat) : List (Worker κ) → List (Worker κ)
  | [] => []
  | w :: ws => w.unregister cid :: unregisterAll cid ws

end

mutual

/-- The first `run` of a worker forks its children. -/
def start (i : Nat) : Worker κ → Worker κ
  | node id started chips registry children =>
    node id (started || id = i) chips registry (startAll i children)

def startAll (i : Nat) : List (Worker κ) → List (Worker κ)
  | [] => []
  | w :: ws => w.start i :: startAll i ws

end

/-- `register` at the root, and whether it succeeds; `none` when no cid is free. -/
def register (fails : Nat → Bool) (callable : κ) (w : Worker κ) : Option (Worker κ × Bool) :=
  (allocateCid w.registry).map fun cid => w.registerAt fails cid callable

end Worker

open Worker

inductive Act (κ : Type)
  | register (fails : Nat → Bool) (callable : κ)
  | unregister (cid : Nat)
  | start (id : Nat)

def step (w : Worker κ) : Act κ → Option (Worker κ)
  | .register fails callable => (w.register fails callable).map Prod.fst
  | .unregister cid => if (w.registry cid).isSome then some (w.unregister cid) else none
  | .start i => some (w.start i)

/-! ## When a cid is refused -/

mutual

/-- A worker that is asked for the cid holds it. -/
def Worker.blocked (cid : Nat) : Worker κ → Bool
  | node _ started _ registry children =>
    (registry cid).isSome || started && blockedAny cid children

def Worker.blockedAny (cid : Nat) : List (Worker κ) → Bool
  | [] => false
  | w :: ws => w.blocked cid || blockedAny cid ws

end

mutual

/-- A registration fails where the id is taken. -/
theorem registerAt_iff (cid : Nat) (callable : κ) :
    ∀ w : Worker κ, (w.registerAt (fun _ => false) cid callable).2 = !w.blocked cid
  | node id started chips registry children => by
    have hall := registerAll_iff cid callable children
    unfold registerAt blocked
    cases registry cid <;> cases started <;> simp [hall]
    split <;> simp_all

theorem registerAll_iff (cid : Nat) (callable : κ) :
    ∀ ws : List (Worker κ), (registerAll (fun _ => false) cid callable ws).2 = !blockedAny cid ws
  | [] => rfl
  | w :: ws => by
    simp [registerAll, blockedAny, registerAt_iff cid callable w, registerAll_iff cid callable ws]

end

mutual

/-- The worker holds no cid outside `dom`, and every started worker below it holds no cid that
its parent does not hold; below a worker that has not started nothing is registered. -/
def Worker.Within (dom : Nat → Bool) : Worker κ → Prop
  | node _ started _ registry children =>
    (∀ cid, (registry cid).isSome → dom cid = true) ∧
      WithinAll (fun cid => started && (registry cid).isSome) children

def Worker.WithinAll (dom : Nat → Bool) : List (Worker κ) → Prop
  | [] => True
  | w :: ws => w.Within dom ∧ WithinAll dom ws

end

section Within

variable {dom dom' : Nat → Bool} {cid : Nat} {callable : κ}

mutual

theorem Worker.Within.mono (hdom : ∀ cid, dom cid = true → dom' cid = true) :
    ∀ {w : Worker κ}, w.Within dom → w.Within dom'
  | node .., h => ⟨fun cid hc => hdom cid (h.1 cid hc), h.2⟩

theorem Worker.WithinAll.mono (hdom : ∀ cid, dom cid = true → dom' cid = true) :
    ∀ {ws : List (Worker κ)}, WithinAll dom ws → WithinAll dom' ws
  | [], _ => trivial
  | _ :: _, h => ⟨h.1.mono hdom, h.2.mono hdom⟩

end

mutual

/-- Ids outside the domain are free below. -/
theorem Worker.Within.not_blocked {dom : Nat → Bool} (hcid : dom cid = false) :
    ∀ {w : Worker κ}, w.Within dom → w.blocked cid = false
  | node _ started _ registry children, h => by
    have hfree : (registry cid).isSome = false := by
      by_contra hc
      rw [h.1 cid ((Bool.not_eq_false _).mp hc)] at hcid
      cases hcid
    have hbelow := h.2.not_blocked (by simp [hfree])
    simp [blocked, hfree, hbelow]

theorem Worker.WithinAll.not_blocked {dom : Nat → Bool} (hcid : dom cid = false) :
    ∀ {ws : List (Worker κ)}, WithinAll dom ws → blockedAny cid ws = false
  | [], _ => rfl
  | _ :: _, h => by simp [blockedAny, h.1.not_blocked hcid, h.2.not_blocked hcid]

end

mutual

/-- A registered id is in the domain. -/
theorem Worker.Within.registerAt {dom : Nat → Bool} :
    ∀ {w : Worker κ}, w.Within dom → w.blocked cid = false →
      (w.registerAt (fun _ => false) cid callable).1.Within (update dom cid true)
  | node id started chips registry children, h, hb => by
    obtain ⟨hfree, hbelow⟩ := Bool.or_eq_false_iff.mp (by rw [← hb, blocked])
    have hheld (k : Nat)
        (hk : ((update registry cid (some ⟨callable, true⟩)) k).isSome) :
        update dom cid true k = true := by
      by_cases hkc : k = cid
      · simp [hkc]
      · rw [update_of_ne hkc] at hk ⊢
        exact h.1 k hk
    unfold Worker.registerAt
    rw [if_neg (by simp [hfree])]
    -- children exist only below a started worker
    cases started with
    | false => exact ⟨hheld, h.2.mono fun k hk => by simp at hk⟩
    | true =>
      have hnone : blockedAny cid children = false := by simpa using hbelow
      simp only [registerAll_iff, hnone, Bool.and_false, Bool.not_false, Bool.and_self, if_true]
      refine ⟨hheld, (h.2.registerAll hnone).mono fun k hk => ?_⟩
      by_cases hkc : k = cid
      · simp [hkc]
      · simpa [hkc] using hk

theorem Worker.WithinAll.registerAll {dom : Nat → Bool} :
    ∀ {ws : List (Worker κ)}, WithinAll dom ws → blockedAny cid ws = false →
      WithinAll (update dom cid true) (registerAll (fun _ => false) cid callable ws).1
  | [], _, _ => trivial
  | _ :: _, h, hb =>
    have hb := Bool.or_eq_false_iff.mp hb
    ⟨h.1.registerAt hb.1, h.2.registerAll hb.2⟩

end

mutual

/-- An unregistered id leaves the domain. -/
theorem Worker.Within.unregister {dom : Nat → Bool} :
    ∀ {w : Worker κ}, w.Within dom → (w.unregister cid).Within (update dom cid false)
  | node id started chips registry children, h => by
    unfold Worker.unregister
    split
    · refine ⟨fun k hk => ?_, ?_⟩
      · by_cases hkc : k = cid
        · simp [hkc] at hk
        · rw [update_of_ne hkc] at hk ⊢
          exact h.1 k hk
      · cases started with
        | false => exact h.2.mono fun k hk => by simp at hk
        | true =>
          refine h.2.unregisterAll.mono fun k hk => ?_
          by_cases hkc : k = cid
          · simp [hkc] at hk
          · simpa [hkc] using hk
    -- an id that is not registered here is not passed on
    · rename_i hfree
      refine ⟨fun k hk => ?_, h.2⟩
      have hkc : k ≠ cid := fun he => hfree (he ▸ hk)
      rw [update_of_ne hkc]
      exact h.1 k hk

theorem Worker.WithinAll.unregisterAll {dom : Nat → Bool} :
    ∀ {ws : List (Worker κ)}, WithinAll dom ws →
      WithinAll (update dom cid false) (unregisterAll cid ws)
  | [], _ => trivial
  | _ :: _, h => ⟨h.1.unregister, h.2.unregisterAll⟩

end

mutual

theorem Worker.Within.start {i : Nat} {dom : Nat → Bool} :
    ∀ {w : Worker κ}, w.Within dom → (w.start i).Within dom
  | node .., h => ⟨h.1, h.2.startAll.mono fun k hk => by
      simp only [Bool.and_eq_true, Bool.or_eq_true] at hk ⊢
      exact ⟨.inl hk.1, hk.2⟩⟩

theorem Worker.WithinAll.startAll {i : Nat} {dom : Nat → Bool} :
    ∀ {ws : List (Worker κ)}, WithinAll dom ws → WithinAll dom (startAll i ws)
  | [], _ => trivial
  | _ :: _, h => ⟨h.1.start, h.2.startAll⟩

end

end Within

/-! ## The root -/

variable {w w' : Worker κ} {a : Act κ}

/-- No device fails to prepare what the root registers. -/
def DevicesWork : Act κ → Prop
  | .register fails _ => ∀ i, fails i = false
  | _ => True

theorem Worker.Within.unblocked (h : w.Within fun _ => true) {cid : Nat}
    (hcid : allocateCid w.registry = some cid) : w.blocked cid = false := by
  obtain ⟨id, started, chips, registry, children⟩ := w
  have hfree : registry cid = none := (allocateCid_spec hcid).2
  have hbelow : blockedAny cid children = false := h.2.not_blocked (by simp [hfree])
  simp [blocked, hfree, hbelow]

/-- Every worker has only ids of its parent. -/
theorem Worker.Within.step (h : w.Within fun _ => true) (hok : DevicesWork a)
    (hst : step w a = some w') : w'.Within fun _ => true := by
  cases a with
  | register fails callable =>
    obtain ⟨_, hr, rfl⟩ := map_eq_some_iff.mp hst
    obtain ⟨cid, hcid, rfl⟩ := map_eq_some_iff.mp hr
    obtain rfl : fails = fun _ => false := funext hok
    exact (h.registerAt (h.unblocked hcid)).mono fun _ _ => rfl
  | unregister cid =>
    obtain ⟨-, ⟨⟩⟩ := ite_none_right_eq_some.mp hst
    exact h.unregister.mono fun _ _ => rfl
  | start i =>
    cases hst
    exact h.start

/--
**Dynamic registration.** With no failing device, a `register` that finds a free cid at the
root succeeds exactly when no worker that it reaches holds that cid. In a tree whose workers
hold at most what their parents hold, it therefore succeeds after any calls at the root that
met no failing device.
-/
theorem register_succeeds (callable : κ) :
    (∀ (w : Worker κ) cid, allocateCid w.registry = some cid →
      ((w.register (fun _ => false) callable).map Prod.snd = some true ↔ w.blocked cid = false)) ∧
    (∀ w₀ w : Worker κ, w₀.Within (fun _ => true) → Reach step (fun _ a => DevicesWork a) w₀ w →
      (allocateCid w.registry).isSome →
        (w.register (fun _ => false) callable).map Prod.snd = some true) := by
  have hiff (w : Worker κ) (cid : Nat) (hcid : allocateCid w.registry = some cid) :
      (w.register (fun _ => false) callable).map Prod.snd = some true ↔ w.blocked cid = false := by
    simp [register, hcid, registerAt_iff]
  refine ⟨hiff, fun w₀ w h₀ hw hfree => ?_⟩
  have hwithin : w.Within fun _ => true :=
    hw.invariant h₀ fun _ _ _ _ h hok hst => h.step hok hst
  obtain ⟨cid, hcid⟩ := isSome_iff_exists.mp hfree
  exact (hiff w cid hcid).mpr (hwithin.unblocked hcid)

/-- A root and two workers with chips below it, all running; the first holds `registry`. -/
def twoBelow (registry : Nat → Option (Held Nat)) : Worker Nat :=
  node 0 true false (fun _ => none)
    [node 1 true true registry [], node 2 true true (fun _ => none) []]

/-- A second id on two children. -/
theorem register_succeeds_two : ∃ w, Reach step (fun _ a => DevicesWork a)
    (twoBelow fun _ => none) w ∧ (w.registry 0).isSome ∧
      (w.register (fun _ => false) 8).map Prod.snd = some true := by
  have hw : Reach step (fun _ a => DevicesWork a) (twoBelow fun _ => none)
      ((twoBelow fun _ => none).registerAt (fun _ => false) 0 7).1 :=
    .step (a := .register (fun _ => false) 7) .init (fun _ => rfl) rfl
  exact ⟨_, hw, rfl, (register_succeeds 8).2 _ _ (by simp [twoBelow, Within, WithinAll]) hw
    (by decide +kernel)⟩

/--
A callable that a child has registered for itself under cid 0 blocks the root, whose first free
cid is 0. So does a call that failed in one child and not in the other: the root takes the cid
back, the other child does not.
-/
theorem register_refused_forever :
    ((twoBelow fun cid => if cid = 0 then some ⟨7, false⟩ else none).register
      (fun _ => false) 8).map
      Prod.snd = some false ∧
    (∃ w, step (twoBelow fun _ => none) (.register (fun i => i = 2) 7) = some w ∧
      allocateCid w.registry = some 0 ∧
        (w.register (fun _ => false) 8).map Prod.snd = some false) :=
  ⟨by decide +kernel, _, rfl, by decide +kernel, by decide +kernel⟩

/-! ## Entries that the root did not place -/

mutual

/-- Entries that the root did not place are still there. -/
def Worker.Keeps : Worker κ → Worker κ → Prop
  | node _ _ _ registry children, node _ _ _ registry' children' =>
    (∀ cid c, registry cid = some ⟨c, false⟩ → registry' cid = some ⟨c, false⟩) ∧
      KeepsAll children children'

def Worker.KeepsAll : List (Worker κ) → List (Worker κ) → Prop
  | w :: ws, w' :: ws' => w.Keeps w' ∧ KeepsAll ws ws'
  | [], _ => True
  | _ :: _, [] => False

end

mutual

/-- An `unregister` of the cid reaches an entry that the root did not place. -/
def Worker.reachesOwn (cid : Nat) : Worker κ → Bool
  | node _ started _ registry children =>
    match registry cid with
    | none => false
    | some held => !held.placed || started && reachesOwnAny cid children

def Worker.reachesOwnAny (cid : Nat) : List (Worker κ) → Bool
  | [] => false
  | w :: ws => w.reachesOwn cid || reachesOwnAny cid ws

end

section Keeps

variable {fails : Nat → Bool} {cid i : Nat} {callable : κ}

mutual

theorem Worker.Keeps.refl : ∀ w : Worker κ, w.Keeps w
  | node .. => ⟨fun _ _ => id, KeepsAll.refl _⟩

theorem Worker.KeepsAll.refl : ∀ ws : List (Worker κ), KeepsAll ws ws
  | [] => trivial
  | _ :: _ => ⟨Keeps.refl _, KeepsAll.refl _⟩

end

mutual

theorem Worker.Keeps.trans : ∀ {w₁ w₂ w₃ : Worker κ}, w₁.Keeps w₂ → w₂.Keeps w₃ → w₁.Keeps w₃
  | node .., node .., node .., h, h' =>
    ⟨fun cid c hc => h'.1 cid c (h.1 cid c hc), h.2.trans h'.2⟩

theorem Worker.KeepsAll.trans : ∀ {ws₁ ws₂ ws₃ : List (Worker κ)},
    KeepsAll ws₁ ws₂ → KeepsAll ws₂ ws₃ → KeepsAll ws₁ ws₃
  | [], _, _, _, _ => trivial
  | _ :: _, _ :: _, _ :: _, h, h' => ⟨h.1.trans h'.1, h.2.trans h'.2⟩

end

mutual

/-- A registration keeps all entries. -/
theorem keeps_registerAt : ∀ w : Worker κ, w.Keeps (w.registerAt fails cid callable).1
  | node id started chips registry children => by
    have hput (hfree : ¬ (registry cid).isSome) (k : Nat) (c : κ)
        (hk : registry k = some ⟨c, false⟩) :
        update registry cid (some ⟨callable, true⟩) k = some ⟨c, false⟩ := by
      have hne : k ≠ cid := fun he => hfree (by rw [← he, hk]; rfl)
      rw [update_of_ne hne, hk]
    unfold registerAt
    split
    · exact Keeps.refl _
    · rename_i hfree
      split
      · dsimp only
        split
        · exact ⟨hput hfree, keeps_registerAll children⟩
        · exact ⟨fun _ _ hk => hk, keeps_registerAll children⟩
      · exact ⟨hput hfree, KeepsAll.refl _⟩

theorem keeps_registerAll :
    ∀ ws : List (Worker κ), KeepsAll ws (registerAll fails cid callable ws).1
  | [] => trivial
  | w :: ws => ⟨keeps_registerAt w, keeps_registerAll ws⟩

end

mutual

/-- What an unregistration spares. -/
theorem keeps_unregister_iff : ∀ w : Worker κ, w.Keeps (w.unregister cid) ↔ w.reachesOwn cid = false
  | node id started chips registry children => by
    have hall := keeps_unregisterAll_iff children
    unfold Worker.unregister reachesOwn
    cases hheld : registry cid with
    | none => simpa using Keeps.refl (node id started chips registry children)
    | some held =>
      obtain ⟨c, placed⟩ := held
      have hown : (∀ k c', registry k = some ⟨c', false⟩ →
          update registry cid none k = some ⟨c', false⟩) ↔ placed = true := by
        refine ⟨fun h => ?_, fun hp k c' hk => ?_⟩
        · by_contra hp
          have hgone := h cid c (by rw [hheld, Bool.eq_false_iff.mpr hp])
          simp at hgone
        · have hne : k ≠ cid := fun he => by simp_all
          rw [update_of_ne hne, hk]
      cases started with
      | false => simp [Keeps, hown, KeepsAll.refl]
      | true => simp [Keeps, hown, hall]

theorem keeps_unregisterAll_iff :
    ∀ ws : List (Worker κ), KeepsAll ws (unregisterAll cid ws) ↔ reachesOwnAny cid ws = false
  | [] => by simp [KeepsAll, reachesOwnAny]
  | w :: ws => by
    simp [unregisterAll, KeepsAll, reachesOwnAny, keeps_unregister_iff w,
      keeps_unregisterAll_iff ws]

end

mutual

theorem keeps_start : ∀ w : Worker κ, w.Keeps (w.start i)
  | node .. => ⟨fun _ _ => id, keeps_startAll _⟩

theorem keeps_startAll : ∀ ws : List (Worker κ), KeepsAll ws (startAll i ws)
  | [] => trivial
  | _ :: _ => ⟨keeps_start _, keeps_startAll _⟩

end

end Keeps

/-- Condition on the calls at the root: an `unregister` reaches no worker that has something of
its own under that cid. -/
def SparesOwn : Worker κ → Act κ → Prop
  | node _ started _ _ children, .unregister cid =>
    started = true → reachesOwnAny cid children = false
  | _, _ => True

/-- A step keeps the entries below iff it spares them. -/
theorem keeps_step_iff (hst : step w a = some w') :
    KeepsAll w.children w'.children ↔ SparesOwn w a := by
  obtain ⟨id, started, chips, registry, children⟩ := w
  cases a with
  | register fails callable =>
    obtain ⟨_, hr, rfl⟩ := map_eq_some_iff.mp hst
    obtain ⟨cid, -, rfl⟩ := map_eq_some_iff.mp hr
    refine iff_of_true ?_ trivial
    have h : Keeps _ ((node id started chips registry children).registerAt fails cid callable).1 :=
      keeps_registerAt _
    cases hw : ((node id started chips registry children).registerAt fails cid callable).1 with
    | node => exact (hw ▸ h).2
  | unregister cid =>
    obtain ⟨hheld, ⟨⟩⟩ := ite_none_right_eq_some.mp hst
    have hheld : (registry cid).isSome := hheld
    unfold Worker.unregister
    rw [if_pos hheld]
    cases started with
    | false => exact iff_of_true (KeepsAll.refl _) nofun
    | true => simpa [SparesOwn, Worker.children] using keeps_unregisterAll_iff children
  | start i =>
    cases hst
    exact iff_of_true (keeps_startAll _) trivial

/--
**Entries of the children.** A call at the root keeps every entry below it that the root did not
place, exactly when it is not an `unregister` that reaches one under its cid; so do all calls of
a run that meets this condition.
-/
theorem own_entries_kept :
    (∀ (w : Worker κ) a w', step w a = some w' →
      (KeepsAll w.children w'.children ↔ SparesOwn w a)) ∧
    (∀ w w' : Worker κ, Reach step SparesOwn w w' → KeepsAll w.children w'.children) := by
  refine ⟨fun w a w' => keeps_step_iff, fun w w' h => ?_⟩
  induction h with
  | init => exact KeepsAll.refl _
  | step _ hok hst ih => exact ih.trans ((keeps_step_iff hst).mpr hok)

/-- A callable that a child registered for itself as cid 3. -/
def ownThird : Nat → Option (Held Nat) := fun cid => if cid = 3 then some ⟨7, false⟩ else none

/-- A child's own third id is kept. -/
theorem own_entries_kept_two : ∃ w, Reach step SparesOwn (twoBelow ownThird) w ∧
    (w.registry 0).isSome ∧ KeepsAll (twoBelow ownThird).children w.children := by
  have hw : Reach step SparesOwn (twoBelow ownThird)
      ((twoBelow ownThird).registerAt (fun _ => false) 0 7).1 :=
    .step (a := .register (fun _ => false) 7) .init trivial rfl
  exact ⟨_, hw, by decide +kernel, own_entries_kept.2 _ _ hw⟩

/-- The root and a child have each registered a callable before, both under cid 0; when the
root unregisters its own, the child loses the other. -/
theorem unregister_drops_own_entry :
    ∃ w w' : Worker Nat, step w (.unregister 0) = some w' ∧
      w.children.map (·.registry 0) = [some ⟨7, false⟩] ∧ w'.children.map (·.registry 0) = [none] :=
  ⟨node 0 true false (fun cid => if cid = 0 then some ⟨8, false⟩ else none)
    [node 1 true true (fun cid => if cid = 0 then some ⟨7, false⟩ else none) []], _, rfl,
    by decide +kernel, by decide +kernel⟩

end PtoRuntime.Cascade
