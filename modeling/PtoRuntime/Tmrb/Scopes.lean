import Mathlib

/-!
# The scope stack

The tasks of all open scopes share one array that doubles when it is full. A scope is the index at
which it began; `end_scope` releases what lies behind that index and rewinds the array to it.
Whether a manual scope is open is read from one number, the depth of the outermost one.

The abstract side is a stack of frames with their own task lists. A run of calls is *accepted* if no
assertion has failed and `fatal` is not set at its end; once set, `fatal` makes every call return at
once.

Main results: `Refines.beginScope`, `Refines.submit`, `Refines.endScope`, `scope_bookkeeping`.
-/

namespace PtoRuntime.Tmrb

open List

open Function

inductive ScopeMode
  | auto | manual
  deriving DecidableEq, Repr

/-- `PTO2_MAX_SCOPE_DEPTH`, also the marker for "no manual scope" -/
def maxScopeDepth : Nat := 64

/-- How a call of `submit_task`, `submit_dummy_task` or `alloc_tensors` goes. -/
inductive SubmitOutcome
  /-- the arguments are refused -/
  | rejected
  /-- the allocator gives up -/
  | noSpace
  | accepted
  /-- an error after `prepare_task` -/
  | failedLater
  deriving DecidableEq, Repr

inductive ScopeCall
  | beginScope (mode : ScopeMode)
  /-- the slot that the allocator returns, and the outcome -/
  | submit (slot : Nat) (outcome : SubmitOutcome)
  | endScope
  deriving DecidableEq, Repr

structure ScopeStack where
  /-- the array, of `scopeTasksCapacity` cells -/
  scopeTasks : List Nat
  scopeTasksSize : Nat
  scopeTasksCapacity : Nat
  scopeBegins : Nat → Nat
  scopeStackTop : Int
  manualBeginDepth : Int
  fatal : Bool
  /-- history: for each `end_scope`, the slots released by `on_scope_end` -/
  released : List (List Nat)

namespace ScopeStack

def init (capacity : Nat) : ScopeStack where
  scopeTasks := replicate capacity 0
  scopeTasksSize := 0
  scopeTasksCapacity := capacity
  scopeBegins := fun _ => 0
  scopeStackTop := -1
  manualBeginDepth := maxScopeDepth
  fatal := false
  released := []

def inManualScope (s : ScopeStack) : Bool := s.manualBeginDepth ≤ s.scopeStackTop

/-- the `realloc` of `scope_tasks_push` -/
def grow (s : ScopeStack) : ScopeStack :=
  if s.scopeTasksCapacity ≤ s.scopeTasksSize then
    { s with
      scopeTasks := s.scopeTasks ++ replicate s.scopeTasksCapacity 0
      scopeTasksCapacity := s.scopeTasksCapacity * 2 }
  else s

def scopeTasksPush (s : ScopeStack) (slot : Nat) : ScopeStack :=
  { s.grow with
    scopeTasks := s.grow.scopeTasks.set s.scopeTasksSize slot
    scopeTasksSize := s.scopeTasksSize + 1 }

/-- `none` is a failed assertion. -/
def beginScope (s : ScopeStack) (mode : ScopeMode) : Option ScopeStack :=
  if s.fatal then some s
  else if (maxScopeDepth : Int) - 1 ≤ s.scopeStackTop then none
  else if mode = .auto ∧ s.inManualScope then some { s with fatal := true }
  else some { s with
    scopeStackTop := s.scopeStackTop + 1
    scopeBegins := update s.scopeBegins (s.scopeStackTop + 1).toNat s.scopeTasksSize
    manualBeginDepth :=
      if mode = .manual ∧ !s.inManualScope then s.scopeStackTop + 1 else s.manualBeginDepth }

/-- A submission as far as scopes are concerned: `check_scope_can_accept_task`, the allocator, and
the push at the end of `prepare_task`. -/
def submit (window : Nat) (s : ScopeStack) (slot : Nat) (outcome : SubmitOutcome) :
    Option ScopeStack :=
  if s.fatal then some s
  else if outcome = .rejected then some { s with fatal := true }
  else if s.scopeStackTop < 0 then none
  else if window ≤ s.scopeTasksSize - s.scopeBegins s.scopeStackTop.toNat + 1 ∨
      outcome = .noSpace then some { s with fatal := true }
  else some { s.scopeTasksPush slot with fatal := outcome == .failedLater }

def endScope (s : ScopeStack) : Option ScopeStack :=
  if s.fatal then some s
  else if s.scopeStackTop < 0 then none
  else
    let first := s.scopeBegins s.scopeStackTop.toNat
    let count := s.scopeTasksSize - first
    some { s with
      scopeStackTop := s.scopeStackTop - 1
      manualBeginDepth :=
        if s.scopeStackTop = s.manualBeginDepth then maxScopeDepth else s.manualBeginDepth
      released :=
        s.released ++ [if 0 < count then (s.scopeTasks.drop first).take count else []]
      scopeTasksSize := first }

def call (window : Nat) (s : ScopeStack) : ScopeCall → Option ScopeStack
  | .beginScope mode => s.beginScope mode
  | .submit slot outcome => s.submit window slot outcome
  | .endScope => s.endScope

def run (window : Nat) : ScopeStack → List ScopeCall → Option ScopeStack
  | s, [] => some s
  | s, c :: cs => (s.call window c).bind fun s' => run window s' cs

end ScopeStack

/-! ## The frames -/

structure ScopeFrame where
  mode : ScopeMode
  tasks : List Nat
  deriving DecidableEq, Repr

/-- Open scopes, the innermost first, and what each closed scope has released. -/
structure ScopeFrames where
  frames : List ScopeFrame
  released : List (List Nat)
  deriving DecidableEq, Repr

def ScopeFrames.call (a : ScopeFrames) : ScopeCall → ScopeFrames
  | .beginScope mode => { a with frames := ⟨mode, []⟩ :: a.frames }
  | .submit slot _ =>
    match a.frames with
    | [] => a
    | f :: fs => { a with frames := { f with tasks := f.tasks ++ [slot] } :: fs }
  | .endScope =>
    match a.frames with
    | [] => a
    | f :: fs => ⟨fs, a.released ++ [f.tasks]⟩

def ScopeFrames.run (calls : List ScopeCall) : ScopeFrames := calls.foldl ScopeFrames.call ⟨[], []⟩

/-- The slots of all submissions, in order. -/
def submittedSlots (calls : List ScopeCall) : List Nat :=
  calls.filterMap fun
    | .submit slot _ => some slot
    | _ => none

/-- The tasks of the open scopes, the outermost first. -/
def flatTasks : List ScopeFrame → List Nat
  | [] => []
  | f :: fs => flatTasks fs ++ f.tasks

/-- The saved begin of every open scope is the number of tasks outside it. -/
def BeginsAt (begins : Nat → Nat) : List ScopeFrame → Prop
  | [] => True
  | _ :: fs => begins fs.length = (flatTasks fs).length ∧ BeginsAt begins fs

/-- The depth of the outermost manual scope. -/
def manualDepth : List ScopeFrame → Nat
  | [] => maxScopeDepth
  | f :: fs =>
    if manualDepth fs = maxScopeDepth ∧ f.mode = .manual then fs.length else manualDepth fs

theorem beginsAt_update {begins : Nat → Nat} {fs : List ScopeFrame} (h : BeginsAt begins fs)
    {d v : Nat} (hd : fs.length ≤ d) : BeginsAt (update begins d v) fs := by
  induction fs with
  | nil => trivial
  | cons f fs ih =>
    simp only [length_cons] at hd
    refine ⟨?_, ih h.2 (by omega)⟩
    rw [update_of_ne (by omega)]
    exact h.1

/-- The marker stands for an open scope exactly when one is manual. -/
theorem manualDepth_cases {fs : List ScopeFrame} (h : fs.length ≤ maxScopeDepth) :
    (manualDepth fs = maxScopeDepth ∧ ∀ f ∈ fs, f.mode ≠ .manual) ∨
      (manualDepth fs < fs.length ∧ ∃ f ∈ fs, f.mode = .manual) := by
  induction fs with
  | nil => exact .inl ⟨rfl, nofun⟩
  | cons f fs ih =>
    simp only [length_cons] at h ⊢
    simp only [manualDepth, mem_cons, forall_eq_or_imp, exists_eq_or_imp]
    rcases ih (by omega) with ⟨hd, hall⟩ | ⟨hd, hex⟩
    · by_cases hm : f.mode = .manual
      · right
        simp only [hd, hm, and_self, if_true]
        exact ⟨Nat.lt_succ_self _, .inl trivial⟩
      · left
        rw [if_neg (fun hc => hm hc.2)]
        exact ⟨hd, hm, hall⟩
    · right
      rw [if_neg (by omega)]
      exact ⟨by omega, .inr hex⟩

/-! ## Refinement -/

/-- The array is the concatenation of the frames. -/
structure Refines (s : ScopeStack) (a : ScopeFrames) (submitted : List Nat) : Prop where
  running : s.fatal = false
  top : s.scopeStackTop + 1 = a.frames.length
  depth : a.frames.length ≤ maxScopeDepth
  size : s.scopeTasksSize = (flatTasks a.frames).length
  tasks : s.scopeTasks.take s.scopeTasksSize = flatTasks a.frames
  capacity : s.scopeTasks.length = s.scopeTasksCapacity
  size_le : s.scopeTasksSize ≤ s.scopeTasksCapacity
  capacity_pos : 0 < s.scopeTasksCapacity
  begins : BeginsAt s.scopeBegins a.frames
  marker : s.manualBeginDepth = manualDepth a.frames
  released : s.released = a.released
  /-- every task is in one open scope or was released by one `end_scope` -/
  placed : submitted.Perm (flatTasks a.frames ++ a.released.flatten)

namespace Refines

variable {s s' : ScopeStack} {a : ScopeFrames} {submitted : List Nat} {window : Nat}

theorem init {capacity : Nat} (h : 0 < capacity) :
    Refines (ScopeStack.init capacity) ⟨[], []⟩ [] where
  running := rfl
  top := rfl
  depth := Nat.zero_le _
  size := rfl
  tasks := take_zero
  capacity := length_replicate
  size_le := Nat.zero_le _
  capacity_pos := h
  begins := trivial
  marker := rfl
  released := rfl
  placed := List.Perm.refl _

theorem inManualScope_iff (h : Refines s a submitted) :
    s.inManualScope = true ↔ ∃ f ∈ a.frames, f.mode = .manual := by
  have htop := h.top
  have hdepth := h.depth
  rw [ScopeStack.inManualScope, decide_eq_true_iff, h.marker]
  rcases manualDepth_cases h.depth with ⟨hd, hall⟩ | ⟨hd, hex⟩
  · refine iff_of_false (by omega) ?_
    rintro ⟨f, hf, hm⟩
    exact hall f hf hm
  · exact iff_of_true (by omega) hex

theorem beginScope (h : Refines s a submitted) {mode : ScopeMode}
    (hs : s.beginScope mode = some s') (hacc : s'.fatal = false) :
    Refines s' (a.call (.beginScope mode)) submitted := by
  simp only [ScopeStack.beginScope, h.running, Bool.false_eq_true, if_false] at hs
  split at hs
  · cases hs
  · rename_i hdepth
    split at hs
    · cases hs
      cases hacc
    · cases hs
      have htop := h.top
      have hlen : (s.scopeStackTop + 1).toNat = a.frames.length := by omega
      simp only [maxScopeDepth] at hdepth
      refine { h with
        running := rfl
        top := by simp only [ScopeFrames.call, length_cons]; omega
        depth := by simp only [ScopeFrames.call, length_cons, maxScopeDepth]; omega
        size := by simpa [ScopeFrames.call, flatTasks] using h.size
        tasks := by simpa [ScopeFrames.call, flatTasks] using h.tasks
        begins := ?_
        marker := ?_
        placed := by simpa [ScopeFrames.call, flatTasks] using h.placed }
      · refine ⟨?_, beginsAt_update h.begins (Nat.le_of_eq hlen.symm)⟩
        simp only [hlen, update_self, h.size]
      · have hiff := h.inManualScope_iff
        simp only [ScopeFrames.call, manualDepth, h.marker]
        rcases manualDepth_cases h.depth with ⟨hd, hall⟩ | ⟨hd, hex⟩
        · have hno : s.inManualScope = false := by
            rw [← Bool.not_eq_true, hiff]
            rintro ⟨f, hf, hm⟩
            exact hall f hf hm
          simp only [hno, hd, Bool.not_false, and_true, true_and]
          split <;> omega
        · rw [if_neg (by simp [hiff.mpr hex]), if_neg (by have := h.depth; omega)]

theorem push (h : Refines s a submitted) {f : ScopeFrame} {fs : List ScopeFrame}
    (hfs : a.frames = f :: fs) (slot : Nat) :
    Refines (s.scopeTasksPush slot)
      { a with frames := { f with tasks := f.tasks ++ [slot] } :: fs } (submitted ++ [slot]) := by
  -- the array before the write: grown if it was full
  obtain ⟨hlen, htake, hlt⟩ : s.grow.scopeTasks.length = s.grow.scopeTasksCapacity ∧
      s.grow.scopeTasks.take s.scopeTasksSize = flatTasks a.frames ∧
      s.scopeTasksSize < s.grow.scopeTasksCapacity := by
    have hcap := h.capacity
    have hpos := h.capacity_pos
    have hle := h.size_le
    unfold ScopeStack.grow
    split
    · refine ⟨?_, ?_, by simp only; omega⟩
      · simp only [length_append, length_replicate]
        omega
      · rw [take_append_of_le_length (by omega), h.tasks]
    · exact ⟨hcap, h.tasks, by omega⟩
  have hframe : s.grow.fatal = s.fatal ∧ s.grow.scopeStackTop = s.scopeStackTop ∧
      s.grow.scopeBegins = s.scopeBegins ∧ s.grow.manualBeginDepth = s.manualBeginDepth ∧
      s.grow.released = s.released := by
    unfold ScopeStack.grow
    split <;> exact ⟨rfl, rfl, rfl, rfl, rfl⟩
  obtain ⟨hfatal, htop, hbegins, hmarker, hreleased⟩ := hframe
  have hb := h.begins
  have ht := h.top
  have hd := h.depth
  have hm := h.marker
  have hsz := h.size
  have hp := h.placed
  rw [hfs] at htake hb ht hd hm hsz hp
  refine
    { running := hfatal.trans h.running
      top := ?_
      depth := hd
      size := ?_
      tasks := ?_
      capacity := (length_set).trans hlen
      size_le := hlt
      capacity_pos := by simp only [ScopeStack.scopeTasksPush]; omega
      begins := by simp only [ScopeStack.scopeTasksPush, hbegins]; exact hb
      marker := hmarker.trans hm
      released := hreleased.trans h.released
      placed := ?_ }
  · simp only [ScopeStack.scopeTasksPush, htop]
    exact ht
  · simp only [ScopeStack.scopeTasksPush, flatTasks, length_append, length_singleton]
      at hsz ⊢
    omega
  · simp only [ScopeStack.scopeTasksPush, flatTasks] at htake ⊢
    rw [← append_assoc, ← htake, take_add_one, take_set_of_le (Nat.le_refl _),
      getElem?_set_self (by omega), Option.toList_some]
  · -- the new task goes from the end of the submissions to the end of the innermost frame
    calc (submitted ++ [slot]).Perm ((flatTasks (f :: fs) ++ a.released.flatten) ++ [slot]) :=
          hp.append_right _
      _ = flatTasks (f :: fs) ++ (a.released.flatten ++ [slot]) := append_assoc ..
      List.Perm _ (flatTasks (f :: fs) ++ ([slot] ++ a.released.flatten)) :=
          perm_append_comm.append_left _
      _ = _ := by simp [flatTasks]

theorem submit (h : Refines s a submitted) {slot : Nat} {outcome : SubmitOutcome}
    (hs : s.submit window slot outcome = some s') (hacc : s'.fatal = false) :
    Refines s' (a.call (.submit slot outcome)) (submitted ++ [slot]) := by
  simp only [ScopeStack.submit, h.running, Bool.false_eq_true, if_false] at hs
  split at hs
  · cases hs
    cases hacc
  · split at hs
    · cases hs
    · rename_i htop
      split at hs
      · cases hs
        cases hacc
      · cases hs
        have hlen := h.top
        cases hfs : a.frames with
        | nil =>
          rw [hfs, length_nil] at hlen
          omega
        | cons f fs =>
          simp only [ScopeFrames.call, hfs]
          exact { h.push hfs slot with running := hacc }

theorem endScope (h : Refines s a submitted) (hs : s.endScope = some s')
    (hacc : s'.fatal = false) : Refines s' (a.call .endScope) submitted := by
  simp only [ScopeStack.endScope, h.running, Bool.false_eq_true, if_false] at hs
  split at hs
  · cases hs
  · rename_i htop
    cases hs
    have hlen := h.top
    cases hfs : a.frames with
    | nil =>
      rw [hfs, length_nil] at hlen
      omega
    | cons f fs =>
      have hb := h.begins
      have ht := h.tasks
      have hsz := h.size
      have hd := h.depth
      have hm := h.marker
      have hp := h.placed
      rw [hfs] at hb ht hsz hd hm hp hlen
      simp only [length_cons] at hd hlen
      simp only [flatTasks, length_append] at ht hsz hp
      have hfirst : s.scopeBegins s.scopeStackTop.toNat = (flatTasks fs).length := by
        rw [show s.scopeStackTop.toNat = fs.length by omega, hb.1]
      have hcount : s.scopeTasksSize - (flatTasks fs).length = f.tasks.length := by omega
      -- what lies behind the saved begin is the innermost frame
      have hslice : (s.scopeTasks.drop (flatTasks fs).length).take f.tasks.length = f.tasks := by
        rw [← hcount, ← drop_take, ht, drop_left]
      simp only [ScopeFrames.call, hfs]
      refine { h with
        running := rfl
        top := by simp only; omega
        depth := by simp only; omega
        size := hfirst
        tasks := ?_
        size_le := by have := h.size_le; simp only [hfirst]; omega
        begins := hb.2
        marker := ?_
        released := ?_
        placed := ?_ }
      · simp only [hfirst]
        have hle : (flatTasks fs).length ≤ s.scopeTasksSize := by omega
        have hpre := congrArg (take (flatTasks fs).length) ht
        rwa [take_take, Nat.min_eq_left hle, take_left] at hpre
      · simp only [manualDepth] at hm
        have hdepth : fs.length ≤ maxScopeDepth := by omega
        rcases manualDepth_cases hdepth with ⟨hd', _⟩ | ⟨hd', _⟩
        · simp only [hm, hd', true_and]
          split <;> split <;> omega
        · rw [if_neg (by omega)] at hm
          simp only [hm]
          rw [if_neg (by omega)]
      · simp only [hfirst, hcount, hslice, h.released]
        split
        · rfl
        · rename_i hempty
          rw [eq_nil_of_length_eq_zero (Nat.eq_zero_of_not_pos hempty)]
      · refine hp.trans ?_
        simp only [flatten_append, flatten_cons, flatten_nil, append_nil,
          append_assoc]
        exact perm_append_comm.append_left _

theorem call (h : Refines s a submitted) {c : ScopeCall} (hs : s.call window c = some s')
    (hacc : s'.fatal = false) : Refines s' (a.call c) (submitted ++ submittedSlots [c]) := by
  cases c with
  | beginScope mode => simpa [submittedSlots] using h.beginScope hs hacc
  | submit slot outcome => exact h.submit hs hacc
  | endScope => simpa [submittedSlots] using h.endScope hs hacc

end Refines

/-- Once set, `fatal` stays. -/
theorem ScopeStack.fatal_run {window : Nat} {calls : List ScopeCall} {s s' : ScopeStack}
    (hf : s.fatal = true) (h : s.run window calls = some s') : s'.fatal = true := by
  induction calls generalizing s with
  | nil => exact Option.some.inj h ▸ hf
  | cons c cs ih =>
    have hstay : s.call window c = some s := by
      cases c <;>
        simp [ScopeStack.call, ScopeStack.beginScope, ScopeStack.submit, ScopeStack.endScope, hf]
    rw [ScopeStack.run, hstay] at h
    exact ih hf h

theorem Refines.run {window : Nat} {calls : List ScopeCall} {s s' : ScopeStack} {a : ScopeFrames}
    {submitted : List Nat} (h : Refines s a submitted) (hs : s.run window calls = some s')
    (hacc : s'.fatal = false) :
    Refines s' (calls.foldl ScopeFrames.call a) (submitted ++ submittedSlots calls) := by
  induction calls generalizing s a submitted with
  | nil =>
    cases hs
    simpa [submittedSlots] using h
  | cons c cs ih =>
    obtain ⟨t, ht, hs⟩ := Option.bind_eq_some_iff.mp hs
    have hlive : t.fatal = false := by
      rw [← Bool.not_eq_true]
      intro hf
      rw [ScopeStack.fatal_run hf hs] at hacc
      cases hacc
    have := ih (h.call ht hlive) hs
    rwa [append_assoc, show submittedSlots [c] ++ submittedSlots cs = submittedSlots (c :: cs)
      by simp [submittedSlots, ← filterMap_append]] at this

/-- After every run of accepted calls, `end_scope` has released what its frame held, every task is
in one open scope or was released by one `end_scope`, and `in_manual_scope` tells whether an open
scope is manual. -/
theorem scope_bookkeeping (capacity window : Nat) (hcap : 0 < capacity) (calls : List ScopeCall)
    (s : ScopeStack) (hrun : (ScopeStack.init capacity).run window calls = some s)
    (hacc : s.fatal = false) :
    s.released = (ScopeFrames.run calls).released ∧
      (submittedSlots calls).Perm
        (flatTasks (ScopeFrames.run calls).frames ++ s.released.flatten) ∧
      (s.inManualScope = true ↔ ∃ f ∈ (ScopeFrames.run calls).frames, f.mode = .manual) := by
  have h := (Refines.init hcap).run hrun hacc
  rw [nil_append] at h
  exact ⟨h.released, h.released ▸ h.placed, h.inManualScope_iff⟩

/-- An array of one cell that grows, an inner manual scope, and a task on each side of it. -/
theorem scope_bookkeeping_nested :
    ∃ s, (ScopeStack.init 1).run 8 [.beginScope .auto, .submit 5 .accepted, .beginScope .manual,
        .submit 6 .accepted, .endScope, .submit 7 .accepted, .endScope] = some s ∧
      s.fatal = false ∧ s.released = [[6], [5, 7]] ∧ s.inManualScope = false := by
  refine ⟨_, rfl, rfl, ?_, rfl⟩
  exact (scope_bookkeeping 1 8 Nat.one_pos [.beginScope .auto, .submit 5 .accepted,
    .beginScope .manual, .submit 6 .accepted, .endScope, .submit 7 .accepted, .endScope] _ rfl
      rfl).1

end PtoRuntime.Tmrb
