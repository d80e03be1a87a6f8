import PtoRuntime.Lib.Counting

/-!
# Graphs of the host-built runtime

With the host-built runtime the orchestration code runs on the host and builds the whole task graph
before anything is executed: `add_task` takes the next entry of the task table and `add_successor`
records an edge. Both refuse what does not fit, with an error message and no other effect.

`build` runs a list of such calls. Whatever the calls, the result is `Linked`: the `fanin` of a task
is the number of entries for it in the fanout lists, and all entries are tasks of the table.
-/

namespace PtoRuntime.HostGraph

def runtimeMaxTasks : Nat := 131072
def runtimeMaxArgs : Int := 16
def runtimeMaxFanout : Nat := 128

inductive CoreType
  | aic
  | aiv
  deriving DecidableEq, Repr

/-- The task table, one function for each field of `Task`. -/
structure Runtime where
  nextTaskId : Nat
  coreType : Nat → CoreType
  fanin : Nat → Nat
  fanout : Nat → List Nat

namespace Runtime

def empty : Runtime where
  nextTaskId := 0
  coreType _ := .aiv
  fanin _ := 0
  fanout _ := []

/-- `add_task`, with the id of the task; `none` stands for `-1`. -/
def addTask (r : Runtime) (numArgs : Int) (coreType : CoreType) : Runtime × Option Nat :=
  if runtimeMaxTasks ≤ r.nextTaskId then (r, none)
  else if runtimeMaxArgs < numArgs then (r, none)
  else
    ({ nextTaskId := r.nextTaskId + 1
       coreType := Function.update r.coreType r.nextTaskId coreType
       fanin := Function.update r.fanin r.nextTaskId 0
       fanout := Function.update r.fanout r.nextTaskId [] }, some r.nextTaskId)

def addSuccessor (r : Runtime) (fromTask toTask : Int) : Runtime :=
  if fromTask < 0 ∨ (r.nextTaskId : Int) ≤ fromTask then r
  else if toTask < 0 ∨ (r.nextTaskId : Int) ≤ toTask then r
  else if runtimeMaxFanout ≤ (r.fanout fromTask.toNat).length then r
  else
    { r with
      fanout := Function.update r.fanout fromTask.toNat (r.fanout fromTask.toNat ++ [toTask.toNat])
      fanin := Function.update r.fanin toTask.toNat (r.fanin toTask.toNat + 1) }

end Runtime

inductive BuildCall
  | addTask (numArgs : Int) (coreType : CoreType)
  | addSuccessor (fromTask toTask : Int)

def Runtime.call (r : Runtime) : BuildCall → Runtime
  | .addTask numArgs coreType => (r.addTask numArgs coreType).1
  | .addSuccessor fromTask toTask => r.addSuccessor fromTask toTask

def build (calls : List BuildCall) : Runtime := calls.foldl Runtime.call .empty

/-! ## What building keeps -/

structure Runtime.Linked (r : Runtime) : Prop where
  tasks_le : r.nextTaskId ≤ runtimeMaxTasks
  /-- outside of the table there is nothing -/
  fanout_nil : ∀ p, r.nextTaskId ≤ p → r.fanout p = []
  fanout_lt : ∀ p, ∀ d ∈ r.fanout p, d < r.nextTaskId
  fanin_eq : ∀ x, r.fanin x = ∑ p ∈ Finset.range r.nextTaskId, (r.fanout p).count x

namespace Runtime.Linked

open Lib Function List

variable {r : Runtime}

theorem empty : Runtime.empty.Linked where
  tasks_le := Nat.zero_le _
  fanout_nil _ _ := rfl
  fanout_lt _ _ h := absurd h not_mem_nil
  fanin_eq _ := rfl

/-- The new task has no edges, and no list had it. -/
theorem addTask (h : r.Linked) (numArgs : Int) (coreType : CoreType) :
    (r.addTask numArgs coreType).1.Linked := by
  unfold Runtime.addTask
  split
  · exact h
  split
  · exact h
  rename_i hroom _
  have hfanout : update r.fanout r.nextTaskId [] = r.fanout := by
    rw [← h.fanout_nil r.nextTaskId le_rfl, update_eq_self]
  have hnew : r.fanin r.nextTaskId = 0 := by
    rw [h.fanin_eq]
    refine Finset.sum_eq_zero fun p _ => count_eq_zero.mpr fun hmem => ?_
    exact absurd (h.fanout_lt p _ hmem) (lt_irrefl _)
  have hfanin : update r.fanin r.nextTaskId 0 = r.fanin := by
    rw [← hnew, update_eq_self]
  simp only [hfanout, hfanin]
  refine ⟨not_le.mp hroom, fun p hp => h.fanout_nil p (Nat.le_of_succ_le hp),
    fun p d hd => Nat.lt_succ_of_lt (h.fanout_lt p d hd), fun x => ?_⟩
  show r.fanin x = ∑ p ∈ Finset.range (r.nextTaskId + 1), _
  rw [Finset.sum_range_succ, h.fanout_nil _ le_rfl, count_nil, add_zero]
  exact h.fanin_eq x

theorem addSuccessor (h : r.Linked) (fromTask toTask : Int) :
    (r.addSuccessor fromTask toTask).Linked := by
  unfold Runtime.addSuccessor
  split
  · exact h
  split
  · exact h
  split
  · exact h
  rename_i hfrom hto _
  have hfrom' : fromTask.toNat < r.nextTaskId := by omega
  have hto' : toTask.toNat < r.nextTaskId := by omega
  refine ⟨h.tasks_le, fun p hp => ?_, fun p d hd => ?_, fun x => ?_⟩
  · show update r.fanout _ _ p = []
    rw [update_of_ne (ne_of_gt (lt_of_lt_of_le hfrom' hp))]
    exact h.fanout_nil p hp
  · change d ∈ update r.fanout _ _ p at hd
    by_cases hp : p = fromTask.toNat
    · subst hp
      rw [update_self] at hd
      rcases mem_append.mp hd with hd | hd
      · exact h.fanout_lt _ d hd
      · exact mem_singleton.mp hd ▸ hto'
    · rw [update_of_ne hp] at hd
      exact h.fanout_lt p d hd
  · -- one more entry for `toTask`, in one list
    have hsum := sum_update (Finset.mem_range.mpr hfrom') (fun l : List Nat => l.count x) r.fanout
      (r.fanout fromTask.toNat ++ [toTask.toNat])
    have hold := h.fanin_eq x
    beta_reduce at hsum
    rw [count_append] at hsum
    show update r.fanin _ _ x =
      ∑ p ∈ Finset.range r.nextTaskId, (update r.fanout fromTask.toNat _ p).count x
    by_cases hx : x = toTask.toNat
    · subst hx
      rw [update_self]
      rw [count_singleton_self] at hsum
      omega
    · rw [update_of_ne hx]
      rw [count_singleton, if_neg (by simpa using Ne.symm hx)] at hsum
      omega

theorem call (h : r.Linked) (a : BuildCall) : (r.call a).Linked := by
  cases a with
  | addTask numArgs coreType => exact h.addTask numArgs coreType
  | addSuccessor fromTask toTask => exact h.addSuccessor fromTask toTask

end Runtime.Linked

theorem linked_build (calls : List BuildCall) : (build calls).Linked :=
  List.foldlRecOn calls Runtime.call Runtime.Linked.empty fun _ h a _ => h.call a

/-- A later call does not remove an edge. -/
theorem mem_fanout_call {r : Runtime} {p d : Nat} (hp : p < r.nextTaskId) (hd : d ∈ r.fanout p)
    (a : BuildCall) : p < (r.call a).nextTaskId ∧ d ∈ (r.call a).fanout p := by
  cases a with
  | addTask numArgs coreType =>
    simp only [Runtime.call, Runtime.addTask]
    split_ifs
    · exact ⟨hp, hd⟩
    · exact ⟨hp, hd⟩
    · refine ⟨Nat.lt_succ_of_lt hp, ?_⟩
      show d ∈ Function.update r.fanout _ _ p
      rwa [Function.update_of_ne (ne_of_lt hp)]
  | addSuccessor fromTask toTask =>
    simp only [Runtime.call, Runtime.addSuccessor]
    split_ifs
    · exact ⟨hp, hd⟩
    · exact ⟨hp, hd⟩
    · exact ⟨hp, hd⟩
    · refine ⟨hp, ?_⟩
      show d ∈ Function.update r.fanout _ _ p
      by_cases he : p = fromTask.toNat
      · subst he
        rw [Function.update_self]
        exact List.mem_append_left _ hd
      · rwa [Function.update_of_ne he]

/-- An `add_successor` call that is accepted puts its edge into the graph. -/
theorem mem_fanout_build (before after : List BuildCall) {p d : Nat}
    (hp : p < (build before).nextTaskId) (hd : d < (build before).nextTaskId)
    (hroom : ((build before).fanout p).length < runtimeMaxFanout) :
    d ∈ (build (before ++ .addSuccessor p d :: after)).fanout p := by
  have hadded : p < ((build before).call (.addSuccessor p d)).nextTaskId ∧
      d ∈ ((build before).call (.addSuccessor p d)).fanout p := by
    rw [Runtime.call, Runtime.addSuccessor, if_neg (by omega), if_neg (by omega),
      Int.toNat_natCast, if_neg (not_le.mpr hroom)]
    exact ⟨hp, by simp⟩
  rw [build, List.foldl_append, List.foldl_cons]
  refine (List.foldlRecOn after Runtime.call
    (motive := fun r => p < r.nextTaskId ∧ d ∈ r.fanout p) hadded fun r h a _ => ?_).2
  exact mem_fanout_call h.1 h.2 a

end PtoRuntime.HostGraph
