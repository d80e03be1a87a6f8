import Mathlib

/-!
# Places

A system keeps its items in lists, one list for each of its *places*, and moves them around
several at a time. A label says for each item where it is; labels that are not *held* stand for
items outside of the system. `Placed held items label` says that the lists agree with the labels,
so that no item is in two places or twice in one.

`Placed.move` is the only rule: some items leave one place and arrive at another. Either end may
be outside.
-/

namespace PtoRuntime.Lib

variable {ι κ : Type}
variable {label : ι → κ} {moved : List ι} {b : κ}

structure Placed (held : κ → Prop) (items : κ → List ι) (label : ι → κ) : Prop where
  nodup : ∀ a, held a → (items a).Nodup
  mem_iff : ∀ a, held a → ∀ i, i ∈ items a ↔ label i = a

variable [DecidableEq ι]

/-- The items of `moved` get the label `b`. -/
def relabel (label : ι → κ) (moved : List ι) (b : κ) (i : ι) : κ :=
  if i ∈ moved then b else label i

@[simp] theorem relabel_nil (label : ι → κ) (b : κ) : relabel label [] b = label :=
  funext fun _ => if_neg List.not_mem_nil

theorem relabel_of_mem {i : ι} (h : i ∈ moved) :
    relabel label moved b i = b := if_pos h

theorem relabel_of_not_mem {i : ι} (h : i ∉ moved) :
    relabel label moved b i = label i := if_neg h

/-- The items of `moved` go from `a` to `b`. -/
theorem Placed.move {held : κ → Prop} {items items' : κ → List ι} {a : κ}
    (h : Placed held items label) (hmoved : ∀ i ∈ moved, label i = a) (hnodup : moved.Nodup)
    (hne : a ≠ b) (hfrom : held a → (items' a).Nodup ∧ ∀ i, i ∈ items' a ↔ i ∈ items a ∧ i ∉ moved)
    (hto : held b → (items' b).Perm (items b ++ moved))
    (hrest : ∀ c, held c → c ≠ a → c ≠ b → items' c = items c) :
    Placed held items' (relabel label moved b) := by
  refine ⟨?_, ?_⟩
  · intro c hc
    by_cases ha : c = a
    · exact ha ▸ (hfrom (ha ▸ hc)).1
    by_cases hb : c = b
    · -- what arrives was somewhere else before
      subst hb
      rw [(hto hc).nodup_iff, List.nodup_append]
      refine ⟨h.nodup c hc, hnodup, ?_⟩
      rintro i hi j hj rfl
      exact hne ((hmoved i hj).symm.trans ((h.mem_iff c hc i).mp hi))
    · rw [hrest c hc ha hb]
      exact h.nodup c hc
  · intro c hc i
    by_cases ha : c = a
    · subst ha
      rw [(hfrom hc).2, h.mem_iff c hc]
      by_cases hi : i ∈ moved
      · rw [relabel_of_mem hi]
        exact iff_of_false (fun hm => hm.2 hi) hne.symm
      · rw [relabel_of_not_mem hi]
        exact and_iff_left hi
    by_cases hb : c = b
    · subst hb
      rw [(hto hc).mem_iff, List.mem_append, h.mem_iff c hc]
      by_cases hi : i ∈ moved
      · rw [relabel_of_mem hi]
        exact iff_of_true (.inr hi) rfl
      · rw [relabel_of_not_mem hi]
        exact or_iff_left hi
    · rw [hrest c hc ha hb, h.mem_iff c hc]
      by_cases hi : i ∈ moved
      · rw [relabel_of_mem hi, hmoved i hi]
        exact iff_of_false (Ne.symm ha) (Ne.symm hb)
      · rw [relabel_of_not_mem hi]

end PtoRuntime.Lib
