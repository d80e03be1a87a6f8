import PtoRuntime.Lib.Counting

/-!
# Rosters

A list that has every element with a property, and each of them once: the order in which things
came to have the property, over a run in which it is never lost.
-/

namespace PtoRuntime.Lib

open List

variable {α : Type} {P P' : α → Prop} {l : List α} {x : α}

structure Roster (P : α → Prop) (l : List α) : Prop where
  nodup : l.Nodup
  mem_iff : ∀ x, x ∈ l ↔ P x

theorem Roster.congr (h : Roster P l) (hP : ∀ x, P' x ↔ P x) : Roster P' l :=
  ⟨h.nodup, fun x => (h.mem_iff x).trans (hP x).symm⟩

/-- One element comes to have the property. -/
theorem Roster.concat (h : Roster P l) (hx : ¬ P x) (hP : ∀ y, P' y ↔ P y ∨ y = x) :
    Roster P' (l ++ [x]) where
  nodup := by
    rw [← concat_eq_append]
    exact h.nodup.concat fun hmem => hx ((h.mem_iff x).mp hmem)
  mem_iff y := by
    rw [mem_append, mem_singleton, h.mem_iff]
    exact (hP y).symm

/-- A list as long as the expected one has it all. -/
theorem Roster.subset_of_length_le (h : Roster P l) (expected : List α)
    (hP : ∀ x, P x → x ∈ expected) (hl : expected.length ≤ l.length) : ∀ x ∈ expected, P x :=
  fun x hx => (h.mem_iff x).mp
    (expected_subset_of_length_le h.nodup (fun y hy => hP y ((h.mem_iff y).mp hy)) hl hx)

theorem Roster.length_le {P : Nat → Prop} {l : List Nat} (h : Roster P l) {n : Nat}
    (hP : ∀ x, P x → x < n) : l.length ≤ n := by
  have hsub : l ⊆ range n := fun x hx => mem_range.mpr (hP x ((h.mem_iff x).mp hx))
  have := (h.nodup.subperm hsub).length_le
  rwa [length_range] at this

/-- Somebody below the bound is missing. -/
theorem Roster.length_lt {P : Nat → Prop} {l : List Nat} (h : Roster P l) {n x : Nat}
    (hP : ∀ x, P x → x < n) (hx : x < n) (hnot : ¬ P x) : l.length < n := by
  have hmore : Roster (fun y => P y ∨ y = x) (l ++ [x]) := h.concat hnot fun _ => .rfl
  have := hmore.length_le (n := n) fun y hy => hy.elim (hP y) fun he => he ▸ hx
  rw [length_append] at this
  exact this

end PtoRuntime.Lib
