import Mathlib

/-!
# Counting who has reported

A counter that is compared with a threshold stands for a list of distinct reporters
among a list of expected ones. When the number of reports reaches the number of
expected ones, everybody has reported.

A number that is spread over several places is their sum; `sum_update` moves one place. A list that
grows by one entry keeps the entries it has.
-/

namespace PtoRuntime.Lib

open List

open Function

variable {α : Type} {reported expected : List α}

/-- Distinct reports, as many as expected, are all. -/
theorem expected_subset_of_length_le (hn : reported.Nodup) (hs : reported ⊆ expected)
    (hl : expected.length ≤ reported.length) : expected ⊆ reported :=
  ((hn.subperm hs).perm_of_length_le hl).symm.subset

/-- A sum after one change. -/
theorem sum_update {κ β : Type} [DecidableEq κ] {places : Finset κ} {k : κ} (hk : k ∈ places)
    (f : β → Nat) (g : κ → β) (v : β) :
    ∑ x ∈ places, f (update g k v x) + f (g k) = ∑ x ∈ places, f (g x) + f v := by
  have hOther : ∑ x ∈ places.erase k, f (update g k v x) =
      ∑ x ∈ places.erase k, f (g x) :=
    Finset.sum_congr rfl fun x hx => by rw [update_of_ne (Finset.ne_of_mem_erase hx)]
  rw [← Finset.add_sum_erase _ _ hk, ← Finset.add_sum_erase _ (fun x => f (g x)) hk, hOther,
    update_self]
  omega

section Concat

variable {l : List α} {i : Nat} {x y : α}

theorem getElem?_concat_of_some (h : l[i]? = some x) : (l ++ [y])[i]? = some x := by
  rw [getElem?_append_left (List.getElem?_eq_some_iff.mp h).1]
  exact h

theorem getElem?_concat_cases (h : (l ++ [y])[i]? = some x) :
    l[i]? = some x ∨ i = l.length ∧ x = y := by
  rcases lt_or_ge i l.length with hlt | hge
  · rw [getElem?_append_left hlt] at h
    exact .inl h
  · rw [getElem?_append_right hge] at h
    obtain ⟨hlt, he⟩ := List.getElem?_eq_some_iff.mp h
    rw [length_singleton] at hlt
    simp only [getElem_singleton] at he
    exact .inr ⟨by omega, he.symm⟩

/-- Two lists of one length that grow together. -/
theorem getElem?_concat_pair {β : Type} {m : List β} {u v : β} (hlen : l.length = m.length)
    (hl : (l ++ [y])[i]? = some x) (hm : (m ++ [v])[i]? = some u) :
    l[i]? = some x ∧ m[i]? = some u ∨ x = y ∧ u = v := by
  rcases getElem?_concat_cases hl with hx | ⟨rfl, rfl⟩
  · rw [getElem?_append_left (hlen ▸ (List.getElem?_eq_some_iff.mp hx).1)] at hm
    exact .inl ⟨hx, hm⟩
  · rw [hlen, getElem?_concat_length] at hm
    exact .inr ⟨rfl, (Option.some.inj hm).symm⟩

end Concat

end PtoRuntime.Lib
