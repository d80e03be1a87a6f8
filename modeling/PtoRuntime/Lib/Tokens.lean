import Mathlib

/-!
# Tokens

A system keeps some of its items in queues and program counters. Give every item a
*label* that says where it is; a label that is *held* stands for a place of the
system, the others for no place. `Tokens held L label` says that the list `L` of all
places of a state agrees with the labelling: an item is at a place exactly if its
label names that place, and no place holds it twice.

A step of the system moves one item. The lemmas below are the ways to do that:
`move` from a held label to another, `put` and `drop` to and from the held labels,
and `skip` between labels that are not held.
-/

namespace PtoRuntime.Lib

open List

open Function

variable {ι κ : Type} {held : κ → Prop} {L L' : List (ι × κ)} {label : ι → κ}
  {i : ι} {a b : κ}

structure Tokens (held : κ → Prop) (L : List (ι × κ)) (label : ι → κ) : Prop where
  nodup : L.Nodup
  mem_iff : ∀ i a, (i, a) ∈ L ↔ label i = a ∧ held a

namespace Tokens

theorem perm (h : Tokens held L label) (hp : L.Perm L') : Tokens held L' label :=
  ⟨hp.nodup_iff.mp h.nodup, fun i a => by rw [← hp.mem_iff, h.mem_iff]⟩

/-- A token has the label of its task. -/
theorem label_eq (h : Tokens held L label) (hm : (i, a) ∈ L) : label i = a :=
  ((h.mem_iff i a).mp hm).1

theorem held_of_mem (h : Tokens held L label) (hm : (i, a) ∈ L) : held a :=
  ((h.mem_iff i a).mp hm).2

/-- A held label has its token. -/
theorem mem_of_held (h : Tokens held L label) (hl : held (label i)) : (i, label i) ∈ L :=
  (h.mem_iff i _).mpr ⟨rfl, hl⟩

/-- Nothing else of the system holds the item of a token. -/
private theorem not_mem_tail (h : Tokens held ((i, a) :: L) label) (c : κ) : (i, c) ∉ L := by
  intro hm
  have hc : label i = c := h.label_eq (mem_cons_of_mem _ hm)
  have ha : label i = a := h.label_eq mem_cons_self
  exact (nodup_cons.mp h.nodup).1 (by rw [← ha, hc]; exact hm)

private theorem mem_tail_iff (h : Tokens held ((i, a) :: L) label) {j : ι} (hj : j ≠ i) (c : κ) :
    (j, c) ∈ L ↔ label j = c ∧ held c := by
  rw [← h.mem_iff, mem_cons]
  exact ⟨.inr, fun hm => hm.resolve_left fun he => hj (Prod.ext_iff.mp he).1⟩

variable [DecidableEq ι]

/-- A token is given up. -/
theorem drop (h : Tokens held ((i, a) :: L) label) (hb : ¬ held b) :
    Tokens held L (update label i b) := by
  refine ⟨(nodup_cons.mp h.nodup).2, fun j c => ?_⟩
  by_cases hj : j = i
  · subst hj
    rw [update_self]
    exact iff_of_false (h.not_mem_tail c) (by rintro ⟨rfl, hc⟩; exact hb hc)
  · rw [update_of_ne hj]
    exact h.mem_tail_iff hj c

/-- A token is taken up. -/
theorem put (h : Tokens held L label) (ha : ¬ held (label i)) (hb : held b) :
    Tokens held ((i, b) :: L) (update label i b) := by
  have hfree : ∀ c, (i, c) ∉ L := by
    intro c hm
    obtain ⟨rfl, hc⟩ := (h.mem_iff i c).mp hm
    exact ha hc
  refine ⟨nodup_cons.mpr ⟨hfree b, h.nodup⟩, fun j c => ?_⟩
  rw [mem_cons]
  by_cases hj : j = i
  · subst hj
    rw [update_self]
    constructor
    · rintro (he | hm)
      · cases he; exact ⟨rfl, hb⟩
      · exact absurd hm (hfree c)
    · rintro ⟨rfl, -⟩; exact .inl rfl
  -- the other items keep their tokens
  · rw [update_of_ne hj, ← h.mem_iff]
    exact ⟨fun hm => hm.resolve_left fun he => hj (Prod.ext_iff.mp he).1, .inr⟩

/-- A token changes its label. -/
theorem move (h : Tokens held ((i, a) :: L) label) (hb : held b) :
    Tokens held ((i, b) :: L) (update label i b) := by
  refine ⟨nodup_cons.mpr ⟨h.not_mem_tail b, (nodup_cons.mp h.nodup).2⟩, fun j c => ?_⟩
  rw [mem_cons]
  by_cases hj : j = i
  · subst hj
    rw [update_self]
    constructor
    · rintro (he | hm)
      · cases he; exact ⟨rfl, hb⟩
      · exact absurd hm (h.not_mem_tail c)
    · rintro ⟨rfl, -⟩; exact .inl rfl
  -- the other items keep their tokens
  · rw [update_of_ne hj, ← h.mem_tail_iff hj]
    exact ⟨fun hm => hm.resolve_left fun he => hj (Prod.ext_iff.mp he).1, .inr⟩

/-- A change between labels without tokens. -/
theorem skip (h : Tokens held L label) (ha : ¬ held (label i)) (hb : ¬ held b) :
    Tokens held L (update label i b) := by
  refine ⟨h.nodup, fun j c => ?_⟩
  rw [h.mem_iff]
  by_cases hj : j = i
  · subst hj
    rw [update_self]
    exact iff_of_false (by rintro ⟨rfl, hc⟩; exact ha hc) (by rintro ⟨rfl, hc⟩; exact hb hc)
  · rw [update_of_ne hj]

end Tokens

end PtoRuntime.Lib
