import Mathlib

/-!
# Sole holders

A family of threads, each in some local state that says what the thread holds: a ticket, a position,
a cell. `Sole holds f` says that nothing is held by two of them. A step changes the local state of
one thread; it may keep what it holds, give it up, or take what nobody holds.
-/

namespace PtoRuntime.Lib

open Function

variable {ι ρ κ : Type} {holds : ρ → κ → Prop} {f : ι → ρ} {i j : ι} {k : κ} {x : ρ}

def Sole (holds : ρ → κ → Prop) (f : ι → ρ) : Prop :=
  ∀ i j k, holds (f i) k → holds (f j) k → i = j

theorem Sole.of_none (h : ∀ i k, ¬ holds (f i) k) : Sole holds f :=
  fun i _ k hi _ => absurd hi (h i k)

theorem Sole.not_holds (h : Sole holds f) (hi : holds (f i) k) (hne : j ≠ i) : ¬ holds (f j) k :=
  fun hj => hne (h j i k hj hi)

/-- A key passes on, or is a new one. -/
theorem Sole.update [DecidableEq ι] (h : Sole holds f)
    (hnew : ∀ k, holds x k → holds (f i) k ∨ ∀ j, ¬ holds (f j) k) :
    Sole holds (update f i x) := by
  -- what the thread holds now, no other thread does
  have hother (j : ι) (k : κ) (hx : holds x k) (hj : holds (f j) k) : j = i := by
    rcases hnew k hx with hi | hno
    · exact h j i k hj hi
    · exact absurd hj (hno j)
  intro a b k ha hb
  by_cases hai : a = i
  · by_cases hbi : b = i
    · rw [hai, hbi]
    · rw [hai, update_self] at ha
      rw [update_of_ne hbi] at hb
      exact absurd (hother b k ha hb) hbi
  · rw [update_of_ne hai] at ha
    by_cases hbi : b = i
    · rw [hbi, update_self] at hb
      exact absurd (hother a k hb ha) hai
    · rw [update_of_ne hbi] at hb
      exact h a b k ha hb

end PtoRuntime.Lib
