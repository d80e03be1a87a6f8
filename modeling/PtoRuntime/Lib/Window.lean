import Mathlib

/-!
# Windows

Numbers handed out one after the other are stored in a table of `w` places, number `n` in
place `n % w`. As long as the numbers in use span less than `w`, no two of them share a
place.
-/

namespace PtoRuntime.Lib

variable {w i j : Nat}

/-- Two numbers of one window that share their place are equal. -/
theorem eq_of_mod_eq (h : i % w = j % w) (hi : i < j + w) (hj : j < i + w) : i = j :=
  Nat.ModEq.eq_of_abs_lt h (abs_lt.mpr ⟨by omega, by omega⟩)

end PtoRuntime.Lib
