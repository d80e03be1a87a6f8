import PtoRuntime.Lib.Window

/-!
# An append-only log in a ring

Entries are numbered in the order of allocation, and entry `l` is kept in cell `l % cap`.
Two counters are kept: `top`, the number of the next entry, and `tail`, below which the
entries are dead. `Stored cap tail top log base` says what the cells hold when `log` is
the whole log: every entry between the counters can be read in its cell.

Main results: `Stored.push`, `Stored.advance`, `fresh`, `Stored.segment`.
-/

namespace PtoRuntime.Lib.RingLog

open List

open Function

variable {β : Type} {cap tail tail' top l n start : Nat} {log base : Nat → β}

structure Stored (cap tail top : Nat) (log base : Nat → β) : Prop where
  top_le : top ≤ tail + cap
  read : ∀ l, tail ≤ l → l < top → base (l % cap) = log l

/-- The top has a cell of its own. -/
theorem fresh (hl : tail ≤ l) (hlt : l < top) (hroom : top < tail + cap) :
    l % cap ≠ top % cap := by
  intro h
  have := eq_of_mod_eq h (by omega) (by omega)
  omega

/-- An entry is stored at the top. -/
theorem Stored.push (h : Stored cap tail top log base) (hroom : top < tail + cap) (x : β) :
    Stored cap tail (top + 1) (update log top x) (update base (top % cap) x) := by
  refine ⟨hroom, fun l hl hlt => ?_⟩
  rcases Nat.lt_succ_iff_lt_or_eq.mp hlt with hlt | rfl
  · rw [update_of_ne (fresh hl hlt hroom), update_of_ne hlt.ne]
    exact h.read l hl hlt
  · rw [update_self, update_self]

/-- Entries are given back. -/
theorem Stored.advance (h : Stored cap tail top log base) (hle : tail ≤ tail') :
    Stored cap tail' top log base :=
  ⟨h.top_le.trans (Nat.add_le_add_right hle cap), fun l hl => h.read l (hle.trans hl)⟩

/-- Two straight reads, up to the end of the cells and from their start, visit the cells
of `n` consecutive entries in order. -/
theorem map_two_parts (base : Nat → β) (start : Nat) (hn : n ≤ cap) (hcap : 0 < cap) :
    (range (min n (cap - start % cap))).map (fun i => base (start % cap + i)) ++
        (range (n - min n (cap - start % cap))).map base =
      (range n).map fun i => base ((start + i) % cap) := by
  have hlt := Nat.mod_lt start hcap
  obtain ⟨k, hk⟩ : ∃ k, k = min n (cap - start % cap) := ⟨_, rfl⟩
  rw [← hk, show n = k + (n - k) by omega, range_add, map_append, map_map,
    Nat.add_sub_cancel_left]
  congr 1
  · refine map_congr_left fun i hi => ?_
    have := mem_range.mp hi
    rw [Nat.add_mod, Nat.mod_eq_of_lt (show i < cap by omega),
      Nat.mod_eq_of_lt (show start % cap + i < cap by omega)]
  · refine map_congr_left fun i hi => ?_
    -- the first part has reached the end of the cells
    have := mem_range.mp hi
    show base i = base ((start + (k + i)) % cap)
    rw [Nat.add_mod, Nat.mod_eq_of_lt (show k + i < cap by omega),
      show start % cap + (k + i) = cap + i by omega, Nat.add_mod_left,
      Nat.mod_eq_of_lt (show i < cap by omega)]

/-- A stored range is read in at most two pieces. -/
theorem Stored.segment (h : Stored cap tail top log base) (hcap : 0 < cap) (hlo : tail ≤ start)
    (hhi : start + n ≤ top) :
    (range (min n (cap - start % cap))).map (fun i => base (start % cap + i)) ++
        (range (n - min n (cap - start % cap))).map base =
      (range n).map fun i => log (start + i) := by
  have hle := h.top_le
  rw [map_two_parts base start (by omega) hcap]
  refine map_congr_left fun i hi => ?_
  have := mem_range.mp hi
  exact h.read _ (by omega) (by omega)

end PtoRuntime.Lib.RingLog
