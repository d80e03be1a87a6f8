import Mathlib

/-!
# Simulated communicator — windows of a derived context

`comm_alloc_windows` maps one segment, a header and a window for every rank behind it, and writes
the window addresses to the context of the handle. `comm_derive_context` makes a context for some of
the ranks whose windows are a part `[window_offset, window_offset + window_size)` of theirs.

All sizes are `size_t`. The size of the segment and the range test are sums that may wrap: a segment
can be smaller than its windows, and an offset close to 2⁶⁴ passes the test and moves a window in
front of its owner.

Main results: `deriveContext_some`, `derived_windows_inside_owners`.
-/

namespace PtoRuntime.Comm

open List

/-- The sum or product of two `size_t`, or an address of a 64-bit process. -/
def wrap64 (n : Nat) : Nat := n % 2 ^ 64

/-- `HEADER_SIZE` -/
def headerSize : Nat := 4096

/-- `COMM_MAX_RANK_NUM` -/
def commMaxRankNum : Nat := 64

/-- `CommContext` -/
structure CommContext where
  rankId : Nat
  rankNum : Nat
  winSize : Nat
  windowsIn : List Nat
  windowsOut : List Nat
  deriving DecidableEq, Repr

/-- A handle as `comm_init` returns it. -/
structure CommInit where
  rank : Nat
  nranks : Nat
  rank_lt : rank < nranks
  nranks_le : nranks ≤ commMaxRankNum

/-- A handle whose windows are allocated. -/
structure CommHandle where
  nranks : Nat
  mmapBase : Nat
  mmapSize : Nat
  hostCtx : CommContext
  deriving DecidableEq, Repr

/-- The size that `comm_alloc_windows` gives to `ftruncate` and `mmap`. -/
def segmentSize (h : CommInit) (winSize : Nat) : Nat :=
  wrap64 (headerSize + wrap64 (winSize * h.nranks))

/-- What `comm_alloc_windows` leaves in the handle when `mmap` has returned `base`. -/
def allocWindows (h : CommInit) (winSize base : Nat) : CommHandle :=
  let windows := (range h.nranks).map fun i =>
    wrap64 (wrap64 (base + headerSize) + wrap64 (i * winSize))
  { nranks := h.nranks
    mmapBase := base
    mmapSize := segmentSize h winSize
    hostCtx := ⟨h.rank, h.nranks, winSize, windows, windows⟩ }

/-- The loop of `comm_derive_context` over `rank_ids`. -/
def deriveWindows (nranks : Nat) (windows : List Nat) (windowOffset : Nat) :
    List Nat → Option (List Nat)
  | [] => some []
  | r :: rs =>
    if nranks ≤ r then none
    else (deriveWindows nranks windows windowOffset rs).map
      (wrap64 (windows.getD r 0 + windowOffset) :: ·)

def deriveContext (h : CommHandle) (rankIds : List Nat) (domainRank windowOffset windowSize : Nat) :
    Option CommContext :=
  if rankIds.length = 0 ∨ commMaxRankNum < rankIds.length ∨ rankIds.length ≤ domainRank then none
  else if h.hostCtx.winSize < wrap64 (windowOffset + windowSize) then none
  else do
    let windowsIn ← deriveWindows h.nranks h.hostCtx.windowsIn windowOffset rankIds
    let windowsOut ← deriveWindows h.nranks h.hostCtx.windowsOut windowOffset rankIds
    return ⟨domainRank, rankIds.length, windowSize, windowsIn, windowsOut⟩

/-- A range of addresses. -/
structure Range where
  start : Nat
  size : Nat
  deriving DecidableEq, Repr

/-- `inner` lies inside `outer`. -/
def Range.Inside (inner outer : Range) : Prop :=
  outer.start ≤ inner.start ∧ inner.start + inner.size ≤ outer.start + outer.size

instance (r t : Range) : Decidable (r.Inside t) := inferInstanceAs (Decidable (_ ∧ _))

def CommHandle.mapped (h : CommHandle) : Range := ⟨h.mmapBase, h.mmapSize⟩

/-- The part of the segment that belongs to rank `r`. -/
def CommHandle.baseWindow (h : CommHandle) (r : Nat) : Range :=
  ⟨h.mmapBase + headerSize + r * h.hostCtx.winSize, h.hostCtx.winSize⟩

/-- Every window of the context lies in the window of its owner, and that in the mapping. -/
def WindowsInside (h : CommHandle) (rankIds : List Nat) (ctx : CommContext) : Prop :=
  ∀ (i r : Nat), rankIds[i]? = some r → ∃ w, ctx.windowsIn[i]? = some w ∧
    Range.Inside ⟨w, ctx.winSize⟩ (h.baseWindow r) ∧ (h.baseWindow r).Inside h.mapped

/-! ## A derived context -/

theorem deriveWindows_some {nranks windowOffset : Nat} {windows rankIds ws : List Nat}
    (h : deriveWindows nranks windows windowOffset rankIds = some ws) :
    (∀ r ∈ rankIds, r < nranks) ∧
      ws = rankIds.map fun r => wrap64 (windows.getD r 0 + windowOffset) := by
  induction rankIds generalizing ws with
  | nil =>
    cases h
    exact ⟨nofun, rfl⟩
  | cons r rs ih =>
    simp only [deriveWindows] at h
    split_ifs at h with hr
    obtain ⟨ws', hws', rfl⟩ := Option.map_eq_some_iff.mp h
    obtain ⟨hrs, rfl⟩ := ih hws'
    exact ⟨forall_mem_cons.mpr ⟨Nat.not_le.mp hr, hrs⟩, rfl⟩

theorem deriveContext_some {h : CommHandle} {rankIds : List Nat}
    {domainRank windowOffset windowSize : Nat} {ctx : CommContext}
    (hd : deriveContext h rankIds domainRank windowOffset windowSize = some ctx) :
    rankIds ≠ [] ∧ wrap64 (windowOffset + windowSize) ≤ h.hostCtx.winSize ∧
      (∀ r ∈ rankIds, r < h.nranks) ∧ ctx.winSize = windowSize ∧
      ctx.windowsIn =
        rankIds.map fun r => wrap64 (h.hostCtx.windowsIn.getD r 0 + windowOffset) := by
  unfold deriveContext at hd
  split at hd
  · cases hd
  · rename_i hcount
    split at hd
    · cases hd
    · rename_i hrange
      obtain ⟨wsIn, hin, hd⟩ := Option.bind_eq_some_iff.mp hd
      obtain ⟨wsOut, _, hd⟩ := Option.bind_eq_some_iff.mp hd
      cases hd
      obtain ⟨hranks, hws⟩ := deriveWindows_some hin
      refine ⟨?_, Nat.not_lt.mp hrange, hranks, rfl, hws⟩
      rintro rfl
      exact hcount (.inl rfl)

theorem allocWindows_getD {h : CommInit} {winSize base r : Nat} (hr : r < h.nranks) :
    (allocWindows h winSize base).hostCtx.windowsIn.getD r 0 =
      wrap64 (base + headerSize + r * winSize) := by
  simp [allocWindows, wrap64, getD, hr]

/-- The windows of a derived context lie inside the windows of their owners and these inside the
mapping, exactly when neither sum has wrapped. -/
theorem derived_windows_inside_owners (h : CommInit) (winSize base : Nat)
    (hmap : base + segmentSize h winSize < 2 ^ 64) (rankIds : List Nat)
    (domainRank windowOffset windowSize : Nat) (hoff : windowOffset < 2 ^ 64)
    (hwin : winSize < 2 ^ 64) (ctx : CommContext)
    (hd : deriveContext (allocWindows h winSize base) rankIds domainRank windowOffset windowSize =
      some ctx) :
    WindowsInside (allocWindows h winSize base) rankIds ctx ↔
      windowOffset + windowSize < 2 ^ 64 ∧
        ∀ r ∈ rankIds, headerSize + (r + 1) * winSize ≤ segmentSize h winSize := by
  obtain ⟨hne, hrange, hranks, hsize, hws⟩ := deriveContext_some hd
  have hrange' : wrap64 (windowOffset + windowSize) ≤ winSize := hrange
  -- the window of rank `r` is in the mapping when the segment is large enough for it
  have hbase : ∀ r, ((allocWindows h winSize base).baseWindow r).Inside
      (allocWindows h winSize base).mapped ↔
        headerSize + (r + 1) * winSize ≤ segmentSize h winSize := by
    intro r
    simp only [Range.Inside, CommHandle.baseWindow, CommHandle.mapped, allocWindows, Nat.succ_mul]
    omega
  have hget : ∀ i r : Nat, rankIds[i]? = some r → ctx.windowsIn[i]? =
      some (wrap64 (wrap64 (base + headerSize + r * winSize) + windowOffset)) := by
    intro i r hi
    rw [hws, getElem?_map, hi, Option.map_some,
      allocWindows_getD (hranks r (mem_of_getElem? hi))]
  constructor
  · intro hin
    refine ⟨?_, ?_⟩
    · obtain ⟨r, hr⟩ := exists_mem_of_ne_nil rankIds hne
      obtain ⟨i, hi⟩ := mem_iff_getElem?.mp hr
      obtain ⟨w, hw, hinside, howner⟩ := hin i r hi
      rw [hget i r hi, Option.some.injEq] at hw
      have hfit := (hbase r).mp howner
      simp only [Range.Inside, CommHandle.baseWindow, allocWindows, hsize] at hinside
      simp only [wrap64, Nat.succ_mul] at hw hfit hrange'
      omega
    · intro r hr
      obtain ⟨i, hi⟩ := mem_iff_getElem?.mp hr
      obtain ⟨w, _, _, howner⟩ := hin i r hi
      exact (hbase r).mp howner
  · rintro ⟨hsum, hfits⟩ i r hi
    have hfit := hfits r (mem_of_getElem? hi)
    refine ⟨_, hget i r hi, ?_, (hbase r).mpr hfit⟩
    simp only [Range.Inside, CommHandle.baseWindow, allocWindows, hsize]
    simp only [wrap64, Nat.succ_mul] at hrange' hfit ⊢
    omega

/-- Where the size of the segment has not wrapped, the second condition holds for every rank. -/
theorem window_le_segmentSize {h : CommInit} {winSize r : Nat}
    (hfit : headerSize + winSize * h.nranks < 2 ^ 64) (hr : r < h.nranks) :
    headerSize + (r + 1) * winSize ≤ segmentSize h winSize := by
  have hle : (r + 1) * winSize ≤ winSize * h.nranks := by
    rw [Nat.mul_comm]
    exact Nat.mul_le_mul_left _ hr
  have hsegment : segmentSize h winSize = headerSize + winSize * h.nranks := by
    unfold segmentSize wrap64
    rw [Nat.add_mod_mod, Nat.mod_eq_of_lt hfit]
  omega

/-- Ranks 1 and 0 of two, with half of their windows. -/
theorem derived_windows_inside_owners_two_ranks :
    ∃ ctx, deriveContext (allocWindows ⟨0, 2, by decide, by decide⟩ 8192 65536) [1, 0] 0 4096 4096 =
        some ctx ∧
      WindowsInside (allocWindows ⟨0, 2, by decide, by decide⟩ 8192 65536) [1, 0] ctx := by
  refine ⟨_, rfl, ?_⟩
  exact (derived_windows_inside_owners ⟨0, 2, by decide, by decide⟩ 8192 65536 (by decide) [1, 0] 0
    4096 4096 (by decide) (by decide) _ rfl).mpr (by decide)

/-- An offset of 2⁶⁴ - 8 with 16 bytes passes the range test, and the window starts 8 bytes before
its owner's. With 64 windows of 2⁵⁸ bytes the segment is the header alone. -/
theorem derived_window_outside_owner :
    (∃ ctx, deriveContext (allocWindows ⟨0, 1, by decide, by decide⟩ 4096 65536) [0] 0
        (2 ^ 64 - 8) 16 = some ctx ∧ ctx.windowsIn = [65536 + 4096 - 8]) ∧
      (∃ ctx, deriveContext (allocWindows ⟨0, 64, by decide, by decide⟩ (2 ^ 58) 65536) [0] 0
        0 4096 = some ctx ∧
        ¬ ((allocWindows ⟨0, 64, by decide, by decide⟩ (2 ^ 58) 65536).baseWindow 0).Inside
          (allocWindows ⟨0, 64, by decide, by decide⟩ (2 ^ 58) 65536).mapped) :=
  ⟨⟨_, rfl, by decide⟩, ⟨_, rfl, by decide⟩⟩

end PtoRuntime.Comm
