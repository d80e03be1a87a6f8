import PtoRuntime.Lib.Reach

/-!
# Performance records of a core (a5)

`l2_perf_aicpu_complete_record` stores a record in the core's current buffer. A full buffer is
switched: handed to the ready queue and replaced, or emptied and its records counted as dropped. A
flush hands the last buffer over. What the queues and the staging ring have to offer at a call is
chosen with the call. No branch reads the counters; the 32-bit words of the code are the numbers
here modulo `2 ^ 32`.

Main results: `perf_records_accounted`, `record_left_after_flush`.
-/

namespace PtoRuntime.Prof

open Lib Option

/-- `PLATFORM_PROF_BUFFER_SIZE` -/
def profBufferSize : Nat := 1000

structure PerfCore where
  totalRecordCount : Nat
  droppedRecordCount : Nat
  mismatchRecordCount : Nat
  /-- `count` of the buffer at `current_buf_ptr`, if there is one -/
  currentBuf : Option Nat
  /-- history: records in buffers that were handed to the ready queue -/
  handedOver : Nat
  deriving DecidableEq

inductive PerfAct
  /-- whether there is a staging ring, its slot is the task's, and a switch finds a free buffer and
  room in the ready queue -/
  | completeRecord (ring published spare room : Bool)
  /-- whether the swimlane is enabled and the ready queue has room -/
  | flushBuffers (enabled room : Bool)

namespace PerfCore

/-- After `l2_perf_aicpu_init`, which may find no free buffer. -/
def init (spare : Bool) : PerfCore := ⟨0, 0, 0, if spare then some 0 else none, 0⟩

def switchBuffer (s : PerfCore) (spare room : Bool) : PerfCore :=
  match s.currentBuf with
  | none => s
  | some count =>
    if spare = false ∨ room = false then
      { s with droppedRecordCount := s.droppedRecordCount + count, currentBuf := some 0 }
    else { s with handedOver := s.handedOver + count, currentBuf := some 0 }

/-- The end of `l2_perf_aicpu_complete_record`, from where the buffer is known not to be full or
has been switched. -/
def store (s : PerfCore) : PerfCore :=
  match s.currentBuf with
  | none => { s with droppedRecordCount := s.droppedRecordCount + 1 }
  | some count =>
    if profBufferSize ≤ count then { s with droppedRecordCount := s.droppedRecordCount + 1 }
    else { s with currentBuf := some (count + 1) }

def completeRecord (s : PerfCore) (ring published spare room : Bool) : PerfCore :=
  let s := { s with totalRecordCount := s.totalRecordCount + 1 }
  if ring = false then { s with droppedRecordCount := s.droppedRecordCount + 1 }
  else if published = false then { s with mismatchRecordCount := s.mismatchRecordCount + 1 }
  else if s.currentBuf.any (profBufferSize ≤ ·) then (s.switchBuffer spare room).store
  else s.store

def flushBuffers (s : PerfCore) (enabled room : Bool) : PerfCore :=
  if enabled = false then s
  else
    match s.currentBuf with
    | none | some 0 => s
    | some count =>
      if room then { s with handedOver := s.handedOver + count, currentBuf := none }
      else { s with droppedRecordCount := s.droppedRecordCount + count, currentBuf := none }

def step (s : PerfCore) : PerfAct → Option PerfCore
  | .completeRecord ring published spare room => some (s.completeRecord ring published spare room)
  | .flushBuffers enabled room => some (s.flushBuffers enabled room)

/-! ## What each function adds to the sum -/

/-- Records that are accounted for. -/
def recorded (s : PerfCore) : Nat :=
  s.handedOver + s.droppedRecordCount + s.mismatchRecordCount + s.currentBuf.getD 0

variable {s s₀ : PerfCore}

theorem switchBuffer_spec (s : PerfCore) (spare room : Bool) :
    (s.switchBuffer spare room).totalRecordCount = s.totalRecordCount ∧
      (s.switchBuffer spare room).recorded = s.recorded := by
  unfold switchBuffer
  split
  next => exact ⟨rfl, rfl⟩
  next count hbuf =>
    split_ifs <;> refine ⟨rfl, ?_⟩ <;> simp only [recorded, hbuf, getD_some] <;> omega

theorem store_spec (s : PerfCore) :
    s.store.totalRecordCount = s.totalRecordCount ∧ s.store.recorded = s.recorded + 1 := by
  unfold store
  split
  next hbuf =>
    refine ⟨rfl, ?_⟩
    simp only [recorded, hbuf]
    omega
  next count hbuf =>
    split_ifs <;> refine ⟨rfl, ?_⟩ <;> simp only [recorded, hbuf, getD_some] <;> omega

theorem completeRecord_spec (s : PerfCore) (ring published spare room : Bool) :
    (s.completeRecord ring published spare room).totalRecordCount = s.totalRecordCount + 1 ∧
      (s.completeRecord ring published spare room).recorded = s.recorded + 1 := by
  unfold completeRecord
  dsimp only
  split_ifs
  · exact ⟨rfl, by simp only [recorded]; omega⟩
  · exact ⟨rfl, by simp only [recorded]; omega⟩
  -- A full buffer: the switch moves its records within the sum, the store adds the new one.
  · rw [(store_spec _).1, (store_spec _).2, (switchBuffer_spec ..).1, (switchBuffer_spec ..).2]
    exact ⟨rfl, rfl⟩
  · rw [(store_spec _).1, (store_spec _).2]
    exact ⟨rfl, rfl⟩

theorem flushBuffers_spec (s : PerfCore) (enabled room : Bool) :
    (s.flushBuffers enabled room).totalRecordCount = s.totalRecordCount ∧
      (s.flushBuffers enabled room).recorded = s.recorded := by
  unfold flushBuffers
  split
  · exact ⟨rfl, rfl⟩
  split
  next => exact ⟨rfl, rfl⟩
  next => exact ⟨rfl, rfl⟩
  next count _ hbuf =>
    split_ifs <;> refine ⟨rfl, ?_⟩ <;> simp only [recorded, hbuf, getD_some, getD_none] <;> omega

/-! ## Runs -/

theorem accounted_of_reach (h₀ : s₀.totalRecordCount = s₀.recorded)
    (h : Reach step free s₀ s) : s.totalRecordCount = s.recorded := by
  induction h with
  | init => exact h₀
  | @step s t a _ _ hst ih =>
    cases a with
    | completeRecord ring published spare room =>
      cases hst
      rw [(completeRecord_spec ..).1, (completeRecord_spec ..).2, ih]
    | flushBuffers enabled room =>
      cases hst
      rw [(flushBuffers_spec ..).1, (flushBuffers_spec ..).2, ih]

theorem currentBuf_flushBuffers (hbuf : s.currentBuf ≠ some 0) (room : Bool) :
    (s.flushBuffers true room).currentBuf = none := by
  unfold flushBuffers
  rw [if_neg (by decide)]
  split
  next hnone => exact hnone
  next hzero => exact absurd hzero hbuf
  next => split_ifs <;> rfl

/-- No function takes a buffer where there is none. -/
theorem no_buffer_of_reach (h₀ : s₀.currentBuf = none)
    (h : Reach step free s₀ s) : s.currentBuf = none := by
  induction h with
  | init => exact h₀
  | @step s t a _ _ hst ih =>
    cases a with
    | completeRecord ring published spare room =>
      cases hst
      unfold completeRecord
      dsimp only
      split_ifs with _ _ hfull
      · exact ih
      · exact ih
      · simp [ih] at hfull
      · simp [store, ih]
    | flushBuffers enabled room =>
      cases hst
      simp [flushBuffers, ih]

end PerfCore

open PerfCore

/-- Every record of a core is accounted for in every state, whatever the queues hold; after a flush
that finds records or no buffer, every later record is handed over, dropped or mismatched. -/
theorem perf_records_accounted (spare : Bool) :
    (∀ s, Reach step free (init spare) s →
      s.totalRecordCount = s.handedOver + s.droppedRecordCount + s.mismatchRecordCount +
        s.currentBuf.getD 0) ∧
    ∀ s room t, Reach step free (init spare) s → s.currentBuf ≠ some 0 →
      Reach step free (s.flushBuffers true room) t → t.currentBuf = none ∧
        t.totalRecordCount = t.handedOver + t.droppedRecordCount + t.mismatchRecordCount := by
  have hinit : (init spare).totalRecordCount = (init spare).recorded := by cases spare <;> rfl
  refine ⟨fun s hs => accounted_of_reach hinit hs, fun s room t hs hbuf ht => ?_⟩
  have hnone := no_buffer_of_reach (currentBuf_flushBuffers hbuf room) ht
  have hflush : Reach step free (init spare) (s.flushBuffers true room) :=
    .step (a := .flushBuffers true room) hs trivial rfl
  have hsum := accounted_of_reach hinit (hflush.trans ht)
  rw [recorded, hnone] at hsum
  exact ⟨hnone, hsum⟩

/-- One record before the flush, and one after it, which is dropped. -/
theorem perf_records_accounted_after_flush : ∃ s t, Reach step free (init true) s ∧
    s.currentBuf = some 1 ∧ Reach step free (s.flushBuffers true true) t ∧ t.currentBuf = none ∧
      t.totalRecordCount = t.handedOver + t.droppedRecordCount + t.mismatchRecordCount := by
  have hs : Reach step free (init true) ⟨1, 0, 0, some 1, 0⟩ :=
    .step (a := .completeRecord true true true true) .init trivial rfl
  have ht : Reach step free (flushBuffers ⟨1, 0, 0, some 1, 0⟩ true true) ⟨2, 1, 0, none, 1⟩ :=
    .step (a := .completeRecord true true true true) .init trivial rfl
  exact ⟨_, _, hs, rfl, ht, (perf_records_accounted true).2 _ true _ hs (by decide) ht⟩

/-- A flush that finds the buffer empty leaves it in place, and the next record stays in it. -/
theorem record_left_after_flush :
    ∃ s, Reach step free ((init true).flushBuffers true true) s ∧ s.totalRecordCount = 1 ∧
      s.currentBuf = some 1 ∧ s.handedOver = 0 ∧ s.droppedRecordCount = 0 ∧
        s.mismatchRecordCount = 0 :=
  Reach.exists_of_run [.completeRecord true true true true] (by decide)

end PtoRuntime.Prof
