import PtoRuntime.Hier.Mailbox

/-!
# Requests and answers of the mailbox belong together

The mutex makes round trips of the callers, and the state word makes turns of caller and child: at
any time all threads but one are outside, and what that one and the child have to do with the
mailbox is one of the phases of `Phase`. Completed round trips are kept as a list of triples of a
request, what the child made of it, and what the caller got.

A control sub-command without a branch in the child's loop is answered as a success by both loops.
The chip loop has a branch for all of them; for the other, callers have to avoid them (`Served`).

Main results: `Request.carried_decode`, `Phase.step`, `Paired.reach`,
`mailbox_round_trips_paired`, `mailbox_unserved_malloc`.
-/

namespace PtoRuntime.Mailbox

open Lib Function List Option

/-! ## Memory -/

section Memory

variable {memory bytes : Bytes} {offset : Nat}

theorem length_nameSlot (h : bytes.length + 1 ≤ ctrlShmNameBytes) :
    (nameSlot bytes).length = ctrlShmNameBytes := by
  rw [nameSlot, length_append, length_replicate]
  omega

/-- Reading stops at the padding. -/
theorem readCString_append (h : (0 : UInt8) ∉ bytes) (n : Nat) :
    readCString (bytes ++ replicate n 0) = bytes := by
  have hall : ∀ b ∈ bytes, decide (b ≠ 0) = true := fun b hb =>
    decide_eq_true fun hzero => h (hzero ▸ hb)
  rw [readCString, takeWhile_append_of_pos hall]
  cases n with
  | zero => exact append_nil _
  | succ n =>
    rw [replicate_succ, takeWhile_cons_of_neg (by decide)]
    exact append_nil _

theorem take_drop_writeAt (h : offset ≤ memory.length) :
    ((writeAt memory offset bytes).drop offset).take bytes.length = bytes := by
  have hlen : (memory.take offset).length = offset := length_take_of_le h
  rw [writeAt, append_assoc, drop_left' hlen, take_left' rfl]

theorem take_writeAt (h : offset ≤ memory.length) :
    (writeAt memory offset bytes).take offset = memory.take offset := by
  have hlen : (memory.take offset).length = offset := length_take_of_le h
  rw [writeAt, append_assoc, take_left' hlen]

theorem length_le_writeAt : bytes.length ≤ (writeAt memory offset bytes).length := by
  rw [writeAt, length_append, length_append]
  omega

/-- A name that was written to a slot. -/
theorem readShmName_writeAt (name : CString) (h : name.bytes.length + 1 ≤ ctrlShmNameBytes)
    (slot : Nat) (hslot : slot * ctrlShmNameBytes ≤ memory.length) :
    readShmName (writeAt memory (slot * ctrlShmNameBytes) (nameSlot name.bytes)) slot =
      name.bytes := by
  have hread : ((writeAt memory (slot * ctrlShmNameBytes) (nameSlot name.bytes)).drop
      (slot * ctrlShmNameBytes)).take (nameSlot name.bytes).length = nameSlot name.bytes :=
    take_drop_writeAt hslot
  rw [length_nameSlot h] at hread
  rw [readShmName, hread]
  exact readCString_append name.nul_free _

/-- The second slot does not disturb the first. -/
theorem readShmName_zero_writeAt (h : ctrlShmNameBytes ≤ memory.length) :
    readShmName (writeAt memory ctrlShmNameBytes bytes) 0 = readShmName memory 0 := by
  rw [readShmName, readShmName, Nat.zero_mul, drop_zero, drop_zero, take_writeAt h]

/-- Both names of a pair. -/
theorem readShmName_pair (a b : CString) (ha : a.bytes.length + 1 ≤ ctrlShmNameBytes)
    (hb : b.bytes.length + 1 ≤ ctrlShmNameBytes) :
    readShmName (writeAt (writeAt memory 0 (nameSlot a.bytes)) ctrlShmNameBytes
        (nameSlot b.bytes)) 0 = a.bytes ∧
      readShmName (writeAt (writeAt memory 0 (nameSlot a.bytes)) ctrlShmNameBytes
        (nameSlot b.bytes)) 1 = b.bytes := by
  have hlen : ctrlShmNameBytes ≤ (writeAt memory 0 (nameSlot a.bytes)).length := by
    rw [← length_nameSlot ha]
    exact length_le_writeAt
  constructor
  · rw [readShmName_zero_writeAt hlen]
    exact readShmName_writeAt a ha 0 (Nat.zero_le _)
  · exact readShmName_writeAt b hb 1 hlen

end Memory

/-! ## What is written is what is read -/

/-- The job is what the request asks for. -/
def Request.Carried : Request → Job → Prop
  | .task callable config blob, .task cid config' args =>
    cid = callable ∧ config' = config ∧ blob <+: args
  | .malloc size, .malloc size' => size' = size
  | .free ptr, .free ptr' => ptr' = ptr
  | .copyTo dst src size, .copyTo dst' src' size' => dst' = dst ∧ src' = src ∧ size' = size
  | .copyFrom dst src size, .copyFrom dst' src' size' => dst' = dst ∧ src' = src ∧ size' = size
  | .prepare cid, .prepare cid' => cid' = cid
  | .register cid name, .register cid' name' => cid' = cid ∧ name' = name.bytes
  | .unregister cid, .unregister cid' => cid' = cid
  | .allocDomain request reply, .allocDomain request' reply' =>
    request' = request.bytes ∧ reply' = reply.bytes
  | .releaseDomain request, .releaseDomain request' => request' = request.bytes
  | .commInit request, .commInit request' => request' = request.bytes
  | .commOp request, .commOp request' => request' = request.bytes
  | _, _ => False

/-- The value of the callable word. -/
def Request.word : Request → Nat
  | .task callable _ _ => callable.toNat
  | r => r.subCmd.getD 0

theorem staged_one {before : List Store} {a : CString} (h : (staged before [a]).2 = false) :
    a.bytes.length + 1 ≤ ctrlShmNameBytes ∧
      (staged before [a]).1 = before ++ [.args 0 (nameSlot a.bytes)] ++ clearError := by
  by_cases hlen : ctrlShmNameBytes < a.bytes.length + 1
  · simp [staged, stageNames, hlen] at h
  · refine ⟨Nat.not_lt.mp hlen, ?_⟩
    simp [staged, stageNames, hlen]

theorem staged_two {before : List Store} {a b : CString} (h : (staged before [a, b]).2 = false) :
    a.bytes.length + 1 ≤ ctrlShmNameBytes ∧ b.bytes.length + 1 ≤ ctrlShmNameBytes ∧
      (staged before [a, b]).1 = before ++ [.args 0 (nameSlot a.bytes),
        .args ctrlShmNameBytes (nameSlot b.bytes)] ++ clearError := by
  by_cases ha : ctrlShmNameBytes < a.bytes.length + 1
  · simp [staged, stageNames, ha] at h
  by_cases hb : ctrlShmNameBytes < b.bytes.length + 1
  · simp [staged, stageNames, ha, hb] at h
  refine ⟨Nat.not_lt.mp ha, Nat.not_lt.mp hb, ?_⟩
  simp [staged, stageNames, ha, hb]

/-- The mailbox with a request in it, whatever was there before. -/
def Request.written (r : Request) (w : Words) : Words := r.stores.foldl Words.put w

/-- The words that a request leaves in the mailbox carry it, for a child that reads all of them. -/
theorem Request.carried_written (r : Request) (h : r.throws = false) (w : Words) :
    (r.written w).callable = r.word ∧ r.Carried (decode r.isControl r.word (r.written w)) := by
  unfold Request.written
  cases r with
  | task callable config blob =>
    by_cases hlen : mailboxArgsCapacity < blob.length
    · simp [Request.throws, Request.stage, hlen] at h
    · have hstores : (Request.task callable config blob).stores =
          clearError ++ [.callable callable.toNat, .config config] ++ [.args 0 blob] := by
        simp [Request.stores, Request.stage, hlen]
      rw [hstores]
      exact ⟨rfl, UInt32.ofNat_toNat, rfl, w.args.drop (0 + blob.length), rfl⟩
  | malloc size => exact ⟨rfl, rfl⟩
  | free ptr => exact ⟨rfl, rfl⟩
  | copyTo dst src size => exact ⟨rfl, rfl, rfl, rfl⟩
  | copyFrom dst src size => exact ⟨rfl, rfl, rfl, rfl⟩
  | prepare cid => exact ⟨rfl, UInt32.ofNat_toNat⟩
  | unregister cid => exact ⟨rfl, UInt32.ofNat_toNat⟩
  | register cid name =>
    obtain ⟨hlen, hstores⟩ := staged_one h
    rw [show (Request.register cid name).stores = _ from hstores]
    exact ⟨rfl, UInt32.ofNat_toNat, readShmName_writeAt name hlen 0 (Nat.zero_le _)⟩
  | allocDomain request reply =>
    obtain ⟨hrequest, hreply, hstores⟩ := staged_two h
    rw [show (Request.allocDomain request reply).stores = _ from hstores]
    exact ⟨rfl, readShmName_pair request reply hrequest hreply⟩
  | releaseDomain request =>
    obtain ⟨hrequest, hreply, hstores⟩ := staged_two h
    rw [show (Request.releaseDomain request).stores = _ from hstores]
    exact ⟨rfl, (readShmName_pair request emptyName hrequest hreply).1⟩
  | commInit request =>
    obtain ⟨hrequest, hreply, hstores⟩ := staged_two h
    rw [show (Request.commInit request).stores = _ from hstores]
    exact ⟨rfl, (readShmName_pair request emptyName hrequest hreply).1⟩
  | commOp request =>
    obtain ⟨hrequest, hreply, hstores⟩ := staged_two h
    rw [show (Request.commOp request).stores = _ from hstores]
    exact ⟨rfl, (readShmName_pair request emptyName hrequest hreply).1⟩

/-- The child reads the words its branch needs, and no others matter. -/
theorem decode_copy {K : ChildKind} {control : Bool} {callable : Nat} {fields : List Field}
    (h : K.fields control callable = some fields) (box : Words) :
    decode control callable (fields.foldl box.copy .blank) = decode control callable box := by
  unfold ChildKind.fields at h
  split at h
  case h_2 =>
    split_ifs at h
    cases h
    rfl
  all_goals first
    | cases h; rfl
    | cases h

/-- The state word is not part of the request. -/
theorem decode_state (control : Bool) (callable : Nat) (w : Words) (status : Status) :
    decode control callable { w with state := status } = decode control callable w := by
  unfold decode
  split <;> rfl

/-! ## Round trips -/

/-- The child has dealt with the request: it has carried it out, or it does not know the callable
and says so. -/
structure Answers (K : ChildKind) (r : Request) (e : Execution) : Prop where
  carried : ∀ job, e.job = some job → r.Carried job
  unknown : e.job = none → r.isControl = false ∧ K.fields false r.word = none ∧
    e.code = 1 ∧ e.msg = notRegistered r.word
  result : ∀ size, r = .malloc size → e.code = 0 → ∃ value, e.result = some value

/-- The caller gets what the child wrote. -/
def Gets (r : Request) (e : Execution) : Answer → Prop
  | .ok value => e.code = 0 ∧ ∀ size, r = .malloc size → ∃ v, value = some v ∧ e.result = some v
  | .failed code msg => code = e.code ∧ code ≠ 0 ∧ msg = readCString (errorRegion e.msg)

structure Trip where
  request : Request
  execution : Execution
  answer : Answer

structure Trip.Ok (K : ChildKind) (trip : Trip) : Prop where
  answers : Answers K trip.request trip.execution
  gets : Gets trip.request trip.execution trip.answer

variable {K : ChildKind} {s s' : State} {t : Nat} {r : Request} {e : Execution}

theorem ChildKind.fields_of_serves (h : K.serves r = true) (hc : r.isControl = true) :
    ∃ fields, K.fields true r.word = some fields := by
  cases r with
  | task callable config blob => cases hc
  | _ => exact isSome_iff_exists.mp h

/-- The reply answers the request read. -/
theorem answers_execute (hserves : K.serves r = true) {seen : Words} {reply : Reply}
    (hpossible : reply.possible r.isControl = true)
    (hcarried : ∀ fields, K.fields r.isControl r.word = some fields →
      r.Carried (decode r.isControl r.word seen)) :
    Answers K r (K.execute r.isControl r.word seen reply) := by
  cases hfields : K.fields r.isControl r.word with
  | none =>
    -- there is a branch for every control request that is made
    cases hcontrol : r.isControl with
    | true =>
      obtain ⟨fields, hsome⟩ := ChildKind.fields_of_serves hserves hcontrol
      rw [hcontrol, hsome] at hfields
      cases hfields
    | false =>
      rw [hcontrol] at hfields
      simp only [ChildKind.execute, hfields]
      exact ⟨nofun, fun _ => ⟨hcontrol, hfields, rfl, rfl⟩, fun _ _ => nofun⟩
  | some fields =>
    have hjob := hcarried fields hfields
    simp only [ChildKind.execute, hfields]
    cases reply with
    | ok value =>
      refine ⟨fun job heq => ?_, nofun, fun size hr _ => ?_⟩
      · cases heq
        exact hjob
      · subst hr
        exact ⟨value, rfl⟩
    | raised msg =>
      refine ⟨fun job heq => ?_, nofun, fun _ _ => nofun⟩
      cases heq
      exact hjob
    | hook code msg =>
      refine ⟨fun job heq => ?_, nofun, fun size hr _ => ?_⟩
      · cases heq
        exact hjob
      · subst hr
        cases hpossible

/-- The words the child writes for an execution. -/
structure Shows (box : Words) (e : Execution) : Prop where
  error : box.error = e.code
  errorMsg : box.errorMsg = errorRegion e.msg
  result : ∀ value, e.result = some value → box.result = value

/-- The stores show the reply. -/
theorem shows_stores (e : Execution) (w : Words) : Shows (e.stores.foldl Words.put w) e := by
  unfold Execution.stores
  refine ⟨?_, ?_, fun value hvalue => ?_⟩
  · cases e.result <;> rfl
  · cases e.result <;> rfl
  · rw [hvalue]
    rfl

/-- No store but the last of a request, an answer or a round trip is to the state word. -/
theorem Words.state_put (w : Words) (store : Store) : (w.put store).state = w.state := by
  cases store <;> rfl

/-! ## Phases -/

/-- The child on its way from the state word to the last word it reads. -/
def Looking (K : ChildKind) (r : Request) (box : Words) : ChildPc → Prop
  | .load => True
  | .callable control => control = r.isControl
  | .reading control callable todo seen => control = r.isControl ∧ callable = r.word ∧
      ∃ done, (K.fields control callable).getD [] = done ++ todo ∧
        seen = done.foldl box.copy .blank
  | .writing .. | .exited => False

/-- The caller between the answer of the child and the reset of the state word. -/
def Collecting (r : Request) (e : Execution) : CallerPc → Prop
  | .waiting r' => r' = r
  | .reading r' => r' = r
  | .readingMsg r' code => r' = r ∧ code = e.code ∧ code ≠ 0
  | .resetting r' answer => r' = r ∧ (answer = .ok none ∧ e.code = 0 ∨
      ∃ code msg, answer = .failed code msg ∧ Gets r e answer)
  | .outside | .writing .. | .readingResult _ | .leaving .. => False

/-- The caller after the reset. -/
def Closing (r : Request) (e : Execution) : CallerPc → Prop
  | .readingResult r' => r' = r ∧ e.code = 0
  | .leaving r' answer => r' = r ∧ Gets r e answer
  | _ => False

inductive Phase (K : ChildKind) (s : State) (trips : List Trip) : Prop
  | quiet (hmutex : s.mutex = none) (hchild : s.child = .load) (hstate : s.box.state = .idle)
      (hp : s.published = trips.map Trip.request) (he : s.executed = trips.map Trip.execution)
  | writing (t : Nat) (r : Request) (done todo : List Store) (w : Words)
      (hmutex : s.mutex = some t) (hcaller : s.caller t = .writing r todo)
      (hserves : K.serves r = true) (hchild : s.child = .load) (hstate : s.box.state = .idle)
      (hstores : r.stores = done ++ todo) (hbox : s.box = done.foldl Words.put w)
      (hp : s.published = trips.map Trip.request) (he : s.executed = trips.map Trip.execution)
  | sent (t : Nat) (r : Request) (w : Words) (hmutex : s.mutex = some t)
      (hcaller : s.caller t = .waiting r) (hserves : K.serves r = true)
      (hthrows : r.throws = false) (hbox : s.box = { r.written w with state := r.ready })
      (hchild : Looking K r s.box s.child)
      (hp : s.published = trips.map Trip.request ++ [r])
      (he : s.executed = trips.map Trip.execution)
  | answering (t : Nat) (r : Request) (e : Execution) (done todo : List Store) (w : Words)
      (hmutex : s.mutex = some t) (hcaller : s.caller t = .waiting r) (hanswers : Answers K r e)
      (hchild : s.child = .writing r.isControl todo) (hstate : s.box.state = r.ready)
      (hstores : e.stores = done ++ todo) (hbox : s.box = done.foldl Words.put w)
      (hp : s.published = trips.map Trip.request ++ [r])
      (he : s.executed = trips.map Trip.execution ++ [e])
  | answered (t : Nat) (r : Request) (e : Execution) (hmutex : s.mutex = some t)
      (hcaller : Collecting r e (s.caller t)) (hanswers : Answers K r e)
      (hchild : s.child = .load) (hstate : s.box.state = r.awaited) (hshows : Shows s.box e)
      (hp : s.published = trips.map Trip.request ++ [r])
      (he : s.executed = trips.map Trip.execution ++ [e])
  | closing (t : Nat) (r : Request) (e : Execution) (hmutex : s.mutex = some t)
      (hcaller : Closing r e (s.caller t)) (hanswers : Answers K r e)
      (hchild : s.child = .load) (hstate : s.box.state = .idle) (hshows : Shows s.box e)
      (hp : s.published = trips.map Trip.request ++ [r])
      (he : s.executed = trips.map Trip.execution ++ [e])

structure Paired (K : ChildKind) (s : State) (trips : List Trip) : Prop where
  outside : ∀ t, s.mutex ≠ some t → s.caller t = .outside
  returned : s.returned = trips.map fun trip => (trip.request, trip.answer)
  ok : ∀ trip ∈ trips, trip.Ok K
  phase : Phase K s trips

theorem Paired.init (K : ChildKind) : Paired K .init [] where
  outside _ _ := rfl
  returned := rfl
  ok _ h := absurd h not_mem_nil
  phase := .quiet rfl rfl rfl rfl rfl

variable {trips : List Trip}

/-- The thread with the mutex moves; the others stay where they are. -/
theorem outside_setCaller (h : ∀ t, s.mutex ≠ some t → s.caller t = .outside)
    (hmutex : s.mutex = some t) (pc : CallerPc) :
    ∀ t', s.mutex ≠ some t' → (s.setCaller t pc).caller t' = .outside := by
  refine (forall_update_iff s.caller fun t' pc' =>
    s.mutex ≠ some t' → pc' = .outside).mpr ⟨fun hne => absurd hmutex hne, fun t' _ => h t'⟩

/-- It leaves, and none is inside. -/
theorem outside_leave (h : ∀ t, s.mutex ≠ some t → s.caller t = .outside)
    (hmutex : s.mutex = some t) :
    ∀ t', (s.setCaller t .outside).caller t' = .outside := by
  refine (forall_update_iff s.caller fun _ pc => pc = .outside).mpr
    ⟨rfl, fun t' ht' => h t' ?_⟩
  rw [hmutex]
  exact fun heq => ht' (some.inj heq).symm

theorem caller_setCaller (s : State) (t : Nat) (pc : CallerPc) :
    (s.setCaller t pc).caller t = pc := update_self ..

/-- A caller takes the mutex. -/
theorem Paired.enter (h : Paired K s trips) (hserves : K.serves r = true)
    (hs : s.step K (.enter t r) = some s') : Paired K s' trips := by
  simp only [State.step] at hs
  split at hs
  swap
  · cases hs
  rename_i hmutex hcaller
  cases hs
  refine { h with outside := ?_, phase := ?_ }
  · refine (forall_update_iff s.caller fun t' pc =>
      some t ≠ some t' → pc = .outside).mpr
        ⟨fun hne => absurd rfl hne, fun t' _ _ => h.outside t' ?_⟩
    rw [hmutex]
    nofun
  · cases h.phase with
    | quiet _ hchild hstate hp he =>
      exact .writing t r [] r.stores s.box rfl (caller_setCaller ..) hserves hchild hstate rfl rfl
        hp he
    | writing t' _ _ _ _ hm | sent t' _ _ hm | answering t' _ _ _ _ _ hm | answered t' _ _ hm
    | closing t' _ _ hm => cases hmutex.symm.trans hm

/-- The caller that has the mutex moves on and keeps it. -/
theorem Paired.move (h : Paired K s trips) (hmutex : s.mutex = some t) {pc : CallerPc} {box : Words}
    {published : List Request}
    (hphase : Phase K { s.setCaller t pc with box := box, published := published } trips) :
    Paired K { s.setCaller t pc with box := box, published := published } trips :=
  { h with outside := outside_setCaller h.outside hmutex pc, phase := hphase }

theorem Request.ready_ne_awaited (r : Request) : r.ready ≠ r.awaited := by
  unfold Request.ready Request.awaited
  split <;> decide

/-- As long as the state word is not the awaited one, the caller spins. -/
theorem stepCaller_waiting (hcaller : s.caller t = .waiting r) (hstate : s.box.state = r.ready) :
    s.stepCaller t = none := by
  simp only [State.stepCaller, hcaller]
  rw [if_neg (hstate ▸ r.ready_ne_awaited)]

/-- The caller collects the answer. -/
theorem Paired.collect (h : Paired K s trips) (hmutex : s.mutex = some t)
    (hcaller : Collecting r e (s.caller t)) (hanswers : Answers K r e) (hchild : s.child = .load)
    (hstate : s.box.state = r.awaited) (hshows : Shows s.box e)
    (hp : s.published = trips.map Trip.request ++ [r])
    (he : s.executed = trips.map Trip.execution ++ [e]) (hs : s.stepCaller t = some s') :
    Paired K s' trips := by
  have hgo {pc : CallerPc} (hpc : Collecting r e pc) : Paired K (s.setCaller t pc) trips :=
    h.move hmutex (.answered t r e hmutex ((caller_setCaller s t pc).symm ▸ hpc) hanswers hchild
      hstate hshows hp he)
  have hreset {pc : CallerPc} (hpc : Closing r e pc) :
      Paired K { s.setCaller t pc with box := { s.box with state := .idle } } trips :=
    h.move hmutex (.closing t r e hmutex ((caller_setCaller s t pc).symm ▸ hpc) hanswers hchild rfl
      ⟨hshows.error, hshows.errorMsg, hshows.result⟩ hp he)
  obtain ⟨pc, hpc⟩ : ∃ pc, s.caller t = pc := ⟨_, rfl⟩
  rw [hpc] at hcaller
  simp only [State.stepCaller, hpc] at hs
  cases pc with
  | outside | writing _ _ | readingResult _ | leaving _ _ => exact hcaller.elim
  | waiting r' =>
    cases hcaller
    simp only [hstate, if_true] at hs
    cases hs
    exact hgo rfl
  | reading r' =>
    cases hcaller
    simp only [hshows.error] at hs
    split at hs
    · cases hs
      exact hgo ⟨rfl, .inl ⟨rfl, ‹_›⟩⟩
    · cases hs
      exact hgo ⟨rfl, rfl, ‹_›⟩
  | readingMsg r' code =>
    obtain ⟨rfl, hcode, hne⟩ := hcaller
    cases hs
    exact hgo ⟨rfl, .inr ⟨code, _, rfl, hcode, hne, by rw [hshows.errorMsg]⟩⟩
  | resetting r' answer =>
    obtain ⟨rfl, hanswer⟩ := hcaller
    cases hs
    refine hreset ?_
    rcases hanswer with ⟨rfl, hcode⟩ | ⟨code, msg, rfl, hgets⟩
    · cases r' with
      | malloc size => exact ⟨rfl, hcode⟩
      | _ => exact ⟨rfl, hcode, nofun⟩
    · cases r' <;> exact ⟨rfl, hgets⟩

/-- The caller leaves; a round trip is complete. -/
theorem Paired.close (h : Paired K s trips) (hmutex : s.mutex = some t)
    (hcaller : Closing r e (s.caller t)) (hanswers : Answers K r e) (hchild : s.child = .load)
    (hstate : s.box.state = .idle) (hshows : Shows s.box e)
    (hp : s.published = trips.map Trip.request ++ [r])
    (he : s.executed = trips.map Trip.execution ++ [e]) (hs : s.stepCaller t = some s') :
    ∃ trips', Paired K s' trips' := by
  obtain ⟨pc, hpc⟩ : ∃ pc, s.caller t = pc := ⟨_, rfl⟩
  rw [hpc] at hcaller
  simp only [State.stepCaller, hpc] at hs
  cases pc with
  | outside | writing _ _ | waiting _ | reading _ | readingMsg _ _ | resetting _ _ =>
    exact hcaller.elim
  | readingResult r' =>
    obtain ⟨rfl, hcode⟩ := hcaller
    cases hs
    refine ⟨trips, h.move hmutex (.closing t r' e hmutex ?_ hanswers hchild hstate hshows hp he)⟩
    rw [caller_setCaller]
    refine ⟨rfl, hcode, fun size hr => ?_⟩
    obtain ⟨value, hvalue⟩ := hanswers.result size hr hcode
    exact ⟨value, by rw [hshows.result value hvalue], hvalue⟩
  | leaving r' answer =>
    obtain ⟨rfl, hgets⟩ := hcaller
    cases hs
    refine ⟨trips ++ [⟨r', e, answer⟩], fun t' _ => outside_leave h.outside hmutex t', ?_,
      fun trip htrip => ?_, ?_⟩
    · rw [map_append, ← h.returned]
      rfl
    · rcases mem_append.mp htrip with htrip | htrip
      · exact h.ok trip htrip
      · cases mem_singleton.mp htrip
        exact ⟨hanswers, hgets⟩
    · refine .quiet rfl hchild hstate ?_ ?_
      · rw [map_append]
        exact hp
      · rw [map_append]
        exact he

/-- A step of the caller. -/
theorem Paired.caller (h : Paired K s trips) (hs : s.stepCaller t = some s') :
    ∃ trips', Paired K s' trips' := by
  have hmutex : s.mutex = some t := by
    by_contra hne
    rw [State.stepCaller, h.outside t hne] at hs
    cases hs
  cases h.phase with
  | quiet hm =>
    cases hmutex.symm.trans hm
  | writing t' r done todo w hm hcaller hserves hchild hstate hstores hbox hp he =>
    cases hmutex.symm.trans hm
    simp only [State.stepCaller, hcaller] at hs
    cases todo with
    | cons store todo =>
      cases hs
      refine ⟨trips, h.move hmutex (.writing t r (done ++ [store]) todo w hmutex
        (caller_setCaller ..) hserves hchild ?_ ?_ ?_ hp he)⟩
      · rw [Words.state_put]
        exact hstate
      · rw [append_assoc]
        exact hstores
      · rw [foldl_append, ← hbox]
        rfl
    | nil =>
      rw [append_nil] at hstores
      simp only at hs
      split_ifs at hs with hthrows
      · -- an exception before the state word is set
        cases hs
        exact ⟨trips, { h with
          outside := fun t' _ => outside_leave h.outside hmutex t'
          phase := .quiet rfl hchild hstate hp he }⟩
      · cases hs
        refine ⟨trips, h.move hmutex (.sent t r w hmutex (caller_setCaller ..) hserves
          (Bool.not_eq_true _ ▸ hthrows) ?_ ?_ ?_ he)⟩
        · show _ = _
          rw [hbox, ← hstores]
          rfl
        · show Looking K r _ s.child
          rw [hchild]
          trivial
        · show _ ++ _ = _
          rw [hp]
  | sent t' r w hm hcaller hserves hthrows hbox hchild hp he =>
    cases hmutex.symm.trans hm
    rw [stepCaller_waiting hcaller (by rw [hbox])] at hs
    cases hs
  | answering t' r e done todo w hm hcaller hanswers hchild hstate hstores hbox hp he =>
    cases hmutex.symm.trans hm
    rw [stepCaller_waiting hcaller hstate] at hs
    cases hs
  | answered t' r e hm hcaller hanswers hchild hstate hshows hp he =>
    cases hmutex.symm.trans hm
    exact ⟨trips, h.collect hmutex hcaller hanswers hchild hstate hshows hp he hs⟩
  | closing t' r e hm hcaller hanswers hchild hstate hshows hp he =>
    cases hmutex.symm.trans hm
    exact h.close hmutex hcaller hanswers hchild hstate hshows hp he hs

/-- The child finds a request in the mailbox. -/
theorem Paired.look (h : Paired K s trips) (hmutex : s.mutex = some t)
    (hcaller : s.caller t = .waiting r) (hserves : K.serves r = true) (hthrows : r.throws = false)
    {w : Words} (hbox : s.box = { r.written w with state := r.ready })
    (hchild : Looking K r s.box s.child) (hp : s.published = trips.map Trip.request ++ [r])
    (he : s.executed = trips.map Trip.execution) {reply : Reply}
    (hs : s.stepChild K reply = some s') : Paired K s' trips := by
  obtain ⟨hword, hcarried⟩ := r.carried_written hthrows w
  have hgo {pc : ChildPc} (hpc : Looking K r s.box pc) : Paired K { s with child := pc } trips :=
    ⟨h.outside, h.returned, h.ok, .sent t r w hmutex hcaller hserves hthrows hbox hpc hp he⟩
  obtain ⟨pc, hpc⟩ : ∃ pc, s.child = pc := ⟨_, rfl⟩
  rw [hpc] at hchild
  simp only [State.stepChild, hpc] at hs
  cases pc with
  | writing _ _ | exited => exact hchild.elim
  | load =>
    have hstate : s.box.state = r.ready := by rw [hbox]
    rw [hstate, Request.ready] at hs
    cases hcontrol : r.isControl with
    | true | false =>
      rw [hcontrol] at hs
      cases hs
      exact hgo hcontrol.symm
  | callable control =>
    cases hs
    refine hgo ⟨hchild, ?_, [], rfl, rfl⟩
    rw [hbox]
    exact hword
  | reading control callable todo seen =>
    obtain ⟨rfl, rfl, done, hfields, hseen⟩ := hchild
    cases todo with
    | cons field todo =>
      cases hs
      refine hgo ⟨rfl, rfl, done ++ [field], ?_, ?_⟩
      · rw [hfields, append_assoc]
        rfl
      · rw [foldl_append, ← hseen]
        rfl
    | nil =>
      -- all words are read, and they are those of the request
      rw [append_nil] at hfields
      obtain ⟨hpossible, heq⟩ := ite_none_right_eq_some.mp hs
      cases heq
      have hanswers : Answers K r (K.execute r.isControl r.word seen reply) := by
        refine answers_execute hserves hpossible fun fields hsome => ?_
        rw [hsome, getD_some] at hfields
        rw [hseen, ← hfields, decode_copy hsome, hbox, decode_state]
        exact hcarried
      exact ⟨h.outside, h.returned, h.ok, .answering t r _ [] _ s.box hmutex hcaller hanswers rfl
        (by rw [hbox]) rfl rfl hp (congrArg (· ++ [_]) he)⟩

/-- A step of the child. -/
theorem Paired.child (h : Paired K s trips) {reply : Reply} (hs : s.stepChild K reply = some s') :
    Paired K s' trips := by
  -- with nothing to do the child spins
  have hspin (hchild : s.child = .load)
      (hstate : s.box.state = .idle ∨ s.box.state = .taskDone ∨ s.box.state = .controlDone) :
      s' = s := by
    simp only [State.stepChild, hchild] at hs
    rcases hstate with hstate | hstate | hstate <;> rw [hstate] at hs <;> cases hs <;> rfl
  cases h.phase with
  | quiet hm hchild hstate hp he => exact hspin hchild (.inl hstate) ▸ h
  | writing t r done todo w hm hcaller hserves hchild hstate => exact hspin hchild (.inl hstate) ▸ h
  | sent t r w hm hcaller hserves hthrows hbox hchild hp he =>
    exact h.look hm hcaller hserves hthrows hbox hchild hp he hs
  | answering t r e done todo w hm hcaller hanswers hchild hstate hstores hbox hp he =>
    simp only [State.stepChild, hchild] at hs
    cases todo with
    | cons store todo =>
      cases hs
      refine ⟨h.outside, h.returned, h.ok, .answering t r e (done ++ [store]) todo w hm hcaller
        hanswers rfl ?_ ?_ ?_ hp he⟩
      · rw [Words.state_put]
        exact hstate
      · rw [append_assoc]
        exact hstores
      · rw [foldl_append, ← hbox]
        rfl
    | nil =>
      rw [append_nil] at hstores
      cases hs
      have hshows : Shows s.box e := by
        rw [hbox, ← hstores]
        exact shows_stores e w
      refine ⟨h.outside, h.returned, h.ok, .answered t r e hm ?_ hanswers rfl rfl
        ⟨hshows.error, hshows.errorMsg, hshows.result⟩ hp he⟩
      rw [show s.caller t = _ from hcaller]
      rfl
  | answered t r e hm hcaller hanswers hchild hstate =>
    refine hspin hchild (.inr ?_) ▸ h
    rw [hstate, Request.awaited]
    cases r.isControl
    · exact .inl rfl
    · exact .inr rfl
  | closing t r e hm hcaller hanswers hchild hstate => exact hspin hchild (.inl hstate) ▸ h

def State.Paired (K : ChildKind) (s : State) : Prop := ∃ trips, Mailbox.Paired K s trips

/-- Round trips are paired in every run. -/
theorem Paired.reach (h : Reach (State.step K) (Served K) .init s) : s.Paired K := by
  refine h.invariant (show State.init.Paired K from ⟨[], .init K⟩) ?_
  rintro s a s' - ⟨trips, hpaired⟩ hok hs
  cases a with
  | enter t r => exact ⟨trips, hpaired.enter hok hs⟩
  | caller t => exact hpaired.caller hs
  | child reply => exact ⟨trips, hpaired.child hs⟩

/-- The caller has seen the answer of the child. -/
def CallerPc.Informed : CallerPc → Prop
  | .outside | .writing .. | .waiting _ => False
  | .reading _ | .readingMsg .. | .resetting .. | .readingResult _ | .leaving .. => True

/-- A success is one of a request that was carried out. -/
theorem Trip.Ok.success {trip : Trip} (h : trip.Ok K) {value : Option Nat}
    (hanswer : trip.answer = .ok value) :
    (∃ job, trip.execution.job = some job ∧ trip.request.Carried job) ∧
      ∀ size, trip.request = .malloc size →
        ∃ v, value = some v ∧ trip.execution.result = some v := by
  have hgets := h.gets
  rw [hanswer] at hgets
  refine ⟨?_, hgets.2⟩
  cases hjob : trip.execution.job with
  | some job => exact ⟨job, rfl, h.answers.carried job hjob⟩
  | none =>
    obtain ⟨-, -, hcode, -⟩ := h.answers.unknown hjob
    rw [hgets.1] at hcode
    cases hcode

/-- A failure is what the child has reported. -/
theorem Trip.Ok.failure {trip : Trip} (h : trip.Ok K) {code : Int} {msg : Bytes}
    (hanswer : trip.answer = .failed code msg) :
    code = trip.execution.code ∧ msg = readCString (errorRegion trip.execution.msg) := by
  have hgets := h.gets
  rw [hanswer] at hgets
  exact ⟨hgets.1, hgets.2.2⟩

/-- Requests and executions that belong to no completed round trip. -/
structure InFlight (s : State) (trips : List Trip) (pending : List Request)
    (dealt : List Execution) : Prop where
  published : s.published = trips.map Trip.request ++ pending
  one : pending.length ≤ 1
  executed : s.executed = trips.map Trip.execution ++ dealt
  dealt_le : dealt.length ≤ pending.length
  informed : ∀ t, (s.caller t).Informed → dealt.length = pending.length

theorem Paired.inFlight (h : Paired K s trips) :
    ∃ pending dealt, InFlight s trips pending dealt := by
  -- only the thread with the mutex can be informed
  have hfree (hm : s.mutex = none) (t : Nat) : ¬ (s.caller t).Informed := by
    rw [h.outside t (by rw [hm]; nofun)]
    exact id
  have hwho {t t' : Nat} (hm : s.mutex = some t') (hinformed : (s.caller t).Informed) :
      (s.caller t').Informed := by
    by_cases ht : t' = t
    · rw [ht]
      exact hinformed
    · rw [h.outside t (by rw [hm]; exact fun heq => ht (some.inj heq))] at hinformed
      exact hinformed.elim
  have hlate {t : Nat} (hm : s.mutex = some t) (hnot : ¬ (s.caller t).Informed) (t' : Nat) :
      ¬ (s.caller t').Informed := fun hinformed => hnot (hwho hm hinformed)
  cases h.phase with
  | quiet hm hchild hstate hp he =>
    exact ⟨[], [], by rw [hp, append_nil], Nat.zero_le _, by rw [he, append_nil],
      Nat.le_refl _, fun t hi => absurd hi (hfree hm t)⟩
  | writing t r done todo w hm hcaller _ _ _ _ _ hp he =>
    exact ⟨[], [], by rw [hp, append_nil], Nat.zero_le _, by rw [he, append_nil],
      Nat.le_refl _, fun _ _ => rfl⟩
  | sent t r w hm hcaller _ _ _ _ hp he =>
    exact ⟨[r], [], hp, Nat.le_refl _, by rw [he, append_nil], Nat.zero_le _,
      fun t' hi => absurd hi (hlate hm (by rw [hcaller]; exact id) t')⟩
  | answering t r e _ _ _ _ _ _ _ _ _ _ hp he | answered t r e _ _ _ _ _ _ hp he
  | closing t r e _ _ _ _ _ _ hp he =>
    exact ⟨[r], [e], hp, Nat.le_refl _, he, Nat.le_refl _, fun _ _ => rfl⟩

/--
**Round trips are paired.** As long as callers make only control requests the child has a branch
for, there are round trips of a request, an execution and an answer such that

* the published requests are those of the round trips, in order, and at most one more (`InFlight`);
  the child has dealt once with each of them, and at most once with the one more; once a caller has
  seen the state word of the answer, it has;
* what has been returned to callers are the answers of the round trips;
* the child has carried out the request of each round trip, with the words the caller wrote, unless
it   is a task with a callable the child does not know, which is reported as an error (`Answers`);
* a caller that got an error got code and message of this execution, and one that got a success got
  it for a request that was carried out, with the value the child wrote.
-/
theorem mailbox_round_trips_paired (h : Reach (State.step K) (Served K) .init s) :
    ∃ trips, (∃ pending dealt, InFlight s trips pending dealt) ∧
      s.returned = (trips.map fun trip => (trip.request, trip.answer)) ∧
      ∀ trip ∈ trips, Answers K trip.request trip.execution ∧
        (∀ code msg, trip.answer = .failed code msg →
          code = trip.execution.code ∧ msg = readCString (errorRegion trip.execution.msg)) ∧
        ∀ value, trip.answer = .ok value →
          (∃ job, trip.execution.job = some job ∧ trip.request.Carried job) ∧
          ∀ size, trip.request = .malloc size →
            ∃ v, value = some v ∧ trip.execution.result = some v := by
  obtain ⟨trips, hpaired⟩ := Paired.reach h
  refine ⟨trips, hpaired.inFlight, hpaired.returned, fun trip htrip => ?_⟩
  have hok := hpaired.ok trip htrip
  exact ⟨hok.answers, fun _ _ => hok.failure, fun _ => hok.success⟩

/-- A round trip of thread 0: `n` stores up to the state word, the child, and `m` steps with the
answer. -/
def roundTrip (r : Request) (reply : Reply) (n m : Nat) : List Act :=
  .enter 0 r :: replicate n (Act.caller 0) ++ replicate 8 (Act.child reply) ++
    replicate m (Act.caller 0)

/-- An allocation on a chip child. -/
theorem mailbox_round_trips_paired_malloc : ∃ s, Reach (State.step .chip) (Served .chip) .init s ∧
    s.returned.map Prod.snd = [.ok (some 4096)] ∧
    ∃ trips : List Trip, s.returned = (trips.map fun trip => (trip.request, trip.answer)) ∧
      ∀ trip ∈ trips, Answers .chip trip.request trip.execution := by
  refine Reach.exists_of_run_imp (P := fun s => s.returned.map Prod.snd = [.ok (some 4096)])
    (roundTrip (.malloc 64) (.ok 4096) 7 5) (by decide +kernel) fun s hs hreturned => ?_
  obtain ⟨trips, -, htrips, hok⟩ := mailbox_round_trips_paired hs
  exact ⟨hreturned, trips, htrips, fun trip htrip => (hok trip htrip).1⟩

/-- The same request to a child that runs `_child_worker_loop`: nothing is carried out, and the
caller gets a word of an old configuration for an address. -/
theorem mailbox_unserved_malloc :
    ∃ s, Reach (State.step (.worker fun _ => true)) free .init s ∧
      s.returned.map Prod.snd = [.ok none, .ok (some 77)] ∧
      s.executed.map Execution.job =
        [some (.task 3 ⟨1, 2, 3, 77, []⟩ []), none] :=
  Reach.exists_of_run (roundTrip (.task 3 ⟨1, 2, 3, 77, []⟩ []) (.ok 0) 6 4 ++
    roundTrip (.malloc 64) (.ok 0) 7 5) (by decide +kernel)

end PtoRuntime.Mailbox
