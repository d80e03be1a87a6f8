import PtoRuntime.Lib.Reach

/-!
# The mailbox between a worker thread and its child process

The hierarchical runtime runs its workers in child processes. Parent and child share a mailbox of
4096 bytes: a state word, an error code and message, a word that holds the callable or the control
sub-command, the call configuration, and a region for arguments. The control arguments and the
control result lie inside the configuration.

A thread of the parent that has a task or a control request for the child takes `mailbox_mu_`,
writes the request word by word, sets the state to `TASK_READY` or `CONTROL_REQUEST`, spins until
the child has set it to `TASK_DONE` or `CONTROL_DONE`, reads the error code and message, sets the
state back to `IDLE` and reads the result. The child spins on the state, reads the words of the
request, carries it out, writes result, error code and message, and sets the state. There are two
kinds of children, with loops of their own: `_run_chip_main_loop` has a branch for every control
sub-command, `_child_worker_loop` for two of them. Both take a sub-command without a branch for a
success.

Every load and every store of a part of the mailbox is one step, of any thread or of the child.
-/

namespace PtoRuntime.Mailbox

open List

abbrev Bytes := List UInt8

def mailboxErrorMsgSize : Nat := 256
def mailboxArgsCapacity : Nat := 2776
def ctrlShmNameBytes : Nat := 32

/-- `MailboxState` -/
inductive Status
  | idle
  | taskReady
  | taskDone
  | shutdown
  | controlRequest
  | controlDone
  deriving DecidableEq, Repr

/-- The configuration as it lies in the mailbox: the four words that control requests use, and the
rest. -/
structure CallConfig where
  word0 : Nat
  word1 : Nat
  word2 : Nat
  word3 : Nat
  tail : Bytes
  deriving DecidableEq

/-- The mailbox. `CTRL_OFF_ARG0` … `CTRL_OFF_RESULT` are the first words of the configuration. -/
structure Words where
  state : Status
  error : Int
  callable : Nat
  arg0 : Nat
  arg1 : Nat
  arg2 : Nat
  result : Nat
  configTail : Bytes
  args : Bytes
  errorMsg : Bytes

inductive Store
  | error (code : Int)
  | errorMsg (region : Bytes)
  | callable (value : Nat)
  | config (config : CallConfig)
  | arg0 (value : Nat)
  | arg1 (value : Nat)
  | arg2 (value : Nat)
  | result (value : Nat)
  /-- bytes of the argument region from an offset on -/
  | args (offset : Nat) (bytes : Bytes)
  deriving DecidableEq

def writeAt (memory : Bytes) (offset : Nat) (bytes : Bytes) : Bytes :=
  memory.take offset ++ bytes ++ memory.drop (offset + bytes.length)

def Words.put (w : Words) : Store → Words
  | .error code => { w with error := code }
  | .errorMsg region => { w with errorMsg := region }
  | .callable value => { w with callable := value }
  | .config config =>
    { w with
      arg0 := config.word0, arg1 := config.word1, arg2 := config.word2, result := config.word3
      configTail := config.tail }
  | .arg0 value => { w with arg0 := value }
  | .arg1 value => { w with arg1 := value }
  | .arg2 value => { w with arg2 := value }
  | .result value => { w with result := value }
  | .args offset bytes => { w with args := writeAt w.args offset bytes }

/-! ## Requests of the parent -/

/-- A string as C passes it: it ends at its first NUL. -/
structure CString where
  bytes : Bytes
  nul_free : (0 : UInt8) ∉ bytes

/-- `dispatch_process` and the `control_*` methods, with their arguments. -/
inductive Request
  | task (callable : UInt32) (config : CallConfig) (blob : Bytes)
  | malloc (size : Nat)
  | free (ptr : Nat)
  | copyTo (dst src size : Nat)
  | copyFrom (dst src size : Nat)
  | prepare (cid : UInt32)
  | register (cid : UInt32) (shmName : CString)
  | unregister (cid : UInt32)
  | allocDomain (request reply : CString)
  | releaseDomain (request : CString)
  | commInit (request : CString)
  | commOp (request : CString)

/-- `CTRL_MALLOC` … `CTRL_COMM_OP`; a task has none. -/
def Request.subCmd : Request → Option Nat
  | .task .. => none
  | .malloc .. => some 0
  | .free .. => some 1
  | .copyTo .. => some 2
  | .copyFrom .. => some 3
  | .prepare .. => some 4
  | .register .. => some 5
  | .unregister .. => some 6
  | .allocDomain .. => some 7
  | .releaseDomain .. => some 8
  | .commInit .. => some 9
  | .commOp .. => some 10

def Request.isControl (r : Request) : Bool := r.subCmd.isSome

/-- The value the state word gets, and the one the caller waits for. -/
def Request.ready (r : Request) : Status := if r.isControl then .controlRequest else .taskReady
def Request.awaited (r : Request) : Status := if r.isControl then .controlDone else .taskDone

def clearError : List Store := [.error 0, .errorMsg (replicate mailboxErrorMsgSize 0)]

def writeControlArgs (subCmd a0 a1 a2 : Nat) : List Store :=
  [.callable subCmd, .arg0 a0, .arg1 a1, .arg2 a2]

/-- A name, padded to the size of its slot. -/
def nameSlot (name : Bytes) : Bytes :=
  name ++ replicate (ctrlShmNameBytes - name.length) 0

/-- Names go to consecutive slots; one that is too long is an exception, with the stores so far. -/
def stageNames (slot : Nat) : List CString → List Store × Bool
  | [] => ([], false)
  | name :: rest =>
    if ctrlShmNameBytes < name.bytes.length + 1 then ([], true)
    else
      let (stores, throws) := stageNames (slot + 1) rest
      (.args (slot * ctrlShmNameBytes) (nameSlot name.bytes) :: stores, throws)

/-- Stores of a request with names, up to an exception. -/
def staged (before : List Store) (names : List CString) : List Store × Bool :=
  match stageNames 0 names with
  | (stores, true) => (before ++ stores, true)
  | (stores, false) => (before ++ stores ++ clearError, false)

def emptyName : CString := ⟨[], List.not_mem_nil⟩

/-- What a request stores before it sets the state word, and whether it throws instead of that. -/
def Request.stage : Request → List Store × Bool
  | .task callable config blob =>
    let before := clearError ++ [.callable callable.toNat, .config config]
    if mailboxArgsCapacity < blob.length then (before, true)
    else (before ++ [.args 0 blob], false)
  | .malloc size => staged (writeControlArgs 0 size 0 0) []
  | .free ptr => staged (writeControlArgs 1 ptr 0 0) []
  | .copyTo dst src size => staged (writeControlArgs 2 dst src size) []
  | .copyFrom dst src size => staged (writeControlArgs 3 dst src size) []
  | .prepare cid => staged (writeControlArgs 4 cid.toNat 0 0) []
  | .register cid shmName => staged [.callable 5, .arg0 cid.toNat] [shmName]
  | .unregister cid => staged (writeControlArgs 6 cid.toNat 0 0) []
  | .allocDomain request reply => staged [.callable 7] [request, reply]
  | .releaseDomain request => staged [.callable 8] [request, emptyName]
  | .commInit request => staged [.callable 9] [request, emptyName]
  | .commOp request => staged [.callable 10] [request, emptyName]

def Request.stores (r : Request) : List Store := r.stage.1
def Request.throws (r : Request) : Bool := r.stage.2

/-- What the caller gets. -/
inductive Answer
  | ok (value : Option Nat)
  | failed (code : Int) (msg : Bytes)
  deriving DecidableEq

/-- A region is read as a string up to its first NUL. -/
def readCString (region : Bytes) : Bytes := region.takeWhile (· ≠ 0)

inductive CallerPc
  | outside
  | writing (request : Request) (todo : List Store)
  | waiting (request : Request)
  | reading (request : Request)
  | readingMsg (request : Request) (code : Int)
  | resetting (request : Request) (answer : Answer)
  | readingResult (request : Request)
  | leaving (request : Request) (answer : Answer)

/-! ## The child -/

/-- Which loop the child runs; `_child_worker_loop` looks callables up in its registry. -/
inductive ChildKind
  | chip
  | worker (registered : Nat → Bool)

inductive Field
  | config
  | args
  | arg0
  | arg1
  | arg2

def Words.blank : Words where
  state := .idle
  error := 0
  callable := 0
  arg0 := 0
  arg1 := 0
  arg2 := 0
  result := 0
  configTail := []
  args := []
  errorMsg := []

/-- One load from the mailbox `box`. -/
def Words.copy (box seen : Words) : Field → Words
  | .config =>
    { seen with
      arg0 := box.arg0, arg1 := box.arg1, arg2 := box.arg2, result := box.result
      configTail := box.configTail }
  | .args => { seen with args := box.args }
  | .arg0 => { seen with arg0 := box.arg0 }
  | .arg1 => { seen with arg1 := box.arg1 }
  | .arg2 => { seen with arg2 := box.arg2 }

/-- The loads of the branch that is taken for a value of the callable word; `none` if there is no
such branch. -/
def ChildKind.fields : ChildKind → Bool → Nat → Option (List Field)
  | .chip, false, _ => some [.config, .args]
  | .worker registered, false, cid => if registered cid then some [.args, .config] else none
  | .chip, true, 0 => some [.arg0]
  | .chip, true, 1 => some [.arg0]
  | .chip, true, 2 => some [.arg0, .arg1, .arg2]
  | .chip, true, 3 => some [.arg0, .arg1, .arg2]
  | .chip, true, 4 => some [.arg0]
  | .chip, true, 5 => some [.arg0, .args]
  | .chip, true, 6 => some [.arg0]
  | .chip, true, 7 => some [.args]
  | .chip, true, 8 => some [.args]
  | .chip, true, 9 => some [.args]
  | .chip, true, 10 => some [.args]
  | .worker _, true, 5 => some [.arg0, .args]
  | .worker _, true, 6 => some [.arg0]
  | _, true, _ => none

/-- What a child carries out. -/
inductive Job
  | task (cid : UInt32) (config : CallConfig) (args : Bytes)
  | malloc (size : Nat)
  | free (ptr : Nat)
  | copyTo (dst src n : Nat)
  | copyFrom (dst src n : Nat)
  | prepare (cid : UInt32)
  | register (cid : UInt32) (shmName : Bytes)
  | unregister (cid : UInt32)
  | allocDomain (request reply : Bytes)
  | releaseDomain (request : Bytes)
  | commInit (request : Bytes)
  | commOp (request : Bytes)
  deriving DecidableEq

def readShmName (args : Bytes) (slot : Nat) : Bytes :=
  readCString ((args.drop (slot * ctrlShmNameBytes)).take ctrlShmNameBytes)

/-- The job, from the callable word and the words that were read. -/
def decode : Bool → Nat → Words → Job
  | false, cid, seen =>
    .task (UInt32.ofNat cid) ⟨seen.arg0, seen.arg1, seen.arg2, seen.result, seen.configTail⟩
      seen.args
  | true, 0, seen => .malloc seen.arg0
  | true, 1, seen => .free seen.arg0
  | true, 2, seen => .copyTo seen.arg0 seen.arg1 seen.arg2
  | true, 3, seen => .copyFrom seen.arg0 seen.arg1 seen.arg2
  | true, 4, seen => .prepare (UInt32.ofNat seen.arg0)
  | true, 5, seen => .register (UInt32.ofNat seen.arg0) (readShmName seen.args 0)
  | true, 6, seen => .unregister (UInt32.ofNat seen.arg0)
  | true, 7, seen => .allocDomain (readShmName seen.args 0) (readShmName seen.args 1)
  | true, 8, seen => .releaseDomain (readShmName seen.args 0)
  | true, 9, seen => .commInit (readShmName seen.args 0)
  | true, _, seen => .commOp (readShmName seen.args 0)

/-- How the job ends. -/
inductive Reply
  | ok (value : Nat)
  | raised (msg : Bytes)
  /-- of a task: what `on_task_done_success` returns -/
  | hook (code : Int) (msg : Bytes)
  deriving DecidableEq

def Reply.possible (control : Bool) : Reply → Bool
  | .ok _ | .raised _ => true
  | .hook .. => !control

/-- History: what the child made of a request, and what it writes. -/
structure Execution where
  job : Option Job
  code : Int
  msg : Bytes
  result : Option Nat
  deriving DecidableEq

def notRegistered (cid : Nat) : Bytes :=
  ("child_worker: callable id " ++ toString cid ++ " not registered").toUTF8.toList

/-- `cw.malloc` is the one job with a result. -/
def Job.result (value : Nat) : Job → Option Nat
  | .malloc _ => some value
  | _ => none

def ChildKind.execute (K : ChildKind) (control : Bool) (callable : Nat) (seen : Words) :
    Reply → Execution
  | reply =>
    match K.fields control callable, control, reply with
    | none, true, _ => { job := none, code := 0, msg := [], result := none }
    | none, false, _ => { job := none, code := 1, msg := notRegistered callable, result := none }
    | some _, _, .ok value =>
      let job := decode control callable seen
      { job := some job, code := 0, msg := [], result := job.result value }
    | some _, _, .raised msg =>
      { job := some (decode control callable seen), code := 1, msg := msg, result := none }
    | some _, _, .hook code msg =>
      { job := some (decode control callable seen), code := code, msg := msg, result := none }

/-- `_write_error`: at most 255 bytes of the message, then zeros. -/
def errorRegion (msg : Bytes) : Bytes :=
  msg.take (mailboxErrorMsgSize - 1) ++
    replicate (mailboxErrorMsgSize - min msg.length (mailboxErrorMsgSize - 1)) 0

def Execution.stores (e : Execution) : List Store :=
  (e.result.map Store.result).toList ++ [Store.error e.code, .errorMsg (errorRegion e.msg)]

inductive ChildPc
  | load
  | callable (control : Bool)
  | reading (control : Bool) (callable : Nat) (todo : List Field) (seen : Words)
  | writing (control : Bool) (todo : List Store)
  | exited

/-! ## The system -/

structure State where
  box : Words
  /-- `mailbox_mu_` -/
  mutex : Option Nat
  caller : Nat → CallerPc
  child : ChildPc
  /-- history: requests whose state word was set -/
  published : List Request
  executed : List Execution
  /-- history: requests that were published, with what the caller got -/
  returned : List (Request × Answer)

inductive Act
  | enter (t : Nat) (request : Request)
  | caller (t : Nat)
  | child (reply : Reply)

namespace State

def init : State where
  box := .blank
  mutex := none
  caller _ := .outside
  child := .load
  published := []
  executed := []
  returned := []

def setCaller (s : State) (t : Nat) (pc : CallerPc) : State :=
  { s with caller := Function.update s.caller t pc }

/-- A thread inside the mutex. -/
def stepCaller (s : State) (t : Nat) : Option State :=
  match s.caller t with
  | .outside => none
  | .writing r (store :: todo) =>
    some { s.setCaller t (.writing r todo) with box := s.box.put store }
  | .writing r [] =>
    if r.throws then some { s.setCaller t .outside with mutex := none }
    else
      some { s.setCaller t (.waiting r) with
        box := { s.box with state := r.ready }, published := s.published ++ [r] }
  | .waiting r => if s.box.state = r.awaited then some (s.setCaller t (.reading r)) else none
  | .reading r =>
    if s.box.error = 0 then some (s.setCaller t (.resetting r (.ok none)))
    else some (s.setCaller t (.readingMsg r s.box.error))
  | .readingMsg r code =>
    some (s.setCaller t (.resetting r (.failed code (readCString s.box.errorMsg))))
  | .resetting r answer =>
    some { s.setCaller t (match r, answer with
        | .malloc _, .ok _ => .readingResult r
        | _, _ => .leaving r answer) with
      box := { s.box with state := .idle } }
  | .readingResult r => some (s.setCaller t (.leaving r (.ok (some s.box.result))))
  | .leaving r answer =>
    some { s.setCaller t .outside with mutex := none, returned := s.returned ++ [(r, answer)] }

def stepChild (K : ChildKind) (s : State) (reply : Reply) : Option State :=
  match s.child with
  | .load =>
    match s.box.state with
    | .taskReady => some { s with child := .callable false }
    | .controlRequest => some { s with child := .callable true }
    | .shutdown => some { s with child := .exited }
    | .idle | .taskDone | .controlDone => some s
  | .callable control =>
    let fields := (K.fields control s.box.callable).getD []
    some { s with child := .reading control s.box.callable fields .blank }
  | .reading control callable (field :: todo) seen =>
    some { s with child := .reading control callable todo (s.box.copy seen field) }
  | .reading control callable [] seen =>
    if reply.possible control then
      let e := K.execute control callable seen reply
      some { s with child := .writing control e.stores, executed := s.executed ++ [e] }
    else none
  | .writing control (store :: todo) =>
    some { s with child := .writing control todo, box := s.box.put store }
  | .writing control [] =>
    some { s with
      child := .load
      box := { s.box with state := if control then .controlDone else .taskDone } }
  | .exited => none

def step (K : ChildKind) (s : State) : Act → Option State
  | .enter t r =>
    match s.mutex, s.caller t with
    | none, .outside => some { s.setCaller t (.writing r r.stores) with mutex := some t }
    | _, _ => none
  | .caller t => s.stepCaller t
  | .child reply => s.stepChild K reply

end State

/-- The child has a branch for the sub-command of a control request. -/
def ChildKind.serves (K : ChildKind) (r : Request) : Bool :=
  match r.subCmd with
  | none => true
  | some cmd => (K.fields true cmd).isSome

/-- Only requests that the child has a branch for are made. -/
def Served (K : ChildKind) (_ : State) : Act → Prop
  | .enter _ r => K.serves r
  | .caller _ | .child _ => True

instance (K : ChildKind) : DecidableRel (Served K) := fun _ a =>
  match a with
  | .enter _ r => inferInstanceAs (Decidable (K.serves r = true))
  | .caller _ | .child _ => inferInstanceAs (Decidable True)

end PtoRuntime.Mailbox
