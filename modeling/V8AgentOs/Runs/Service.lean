import V8AgentOs.Runs.Control

-- erc/run_service.py: the calls that several threads make. A call reads in one step and writes in another.
namespace Runs

open Python (Dict Json Text)

-- What a call read before it writes, and what it writes over that
structure Merge where
  read    : Dict
  updates : Dict

def Merge.metadata (m : Merge) : Dict :=
  m.read.merge m.updates

-- A transaction that a call goes on to make
inductive Transaction
  | updateRunRecord (run status : String) (errorMessage : Option String) (merge : Option Merge)
  | updateRunRecordIfStatus (run : String) (expected : List String) (status : String) (errorMessage : Option String)
    (merge : Option Merge)
  -- `update_run_metadata_key_if_state` on the key `control_signal`
  | setControlSignal (run command : String) (reason : Option String) (payload : Dict)
  | consumeRunControlSignal (run : String) (expected : Option Dict)

-- The run of a transaction, and what it merges
def Transaction.target : Transaction → String
  | updateRunRecord run _ _ _           => run
  | updateRunRecordIfStatus run _ _ _ _ => run
  | setControlSignal run _ _ _          => run
  | consumeRunControlSignal run _       => run

def Transaction.merge : Transaction → Option Merge
  | updateRunRecord _ _ _ merge           => merge
  | updateRunRecordIfStatus _ _ _ _ merge => merge
  | _                                     => none

-- What a transaction finds when it begins: the moment, and the state of the coordination that the run belongs to.
structure World where
  now     : Time
  blocked : Json → Option String

-- The value of `control_signal` that `set_control_signal` writes
def signalValue (command : String) (reason : Option String) (payload : Dict) : Dict :=
  [("command", .str command), ("reason", reason.elim .null .str), ("payload", .dict payload)]

-- Whether the transaction wrote the row, and the table after it
def Transaction.apply (text : Text) (w : World) (runs : RunTable) : Transaction → Bool × RunTable
  | updateRunRecord run status errorMessage merge =>
    ((runs.get? run).isSome, Runs.updateRunRecord w.now runs run status errorMessage (merge.map Merge.metadata))
  | updateRunRecordIfStatus run expected status errorMessage merge =>
    let (answer, runs') := Runs.updateRunRecordIfStatus w.now w.blocked runs run expected status errorMessage
      (merge.map Merge.metadata)
    (answer.ok, runs')
  | setControlSignal run command reason payload =>
    let (answer, runs') := updateRunMetadataKeyIfState text runs run "control_signal" ⟨"", "", none, none⟩
      (signalValue command reason payload)
    (answer.ok, runs')
  | consumeRunControlSignal run expected =>
    let (signal, runs') := Runs.consumeRunControlSignal runs run expected
    (signal.isSome, runs')

inductive Call
  | transitionRun (run status : String) (errorMessage : Option String) (metadata : Option Dict)
  | transitionRunIfStatus (run : String) (expected : List String) (status : String) (errorMessage : Option String)
    (metadata : Option Dict)
  | updateMetadata (run : String) (updates : Dict)
  | setControlSignal (run command : String) (reason : Option String) (payload : Dict)
  | consumeControlSignal (run : String)
  | clearControlSignal (run : String) (expected : Option Dict)

-- What a call has still to do
inductive Work
  -- The read of `consume_run_control_signal` before its transaction
  | consuming (run : String) (expected : Option Dict)
  | transaction (t : Transaction)

-- `(db.get_run_record(run_id) or {}).get("metadata") or {}`
def readMetadata (runs : RunTable) (run : String) : Dict :=
  ((runs.get? run).map (·.metadata)).getD []

-- `get_control_signal`
def getControlSignal (runs : RunTable) (run : String) : Option Dict :=
  controlSignal (readMetadata runs run)

def mergeOver (runs : RunTable) (run : String) (metadata : Option Dict) : Option Merge :=
  metadata.map fun updates => ⟨readMetadata runs run, updates⟩

-- The first step of a call: what it reads, and what it goes on to do with that
def Call.start (runs : RunTable) : Call → Option Work
  | transitionRun run status errorMessage metadata =>
    some (.transaction (.updateRunRecord run status errorMessage (mergeOver runs run metadata)))
  | transitionRunIfStatus run expected status errorMessage metadata =>
    some (.transaction (.updateRunRecordIfStatus run expected status errorMessage (mergeOver runs run metadata)))
  | updateMetadata run updates => match runs.get? run with
    | none     => none
    -- The status is written again as it was read.
    | some row => some (.transaction (.updateRunRecord run row.status none (some ⟨row.metadata, updates⟩)))
  | setControlSignal run command reason payload =>
    some (.transaction (.setControlSignal run command reason payload))
  | consumeControlSignal run => some (.consuming run none)
  | clearControlSignal run expected => match expected.or (getControlSignal runs run) with
    | none          => none
    | some observed => if observed.isEmpty then none else some (.consuming run (some observed))

-- The read of a call that is about to consume the signal
def recheck (runs : RunTable) (run : String) (expected : Option Dict) : Option Work :=
  ((getControlSignal runs run).filter (asExpected expected)).map fun _ =>
    .transaction (.consumeRunControlSignal run expected)

inductive Action
  | call (c : Call)
  | recheck (run : String) (expected : Option Dict)
  | commit (t : Transaction) (w : World) (wrote : Bool)
  -- The thread ends before its call does.
  | stop

structure Event where
  thread : ℕ
  action : Action

structure State where
  runs : RunTable
  work : ℕ → Option Work

-- One read or one transaction of one thread
inductive Step (text : Text) : State → Event → State → Prop
  | call {s i c} : s.work i = none →
    Step text s ⟨i, .call c⟩ { s with work := Function.update s.work i (c.start s.runs) }
  | recheck {s i run expected} : s.work i = some (.consuming run expected) →
    Step text s ⟨i, .recheck run expected⟩ { s with work := Function.update s.work i (recheck s.runs run expected) }
  | commit {s i t w} : s.work i = some (.transaction t) →
    Step text s ⟨i, .commit t w (t.apply text w s.runs).1⟩
      ⟨(t.apply text w s.runs).2, Function.update s.work i none⟩
  | stop {s i} : Step text s ⟨i, .stop⟩ { s with work := Function.update s.work i none }

def system (text : Text) : Transition State Event where
  init s := ∀ i, s.work i = none
  step   := Step text

-- The value of a key of a run's metadata
def valueOf (runs : RunTable) (run key : String) : Option Json :=
  (runs.get? run).bind (·.metadata.lookup key)

end Runs
