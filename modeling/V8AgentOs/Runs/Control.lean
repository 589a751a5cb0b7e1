import Mathlib.Logic.Function.Basic
import V8AgentOs.Lib.Table
import V8AgentOs.Lib.Transition
import V8AgentOs.Python.Dict
import V8AgentOs.Python.Text

-- core/database.py: the rows of `run_records`.
namespace Runs

open Python (Dict Json)

-- A moment in milliseconds. The texts of `utc_now_iso` have one length and one time zone, so that they are
-- ordered as the moments are.
abbrev Time := ℤ

-- `metadata` is the value of the column, which holds a JSON object.
structure RunRecord where
  id           : String
  sessionId    : String
  runType      : String
  status       : String
  errorMessage : Option String
  metadata     : Dict
  finishedAt   : Option Time

abbrev RunTable := Table RunRecord.id

-- `TERMINAL_RUN_STATUSES`
def terminalStatuses : List String :=
  ["completed", "failed", "cancelled", "interrupted"]

-- `(row or {}).get("status")`
def statusOf (runs : RunTable) (id : String) : Option String :=
  (runs.get? id).map (·.status)

end Runs

-- core/database.py and erc/run_service.py: the status and the metadata of a run.
namespace Runs

open Python (Dict Json Text strip)

-- `UPDATE run_records SET status, error_message, metadata, finished_at`
def RunRecord.written (now : Time) (status : String) (errorMessage : Option String) (metadata : Option Dict)
    (r : RunRecord) : RunRecord :=
  { r with
    status       := status
    errorMessage := if terminalStatuses.contains status then errorMessage.or r.errorMessage else errorMessage
    metadata     := metadata.getD r.metadata
    finishedAt   := if terminalStatuses.contains status then some now else none }

theorem RunRecord.written_id {now : Time} {status : String} {errorMessage : Option String}
    {metadata : Option Dict} (r : RunRecord) : (r.written now status errorMessage metadata).id = r.id := rfl

-- `json.dumps(metadata) if metadata else None`
def dumped (metadata : Option Dict) : Option Dict :=
  metadata.filter (!·.isEmpty)

-- `UPDATE run_records SET metadata = ? WHERE id = ?`
def setMetadata (runs : RunTable) (id : String) (metadata : Dict) : RunTable :=
  runs.update (·.id = id) fun r => { r with metadata := metadata }

def updateRunRecord (now : Time) (runs : RunTable) (id status : String) (errorMessage : Option String)
    (metadata : Option Dict) : RunTable :=
  runs.update (·.id = id) (RunRecord.written now status errorMessage (dumped metadata)) RunRecord.written_id

inductive Answer
  | updated (row : RunRecord) (previousStatus : String)
  | refused (reason : String)
  -- An exception, which rolls the transaction back
  | raised

def Answer.ok : Answer → Bool
  | updated _ _ => true
  | _           => false

-- `{str(item or "").strip() for item in expected if str(item or "").strip()}`
def normalized (expected : List String) : List String :=
  (expected.map strip).filter (· ≠ "")

-- `blocked` is what `_session_project_result_delivery_error` finds in the tables of the coordination.
def refusal (blocked : Json → Option String) (expected : List String) (status : String) (row : RunRecord) :
    Option String :=
  let id := row.metadata.get "coordinationMessageId"
  if status = "running" ∧ id.truthy ∧ (blocked id).isSome then blocked id
  else if normalized expected ≠ [] ∧ !(normalized expected).contains (strip row.status) then
    some ("status_mismatch:" ++ if strip row.status = "" then "unknown" else strip row.status)
  else none

def updateRunRecordIfStatus (now : Time) (blocked : Json → Option String) (runs : RunTable) (id : String)
    (expected : List String) (status : String) (errorMessage : Option String) (metadata : Option Dict) :
    Answer × RunTable :=
  match runs.get? id with
  | none     => (.refused "run_not_found", runs)
  | some row => match refusal blocked expected status row with
    | some reason => (.refused reason, runs)
    | none        => (.updated (row.written now status errorMessage (dumped metadata)) (strip row.status),
        updateRunRecord now runs id status errorMessage metadata)

-- `metadata.get(key)` if this is a `dict`
def markerOf (metadata : Dict) (key : String) : Option Dict :=
  match metadata.lookup key with
  | some (.dict marker) => some marker
  | _                   => none

-- `_marker_state`
def markerState (text : Text) (metadata : Dict) (key : String) : String :=
  match markerOf metadata key with
  | some marker => text.lowered (marker.get "state")
  | none        => ""

-- `metadata.get(key) or {}`
def orDict (metadata : Dict) (key : String) : Json :=
  if (metadata.get key).truthy then metadata.get key else .dict []

-- What the state of a marker is compared with, and what else the caller expects
structure Expected where
  state      : String
  status     : String      := ""
  generation : Option ℤ    := none
  value      : Option Dict := none

def updateRunMetadataKeyIfState (text : Text) (runs : RunTable) (id key : String) (expected : Expected)
    (nextValue : Dict) : Answer × RunTable :=
  let key := strip key
  if key = "" then (.raised, runs)
  else match runs.get? id with
    | none     => (.refused "run_not_found", runs)
    | some row =>
      let status := strip row.status
      if strip expected.status ≠ "" ∧ status ≠ strip expected.status then
        (.refused ("run_status_mismatch:" ++ if status = "" then "unknown" else status), runs)
      else if expected.generation.any fun g => match orDict row.metadata key with
          | .dict marker => !(Dict.get marker "waitGeneration").eq (.int g)
          | _            => true then
        -- `.get` of a marker that is no `dict` raises.
        (match orDict row.metadata key with
          | .dict _ => .refused "runtime_wait_generation_changed"
          | _       => .raised, runs)
      else if expected.value.any fun v => !(orDict row.metadata key).eq (.dict v) then
        (.refused "metadata_value_mismatch", runs)
      else if markerState text row.metadata key ≠ text.lower (strip expected.state) then
        (.refused ("metadata_state_mismatch:" ++
          if markerState text row.metadata key = "" then "missing" else markerState text row.metadata key), runs)
      else
        let metadata := row.metadata.set key (.dict nextValue)
        (.updated { row with metadata := metadata } status, setMetadata runs id metadata)

-- The control signal of a run's metadata
def controlSignal (metadata : Dict) : Option Dict :=
  (markerOf metadata "control_signal").filter (!·.isEmpty)

-- `expected_signal is None or signal == expected_signal`
def asExpected (expected : Option Dict) (signal : Dict) : Bool :=
  expected.all fun e => (Json.dict signal).eq (.dict e)

-- The transaction of `consume_run_control_signal`, and the signal that it takes
def consumeRunControlSignal (runs : RunTable) (id : String) (expected : Option Dict) : Option Dict × RunTable :=
  match runs.get? id with
  | none     => (none, runs)
  | some row => match (controlSignal row.metadata).filter (asExpected expected) with
    | none        => (none, runs)
    | some signal => (some signal, setMetadata runs id (row.metadata.without "control_signal"))

-- The commands that stop a run
def stoppingCommands : List String :=
  ["cancel", "interrupt", "pause"]

-- A reason in the answer of a call, or an exception
inductive Refusal
  | because (reason : String)
  | raised

-- The refusal where the command is one of some. An unsupported operation of Python, such as a member test of a list
-- in a set, raises.
def commandRefusal (commands : List String) (reason : String) : Json → Option Refusal
  | .str command => if commands.contains command then some (.because reason) else none
  | .list _      => some .raised
  | .dict _      => some .raised
  | _            => none

def controlRefusal (commands : List String) (reason : String) (metadata : Dict) : Option Refusal :=
  match orDict metadata "control_signal" with
  | .dict control => commandRefusal commands reason (Dict.get control "command")
  | _             => some .raised

-- The control signal of the metadata has one of some commands.
def Commanded (commands : List String) (metadata : Dict) : Prop :=
  ∃ signal, controlSignal metadata = some signal ∧ ∃ command ∈ commands, signal.get "command" = .str command

theorem not_commanded {commands : List String} {reason : String} {metadata : Dict}
    (h : controlRefusal commands reason metadata = none) : ¬Commanded commands metadata := by
  intro ⟨signal, hs, command, hm, hc⟩
  have ⟨hmarker, _⟩ := Option.filter_eq_some_iff.mp hs
  unfold markerOf at hmarker
  split at hmarker
  case h_2 => cases hmarker
  case h_1 d hl =>
    cases hmarker
    have hget : metadata.get "control_signal" = .dict signal := by simp [Dict.get, hl]
    have hdict : orDict metadata "control_signal" = .dict signal := by
      simp [orDict, hget, Json.truthy]
    rw [controlRefusal, hdict] at h
    replace h : commandRefusal commands reason (signal.get "command") = none := h
    have hm' : commands.contains command = true := by simpa using hm
    rw [hc, commandRefusal, if_pos hm'] at h
    cases h

end Runs
