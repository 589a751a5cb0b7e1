import V8AgentOs.Runs.Control

-- core/database.py and erc/command_service.py: the rows of `pending_approvals` and the transactions on them.
namespace Approvals

open Python (Dict Json Text strip)
open Runs (Time RunRecord RunTable Refusal controlRefusal stoppingCommands orDict)

inductive Status
  | pending
  | approved
  | rejected
  | cancelled
  deriving DecidableEq

-- The states of a delivery. `completed` and `delivered` are final.
inductive Phase
  | pending
  | scheduled
  | executing
  | blocked
  | superseded
  | completed
  | delivered
  deriving DecidableEq

-- `resume_json`, where it is not empty
structure Delivery where
  phase      : Phase
  generation : String
  attempt    : ℕ
  retryAfter : Option Time := none
  lastError  : Option String := none
  scheduled  : Option Time := none
  recovered  : Option Time := none
  replacedBy : Option String := none

-- `expires_at`, as `datetime.fromisoformat` reads it
inductive Expiry
  | never
  | invalid
  | at (t : Time)

structure Approval where
  id        : String
  sessionId : String
  runId     : String
  kind      : String
  status    : Status
  request   : Dict
  response  : Option Dict
  delivery  : Option Delivery
  expiresAt : Expiry

structure Database where
  runs      : RunTable
  approvals : Table Approval.id

-- The moment of a transaction, and what `uuid.uuid4().hex` gives to it
structure World where
  now  : Time
  uuid : String

section Rows

-- `mapping.get("scopeRevision", mapping.get("scope_revision"))`
def scopeOf (d : Dict) : Json :=
  d.get "scopeRevision" (d.get "scope_revision")

def isNone : Json → Bool
  | .null => true
  | _     => false

-- Both scopes are recorded, and they differ.
def scopeChanged (request metadata : Dict) : Bool :=
  !isNone (scopeOf request) && !isNone (scopeOf metadata) && !(scopeOf request).eq (scopeOf metadata)

def Approval.pendingFor (run : String) (a : Approval) : Bool :=
  a.runId = run && a.status = .pending

def setDelivery (approvals : Table Approval.id) (id : String) (d : Delivery) : Table Approval.id :=
  approvals.update (·.id = id) fun a => { a with delivery := some d }

end Rows

section Adding

-- `add_pending_approval` with an id that is not used, for a run that exists
def addPendingApproval (id sessionId runId kind : String) (status : Status) (request : Dict) (response : Option Dict)
    (expiresAt : Expiry) (db : Database) : Option Database :=
  if (db.runs.get? runId).isNone then none
  else (db.approvals.insert? ⟨id, sessionId, runId, kind, status, request, response.filter (!·.isEmpty), none,
    expiresAt⟩).map fun approvals => { db with approvals := approvals }

-- `_cancel_pending_human_actions_for_run`
def cancelledResponse : Dict :=
  [("status", .str "cancelled"), ("reason", .str "owning_run_terminal")]

def Approval.cancelled (a : Approval) : Approval :=
  { a with status := .cancelled, response := a.response.or (some cancelledResponse) }

def cancelPendingHumanActionsForRun (run : String) (approvals : Table Approval.id) : Table Approval.id :=
  if strip run = "" then approvals
  else approvals.update (·.pendingFor (strip run)) Approval.cancelled

end Adding

section Reviews

def sameKeys (keys : List String) (d e : Dict) : Bool :=
  keys.all fun key => (d.get key).eq (e.get key)

-- The rows that a review of the same document stage may replace
def Approval.sameTarget (sessionId runId : String) (request : Dict) (a : Approval) : Bool :=
  a.runId = runId && a.sessionId = sessionId && a.kind = "spec_stage_approval" &&
    (a.status = .pending || a.status = .approved) && sameKeys ["specId", "stage", "workspacePath"] a.request request

-- What becomes of a row that another review replaces: a decision stays, and its delivery is retired.
def Approval.retired (by' : String) (a : Approval) : Approval :=
  if a.status = .pending then { a with status := .cancelled }
  else match a.delivery with
    | none   => a
    | some d => if d.phase = .pending ∨ d.phase = .scheduled ∨ d.phase = .blocked then
        { a with delivery := some { d with phase := .superseded, replacedBy := some by' } }
      else a

theorem Approval.retired_id {by' : String} (a : Approval) : (a.retired by').id = a.id := by
  unfold retired
  split
  case isTrue => rfl
  case isFalse =>
    split
    case h_1 => rfl
    case h_2 =>
      split
      case isTrue  => rfl
      case isFalse => rfl

def Approval.executing (a : Approval) : Bool :=
  a.delivery.any (·.phase = .executing)

-- The review that stands for the document, if it is not the new one
def selectedReview (id sessionId runId : String) (request : Dict) (approvals : Table Approval.id) : String :=
  if (request.get "replacesApprovalId").truthy then id
  else ((approvals.rows.find? fun a => a.sameTarget sessionId runId request && a.status = .pending &&
    (a.request.get "documentSha256").eq (request.get "documentSha256")).map (·.id)).getD id

-- A lookup of a missing key raises.
def lacksDocument (sessionId runId : String) (request : Dict) (approvals : Table Approval.id) : Bool :=
  !(request.get "replacesApprovalId").truthy && !request.has "documentSha256" &&
    approvals.rows.any fun a => a.sameTarget sessionId runId request && a.status = .pending

-- The run may be asked for a review.
def reviewable (sessionId : String) (request : Dict) (row : RunRecord) : Bool :=
  row.sessionId = sessionId && ["running", "waiting_input", "waiting_approval"].contains row.status &&
    (controlRefusal stoppingCommands "spec_review_run_not_available" row.metadata).isNone &&
    !scopeChanged request row.metadata

def waitForApproval (runs : RunTable) (run : String) : RunTable :=
  runs.update (·.id = run) fun r => { r with status := "waiting_approval" }

-- The row with the id in the session and run, if it is the review of another document or was decided otherwise
def reviewConflict (request : Dict) (a : Approval) : Bool :=
  !sameKeys ["specId", "stage", "workspacePath", "documentSha256"] a.request request ||
    (a.status ≠ .approved && a.status ≠ .pending)

-- The tables after a new review, or nothing where the transaction raises
def review (id sessionId runId : String) (request : Dict) (expiresAt : Expiry) (isNew : Bool) (db : Database) :
    Option Database :=
  let selected := selectedReview id sessionId runId request db.approvals
  let target := fun a : Approval => a.sameTarget sessionId runId request && a.id ≠ selected
  if lacksDocument sessionId runId request db.approvals || db.approvals.any fun a => target a && a.executing then none
  else
    let approvals := db.approvals.update target (Approval.retired selected) Approval.retired_id
    (if selected = id ∧ isNew then
      approvals.insert? ⟨id, sessionId, runId, "spec_stage_approval", .pending, request, none, none, expiresAt⟩
    else some approvals).map fun approvals => ⟨waitForApproval db.runs runId, approvals⟩

def createSpecReviewApproval (id sessionId runId : String) (request : Dict) (expiresAt : Expiry) (db : Database) :
    Option Database :=
  let exact := (db.approvals.get? id).filter fun a => a.sessionId = sessionId && a.runId = runId
  if exact.any (reviewConflict request) then none
  else if exact.any (·.status = .approved) then some db
  else if (db.runs.get? runId).any (reviewable sessionId request) then
    review id sessionId runId request expiresAt exact.isNone db
  else none

end Reviews

section Decisions

-- A call of `resolve_pending_approval_if_pending`
structure Decision where
  id                : String
  status            : Status
  response          : Option Dict := none
  approvedOperation : Option Dict := none
  expectedRequest   : Option Dict := none

def terminal (status : String) : Bool :=
  ["completed", "failed", "cancelled", "interrupted"].contains status

-- `(response or {}).get("approvalId", (response or {}).get("approval_id"))`
def identityOf (response : Option Dict) : Json :=
  let d := response.getD []
  d.get "approvalId" (d.get "approval_id")

def because (p : Bool) (reason : String) : Option Refusal :=
  if p then some (.because reason) else none

def expiryRefusal (now : Time) : Expiry → Option Refusal
  | .never   => none
  | .invalid => some (.because "approval_expiry_invalid")
  | .at t    => because (t ≤ now) "approval_expired"

def runRefusal (now : Time) (a : Approval) : Option RunRecord → Option Refusal
  | none     => some (.because "run_not_found")
  | some row =>
    (because (terminal row.status) "owning_run_terminal").or <|
      (controlRefusal ["cancel", "interrupt"] "owning_run_stopping" row.metadata).or <| expiryRefusal now a.expiresAt

-- Why a decision leaves everything as it is
def decisionRefusal (text : Text) (now : Time) (d : Decision) (a : Approval) (run : Option RunRecord) :
    Option Refusal :=
  (because (a.status ≠ .pending)
    (if a.status = d.status then "already_decided" else "approval_decision_conflict")).or <|
  (because (d.expectedRequest.any fun e => !(Json.dict a.request).eq (.dict e)) "approval_request_changed").or <|
  (because (scopeChanged a.request ((run.map (·.metadata)).getD [])) "approval_scope_changed").or <|
  (because (!isNone (identityOf d.response) && text.str (identityOf d.response) ≠ d.id)
    "approval_identity_mismatch").or <|
  runRefusal now a run

def Approval.mcp (a : Approval) : Bool :=
  a.kind = "mcp_app_tool_call"

-- The run carries some control signal.
def controlled (row : RunRecord) : Bool :=
  (orDict row.metadata "control_signal").truthy

-- The rejection stops what the run does.
def rejects (d : Decision) (a : Approval) (row : RunRecord) : Bool :=
  !a.mcp && !controlled row && d.status = .rejected && (row.status = "running" || row.status = "waiting_approval")

-- `othersPending` tells whether another approval of the run is still pending.
def nextStatus (d : Decision) (a : Approval) (row : RunRecord) (othersPending : Bool) : String :=
  if !a.mcp && !controlled row && d.status = .approved && !othersPending && row.status = "waiting_approval" then "running"
  else if rejects d a row then "waiting_input"
  else row.status

-- `metadata.get("approvedSafetyOperations") or []` as what a loop takes from it, where only a `dict` matters
def operationsOf (metadata : Dict) : Option (List Dict) :=
  let value := metadata.get "approvedSafetyOperations"
  if !value.truthy then some []
  else match value with
    | .list items => some (items.filterMap fun v => match v with | .dict d => some d | _ => none)
    | .str _      => some []
    | .dict _     => some []
    | _           => none

-- The last hundred operations, of which the new one replaces one with its fingerprint
def remember (operations : List Dict) (operation : Dict) : List Dict :=
  let kept := operations.filter fun o => !(o.get "fingerprint").eq (operation.get "fingerprint")
  (kept ++ [operation]).drop (kept.length + 1 - 100)

-- The operation that a decision makes the run remember
def Decision.operation (d : Decision) : Option Dict :=
  if d.status = .approved then d.approvedOperation.filter (!·.isEmpty) else none

def rejectionSignal (d : Decision) : Dict :=
  [("command", .str "approval_rejected"), ("reason", (d.response.getD []).get "reason"),
    ("payload", .dict [("approval_id", .str d.id), ("response", .dict (d.response.getD []))])]

def decidedMetadata (d : Decision) (a : Approval) (row : RunRecord) (operations : List Dict) : Dict :=
  let metadata := if rejects d a row then row.metadata.set "control_signal" (.dict (rejectionSignal d)) else row.metadata
  match d.operation with
  | some operation => metadata.set "approvedSafetyOperations" (.list ((remember operations operation).map .dict))
  | none           => metadata

-- Whether the decision is delivered to the run by its own record
def resumes (d : Decision) (a : Approval) (row : RunRecord) (othersPending : Bool) : Bool :=
  d.status = .approved && !a.mcp && !controlled row && !othersPending &&
    nextStatus d a row othersPending = "running" &&
    (row.runType = "chat" || (row.runType = "rpa" && (row.metadata.get "resumeExecution").truthy)) &&
    !(["checkpoint_replay", "checkpoint_fork"].contains a.kind) && !a.request.has "runtimeContinuation"

def Approval.decided (d : Decision) (resume : Option Delivery) (a : Approval) : Approval :=
  { a with status := d.status, response := d.response, delivery := resume.or a.delivery }

def decidedRow (status : String) (metadata : Dict) (r : RunRecord) : RunRecord :=
  { r with
    status       := status
    metadata     := metadata
    finishedAt   := if status = r.status then r.finishedAt else none
    errorMessage := if status = r.status then r.errorMessage else none }

def othersPending (d : Decision) (a : Approval) (approvals : Table Approval.id) : Bool :=
  approvals.any fun b => b.id ≠ d.id && b.pendingFor a.runId

def newDelivery (w : World) : Delivery where
  phase      := .pending
  generation := w.uuid
  attempt    := 0

-- What a decision that is not refused commits
def decide (w : World) (d : Decision) (a : Approval) (row : RunRecord) (operations : List Dict) (db : Database) :
    Database :=
  let others := othersPending d a db.approvals
  let resume := if resumes d a row others then some (newDelivery w) else none
  { runs      := db.runs.update (·.id = a.runId)
      (decidedRow (nextStatus d a row others) (decidedMetadata d a row operations))
    approvals := db.approvals.update (·.id = d.id) (Approval.decided d resume) }

-- Whether the decision was made, and the tables after it
def resolvePendingApprovalIfPending (text : Text) (w : World) (d : Decision) (db : Database) : Bool × Database :=
  if d.status ≠ .approved ∧ d.status ≠ .rejected then (false, db)
  else match db.approvals.get? d.id with
    | none   => (false, db)
    | some a =>
      match decisionRefusal text w.now d a (db.runs.get? a.runId), db.runs.get? a.runId with
      | none, some row => match if d.operation.isSome then operationsOf row.metadata else some [] with
        | none            => (false, db)
        | some operations => (true, decide w d a row operations db)
      | _, _ => (false, db)

-- `_operation_fingerprint`
def operationFingerprint (text : Text) (request : Dict) : String :=
  let first := request.get "operationFingerprint"
  text.stripped (if first.truthy then first else request.get "operation_fingerprint")

def operationTargetFingerprint (text : Text) (request : Dict) : String :=
  let first := request.get "operationTargetFingerprint"
  text.stripped (if first.truthy then first else request.get "operation_target_fingerprint")

-- `_approved_operation`
def approvedOperation (text : Text) (now : String) (a : Approval) (response : Option Dict) : Option Dict :=
  if operationFingerprint text a.request = "" then none
  else some [("fingerprint", .str (operationFingerprint text a.request)),
    ("targetFingerprint", .str (operationTargetFingerprint text a.request)), ("approval_id", .str a.id),
    ("approval_kind", .str a.kind), ("approved_at", .str now), ("response", .dict (response.getD [])),
    ("request", .dict [("riskCode", a.request.get "riskCode"), ("runtimeKind", a.request.get "runtimeKind"),
      ("toolCallId", a.request.get "toolCallId")])]

-- The decision that `_decide_approval` asks for after its read of the approval
def Decision.ofService (text : Text) (now : String) (read : Approval) (status : Status) (response : Option Dict) :
    Decision where
  id                := read.id
  status            := status
  response          := response
  approvedOperation := if status = .approved then Approvals.approvedOperation text now read response else none
  expectedRequest   := some read.request

end Decisions
end Approvals
