import V8AgentOs.Approvals.Database
import V8AgentOs.Runs.Service

-- core/database.py: the delivery of a decision to its run, and the system of all calls.
namespace Approvals

open Python (Dict Json Text strip)
open Runs (Time RunRecord RunTable Refusal controlRefusal stoppingCommands)

section Claims

-- The run of an approval, in the approval's session
def Database.runOf (db : Database) (a : Approval) : Option RunRecord :=
  (db.runs.get? a.runId).filter (·.sessionId = a.sessionId)

-- Why an approval may not be executed now
def readyRefusal (a : Approval) : Option RunRecord → Option Refusal
  | none     => some (.because "run_not_ready_after_approval")
  | some row =>
    (because (row.status ≠ "running") "run_not_ready_after_approval").or <|
      (controlRefusal stoppingCommands "run_not_ready_after_approval" row.metadata).or <|
        because (scopeChanged a.request row.metadata) "approval_scope_changed"

-- The delivery is under way.
def Delivery.underway (d : Delivery) : Bool :=
  d.phase = .scheduled || d.phase = .executing

-- Another approval of the run is being delivered.
def reserved (a : Approval) (approvals : Table Approval.id) : Bool :=
  approvals.any fun b => b.id ≠ a.id && b.runId = a.runId && b.delivery.any (·.underway)

def claimable (restart : Bool) (d : Delivery) : Bool :=
  (d.phase = .pending || (restart && d.phase = .scheduled)) && d.generation ≠ ""

def claimRefusal (now : Time) (restart : Bool) (db : Database) (a : Approval) (d : Delivery) : Option Refusal :=
  (because (!claimable restart d) "approval_resume_already_claimed").or <| (readyRefusal a (db.runOf a)).or <|
    (because (db.approvals.any (·.pendingFor a.runId)) "another_approval_pending").or <|
      (because (reserved a db.approvals) "approval_parent_writer_reserved").or <|
        because (!restart && d.retryAfter.any (now < ·)) "approval_resume_retry_pending"

def Delivery.scheduledAt (now : Time) (d : Delivery) : Delivery :=
  { d with phase := .scheduled, attempt := d.attempt + 1, scheduled := some now }

-- The delivery that a claim hands to its caller, and the tables after it
def claimApprovalResume (w : World) (id : String) (restart : Bool) (db : Database) : Option Delivery × Database :=
  match (db.approvals.get? id).filter (·.status = .approved) with
  | none   => (none, db)
  | some a => match a.delivery with
    | none   => (none, db)
    | some d => match claimRefusal w.now restart db a d with
      | some _ => (none, db)
      | none   => (some (d.scheduledAt w.now),
          { db with approvals := setDelivery db.approvals id (d.scheduledAt w.now) })

end Claims

section Transitions

-- What a worker asks for. The run, the generation and the attempt are those of its claim.
structure Move where
  approvalId : String
  runId      : String
  generation : String
  attempt    : ℕ
  expected   : Phase
  phase      : Phase
  error      : String := ""

-- The moves of a worker: a start, a retry, or the end of what it executes
def Move.lawful (m : Move) : Bool :=
  (m.expected = .scheduled && (m.phase = .executing || m.phase = .pending || m.phase = .blocked)) ||
    (m.expected = .executing &&
      (m.phase = .pending || m.phase = .blocked || m.phase = .completed || m.phase = .delivered))

def Move.matches (m : Move) (d : Delivery) : Bool :=
  d.phase = m.expected && d.generation = m.generation && d.attempt = m.attempt

def Delivery.moved (now : Time) (m : Move) (d : Delivery) : Delivery :=
  { d with
    phase      := m.phase
    lastError  := if m.error = "" then d.lastError else some m.error
    retryAfter := if m.phase = .pending then some (now + 5000) else d.retryAfter }

def transitionApprovalResume (w : World) (m : Move) (db : Database) : Bool × Database :=
  match (db.approvals.get? m.approvalId).filter fun a => a.runId = m.runId && a.status = .approved with
  | none   => (false, db)
  | some a => match a.delivery with
    | none   => (false, db)
    | some d =>
      if !m.matches d || (m.phase = .executing && (readyRefusal a (db.runOf a)).isSome) then (false, db)
      else (true, { db with approvals := setDelivery db.approvals m.approvalId (d.moved w.now m) })

end Transitions

section Recovery

def recoveryReason : String := "rpa_approval_execution_interrupted"

def recoveryMessage : String :=
  "RPA execution was interrupted by an Engine restart. Inspect external effects before retrying."

-- An approval whose RPA worker was lost, with the run
def Database.interrupted (db : Database) (a : Approval) : Option RunRecord :=
  if a.status = .approved ∧ a.executing then
    (db.runOf a).filter fun row => row.runType = "rpa" && (Runs.markerOf row.metadata "resumeExecution").isSome
  else none

def Delivery.fenced (now : Time) (d : Delivery) : Delivery :=
  { d with phase := .blocked, lastError := some recoveryReason, recovered := some now }

-- `nowText` is the moment as a text.
def recoveredMetadata (nowText : String) (a : Approval) (metadata : Dict) : Dict :=
  metadata.merge [("executionState", .str "unknown"), ("reconciliationRequired", .bool true),
    ("outcomeFamily", .str "failed"), ("error", .str recoveryMessage),
    ("approvalResumeRecovery",
      .dict [("approvalId", .str a.id), ("reason", .str recoveryReason), ("at", .str nowText)])]

-- Cancellation, interruption and terminal states remain authoritative.
def recoveredStatus (status : String) : String :=
  if ["queued", "running", "waiting_approval", "waiting_input", "waiting_external_tool"].contains status then "failed"
  else status

-- `row` is the run as it was read at the beginning.
def recoverRun (now : Time) (nowText : String) (runs : RunTable) (a : Approval) (row : RunRecord) : RunTable :=
  runs.update (·.id = row.id) fun r =>
    { r with
      status       := recoveredStatus row.status
      metadata     := recoveredMetadata nowText a row.metadata
      errorMessage := r.errorMessage.or (some recoveryMessage)
      finishedAt   := r.finishedAt.or (some now) }

def recoverInterruptedRpaApprovalResumes (w : World) (nowText : String) (db : Database) : Database where
  runs      := db.approvals.rows.foldl (fun runs a => match db.interrupted a with
    | some row => recoverRun w.now nowText runs a row
    | none     => runs) db.runs
  approvals := db.approvals.update (fun a => (db.interrupted a).isSome)
    fun a => { a with delivery := a.delivery.map (·.fenced w.now) }

end Recovery

section System

inductive Call
  | add (id sessionId runId kind : String) (status : Status) (request : Dict) (response : Option Dict)
    (expiresAt : Expiry)
  | createSpecReview (id sessionId runId : String) (request : Dict) (expiresAt : Expiry)
  | resolve (d : Decision)
  | claim (id : String) (restart : Bool)
  | transition (m : Move)
  | recover (nowText : String)

-- What a call reports: nothing done, done, or the delivery that was claimed
inductive Answer
  | refused
  | done
  | claimed (d : Delivery)

def Answer.ofBool (b : Bool) : Answer :=
  if b then .done else .refused

def Call.run (text : Text) (w : World) (db : Database) : Call → Answer × Database
  | add id sessionId runId kind status request response expiresAt =>
    match addPendingApproval id sessionId runId kind status request response expiresAt db with
    | some db' => (.done, db')
    | none     => (.refused, db)
  | createSpecReview id sessionId runId request expiresAt =>
    match createSpecReviewApproval id sessionId runId request expiresAt db with
    | some db' => (.done, db')
    | none     => (.refused, db)
  | resolve d =>
    let (updated, db') := resolvePendingApprovalIfPending text w d db
    (.ofBool updated, db')
  | claim id restart =>
    let (delivery, db') := claimApprovalResume w id restart db
    (delivery.elim .refused .claimed, db')
  | transition m =>
    let (moved, db') := transitionApprovalResume w m db
    (.ofBool moved, db')
  | recover nowText => (.done, recoverInterruptedRpaApprovalResumes w nowText db)

-- The domains of the calls: an approval is added with a fresh id in the session of its run, what is decided is
-- an approval or a rejection, and a worker makes the moves of a worker.
def Call.Meets (db : Database) : Call → Prop
  | add id sessionId runId _ _ _ _ _ =>
    db.approvals.get? id = none ∧ ∀ row, db.runs.get? runId = some row → row.sessionId = sessionId
  | transition m => m.lawful
  | _            => True

structure State where
  base      : Runs.State
  approvals : Table Approval.id
  clock     : Time

def State.db (s : State) : Database :=
  ⟨s.base.runs, s.approvals⟩

@[simp] theorem State.db_runs {s : State} : s.db.runs = s.base.runs := rfl

@[simp] theorem State.db_approvals {s : State} : s.db.approvals = s.approvals := rfl

inductive Event
  -- A step of a status change, a control signal or another write of a run
  | run (e : Runs.Event)
  | call (c : Call) (w : World) (answer : Answer)

-- What a step of a run does to the run's approvals
def withdraw (e : Runs.Event) (approvals : Table Approval.id) : Table Approval.id :=
  match e.action with
  | .commit (.updateRunRecord run status _ _) _ _ =>
    if ["failed", "cancelled", "interrupted"].contains status then cancelPendingHumanActionsForRun run approvals
    else approvals
  | .commit (.updateRunRecordIfStatus run _ status _ _) _ true =>
    if ["failed", "cancelled", "interrupted"].contains status then cancelPendingHumanActionsForRun run approvals
    else approvals
  | _ => approvals

-- The metadata keys that a call on a run updates
def updatesOf : Runs.Call → Dict
  | .transitionRun _ _ _ metadata          => metadata.getD []
  | .transitionRunIfStatus _ _ _ _ metadata => metadata.getD []
  | .updateMetadata _ updates              => updates
  | _                                      => []

-- No caller of a status change names the operations that the user approved.
def keepsOperations (e : Runs.Event) : Bool :=
  match e.action with
  | .call c => !(updatesOf c).has "approvedSafetyOperations"
  | _       => true

inductive Step (text : Text) : State → Event → State → Prop
  | run {s e b} : keepsOperations e → Runs.Step text s.base e b →
    Step text s (.run e) { s with base := b, approvals := withdraw e s.approvals }
  | call {s c w} : s.clock ≤ w.now → w.uuid ≠ "" → c.Meets s.db →
    Step text s (.call c w (c.run text w s.db).1)
      { base      := { s.base with runs := (c.run text w s.db).2.runs }
        approvals := (c.run text w s.db).2.approvals
        clock     := w.now }

def system (text : Text) : Transition State Event where
  init s := s.approvals.rows = [] ∧ (∀ i, s.base.work i = none) ∧
    ∀ row ∈ s.base.runs.rows, row.metadata.has "approvedSafetyOperations" = false
  step   := Step text

end System
end Approvals
