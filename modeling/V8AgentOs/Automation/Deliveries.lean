import V8AgentOs.Automation.Receipts

-- core/database.py: the deliveries of automation.
namespace Automation

open Python (Dict Json)
open Runs (Time RunRecord RunTable)

inductive Phase
  | pending
  | claimed
  | admitted
  | executing
  | blocked
  | unknown
  | completed
  | failed
  | cancelled
  deriving DecidableEq, Repr

-- `envelope_json`. The reconciliation is added once the outcome of an unknown delivery was observed.
structure Envelope where
  actionType     : Json
  target         : Json
  payload        : Json
  isAsync        : Json
  kwargs         : Dict
  reconciliation : Option Dict := none

-- `runtime_automation_deliveries`
structure Delivery where
  deliveryId         : String
  definitionKind     : String
  definitionId       : String
  definitionRevision : String
  sourceEventId      : String
  sourceSessionId    : String
  sourceRunId        : Option String
  executionRunId     : String
  envelope           : Envelope
  phase              : Phase
  ownerId            : Option String
  leaseExpiresAt     : Option Time
  availableAt        : Time
  attemptCount       : ℕ
  receiptKey         : Option String
  lastError          : Option String
  admittedAt         : Option Time
  createdAt          : Time
  updatedAt          : Time

-- The columns of `runtime_events` that a source event is recognized by
structure SourceEvent where
  eventId     : String
  sessionId   : String
  runId       : Option String
  topic       : String
  sourceRunId : Option String

structure Database where
  receipts   : Receipts
  deliveries : Table Delivery.deliveryId
  runs       : RunTable
  events     : Table SourceEvent.eventId
  sessions   : List String

-- `text` as a condition
def filled (text : Option String) : Option String :=
  text.filter (· ≠ "")

section Enqueue

-- One member of `deliveries`
structure Entry where
  deliveryId         : String
  definitionKind     : String
  definitionId       : String
  definitionRevision : String
  executionRunId     : String
  envelope           : Envelope
  phase              : Option Phase  := none
  lastError          : Option String := none
  receiptKey         : Option String := none

def Entry.row (e : Entry) (source : SourceEvent) (now : Time) : Delivery where
  deliveryId         := e.deliveryId
  definitionKind     := e.definitionKind
  definitionId       := e.definitionId
  definitionRevision := e.definitionRevision
  sourceEventId      := source.eventId
  sourceSessionId    := source.sessionId
  sourceRunId        := (filled source.sourceRunId).or source.runId
  executionRunId     := e.executionRunId
  envelope           := e.envelope
  phase              := e.phase.getD .pending
  ownerId            := none
  leaseExpiresAt     := none
  availableAt        := now
  attemptCount       := 0
  receiptKey         := e.receiptKey
  lastError          := e.lastError
  admittedAt         := none
  createdAt          := now
  updatedAt          := now

def Delivery.sameOrigin (d r : Delivery) : Bool :=
  r.sourceEventId = d.sourceEventId && r.definitionKind = d.definitionKind && r.definitionId = d.definitionId

-- The session exists, and an event has one delivery for each definition.
def Database.insertDelivery (db : Database) (d : Delivery) : Except Error Database :=
  if db.deliveries.any d.sameOrigin ∨ d.sourceSessionId ∉ db.sessions then .error .integrity
  else match db.deliveries.insert? d with
    | none   => .error .integrity
    | some t => .ok { db with deliveries := t }

-- The source event, which is inserted with its deliveries or was there before
def Database.bindSource (db : Database) (source existing : SourceEvent) : Except Error Database :=
  if existing.sessionId ≠ source.sessionId ∨ existing.sourceRunId ≠ source.sourceRunId ∨
      existing.topic ≠ source.topic then
    .error (.value "automation source event identity conflict")
  else if filled existing.runId = none ∧ (filled source.runId).isSome then
    if source.runId ≠ existing.sourceRunId then .error (.value "automation source run binding conflict")
    else
      let unbound (e : SourceEvent) : Bool := e.eventId = source.eventId && e.runId = none
      .ok { db with events := db.events.update unbound fun e => { e with runId := source.runId } }
  else .ok db

-- The transaction that commits a source event and its deliveries, before its result is read
def Database.receive (db : Database) (source : SourceEvent) (entries : List Entry) (now : Time) :
    Except Error Database :=
  match db.events.get? source.eventId with
  | some existing => db.bindSource source existing
  | none =>
    if source.sessionId ∉ db.sessions then .error .integrity
    else match db.events.insert? source with
      | none        => .error .integrity
      | some events => entries.foldlM (fun db e => db.insertDelivery (e.row source now)) { db with events := events }

def enqueueAutomationDeliveries (source : SourceEvent) (entries : List Entry) (now : Time) (db : Database) :
    Except Error (List Delivery × Database) := do
  let db ← db.receive source entries now
  return (db.deliveries.rows.filter (·.sourceEventId = source.eventId), db)

end Enqueue

-- `UPDATE runtime_automation_deliveries SET f WHERE delivery_id = ? AND p`
def Database.updateDelivery (db : Database) (id : String) (p : Delivery → Bool) (f : Delivery → Delivery)
    (hf : ∀ d, (f d).deliveryId = d.deliveryId := by exact fun _ => rfl) : Database :=
  { db with deliveries := db.deliveries.update (fun d => d.deliveryId = id && p d) f hf }

def Database.receiptOf (db : Database) (d : Delivery) : Option Receipt :=
  (filled d.receiptKey).bind db.receipts.get?

-- A recovered attempt gets a run of its own.
def Delivery.rebound (d : Delivery) (fresh : String) : Delivery :=
  if d.attemptCount = 0 then d
  else
    { d with
      executionRunId := "automation-" ++ fresh
      envelope       := { d.envelope with kwargs := d.envelope.kwargs.set "run_id" (.str ("automation-" ++ fresh)) } }

def Delivery.claim (d : Delivery) (owner fresh : String) (lease now : Time) : Delivery :=
  { d.rebound fresh with
    phase          := .claimed
    ownerId        := some owner
    leaseExpiresAt := some lease
    receiptKey     := none
    attemptCount   := d.attemptCount + 1
    updatedAt      := now }

theorem Delivery.claim_deliveryId {d : Delivery} {owner fresh : String} {lease now : Time} :
    (d.claim owner fresh lease now).deliveryId = d.deliveryId := by
  unfold claim rebound
  split <;> rfl

-- `fresh` is the text of `uuid.uuid4().hex`.
def claimAutomationDelivery (id owner : String) (leaseSeconds : ℤ) (fresh : String) (t : Clock) (db : Database) :
    Option Delivery × Database :=
  match db.deliveries.get? id with
  | none      => (none, db)
  | some item =>
    if item.phase ≠ .pending ∨ t.now < item.availableAt then (none, db)
    else
      let stop (phase : Phase) : Database :=
        db.updateDelivery id (fun _ => true) fun d => { d with phase := phase, updatedAt := t.now }
      match Runs.statusOf db.runs item.executionRunId with
      | some "cancelled" => (none, stop .cancelled)
      | some "completed" => (none, stop .unknown)
      | _ =>
        let db' := db.updateDelivery id (fun d => d.phase = .pending)
          (fun d => d.claim owner fresh (t.after leaseSeconds) t.now) fun _ => Delivery.claim_deliveryId
        (db'.deliveries.get? id, db')

-- `_automation_delivery_binding_conflict`
def bindingConflict (current expected : Delivery) : Option String :=
  if current.definitionKind ≠ expected.definitionKind ∨ current.definitionId ≠ expected.definitionId ∨
      current.definitionRevision ≠ expected.definitionRevision ∨ current.executionRunId ≠ expected.executionRunId ∨
      current.attemptCount ≠ expected.attemptCount ∨ current.receiptKey ≠ expected.receiptKey then
    some "delivery_binding_changed"
  else if current.envelope.target.eq expected.envelope.target ∧
      current.envelope.actionType.eq expected.envelope.actionType ∧
      current.envelope.payload.eq expected.envelope.payload ∧
      (Json.dict current.envelope.kwargs).eq (.dict expected.envelope.kwargs) then none
  else some "delivery_target_changed"

-- The arguments of `transition_automation_delivery`
structure Advance where
  deliveryId      : String
  ownerId         : String
  expectedPhases  : List Phase
  phase           : Phase
  error           : Option String   := none
  receiptKey      : Option String   := none
  retryDelay      : ℤ               := 5
  expectedBinding : Option Delivery := none
  expectedReceipt : Option Receipt  := none

namespace Advance

-- The receipt is still the one that the caller saw.
def sameReceipt (current expected : Option Receipt) : Bool :=
  match current, expected with
  | none, none     => true
  | some r, some e => r.state = e.state && r.ownerId = e.ownerId && r.runId = e.runId && r.sessionId = e.sessionId
  | _, _           => false

def bound (a : Advance) (db : Database) : Bool :=
  match a.expectedBinding with
  | none          => true
  | some expected => match db.deliveries.get? a.deliveryId with
    | none         => false
    | some current => bindingConflict current expected = none && sameReceipt (db.receiptOf current) a.expectedReceipt

-- A cancellation wins, also when it arrives between the creation of the run and its admission.
def runEnded (a : Advance) (db : Database) : Bool :=
  match db.deliveries.get? a.deliveryId with
  | none     => false
  | some row => (a.phase = .admitted || a.phase = .executing) &&
      (Runs.statusOf db.runs row.executionRunId = some "cancelled" ||
        Runs.statusOf db.runs row.executionRunId = some "completed")

def takes (a : Advance) (d : Delivery) : Bool :=
  d.ownerId = some a.ownerId && a.expectedPhases.contains d.phase

def write (a : Advance) (t : Clock) (d : Delivery) : Delivery :=
  { d with
    phase          := a.phase
    lastError      := a.error
    receiptKey     := a.receiptKey.or d.receiptKey
    admittedAt     := if a.phase = .admitted then some t.now else d.admittedAt
    availableAt    := if a.phase = .pending then t.after a.retryDelay else d.availableAt
    updatedAt      := t.now
    leaseExpiresAt :=
      if a.phase = .claimed ∨ a.phase = .admitted ∨ a.phase = .executing then some (t.after 30) else none }

end Advance

def transitionAutomationDelivery (a : Advance) (t : Clock) (db : Database) : Bool × Database :=
  if !a.bound db || a.runEnded db then (false, db)
  else (db.deliveries.any fun d => d.deliveryId = a.deliveryId && a.takes d,
    db.updateDelivery a.deliveryId a.takes (a.write t))

section Settle

-- What becomes of a run: the statuses that `transition_automation_run` accepts
inductive RunOutcome
  | waitingExternalTool
  | completed
  | failed
  | cancelled
  deriving DecidableEq, Repr

def RunOutcome.text : RunOutcome → String
  | waitingExternalTool => "waiting_external_tool"
  | completed           => "completed"
  | failed              => "failed"
  | cancelled           => "cancelled"

-- The arguments of `transition_automation_run`. `item` is the delivery as the caller knows it.
structure Settle where
  item           : Delivery
  status         : RunOutcome
  ownerId        : Option String := none
  receiptOwnerId : Option String := none
  errorMessage   : Option String := none
  reason         : Option String := none

-- `(value or {}).get(key)`
def member (value : Json) (key : String) : Json :=
  match value with
  | .dict members => Dict.get members key
  | _             => .null

-- The run was made for this delivery.
def runFits (run : RunRecord) (d : Delivery) : Bool :=
  run.runType = "automation" && (Json.str run.sessionId).eq (Dict.get d.envelope.kwargs "session_id") &&
  (Dict.get run.metadata "action_target").eq d.envelope.target &&
  (Dict.get run.metadata "action_type").eq d.envelope.actionType &&
  (member (Dict.get run.metadata "kwargs") "automation_delivery_id").eq (.str d.deliveryId)

namespace Settle

def receiptOwned (s : Settle) (receipt : Option Receipt) (run : RunRecord) : Bool :=
  match receipt, filled s.receiptOwnerId with
  | some r, some owner => r.ownerId = some owner && r.runId = some run.id && r.sessionId = run.sessionId
  | _, _               => false

-- The delivery and the run, when they are what the caller thinks they are
def target (s : Settle) (db : Database) : Except String (Delivery × RunRecord) :=
  match db.deliveries.get? s.item.deliveryId with
  | none         => .error "delivery_binding_changed"
  | some current => match bindingConflict current s.item with
    | some reason => .error reason
    | none        => match db.runs.get? current.executionRunId with
      | none     => .error "run_binding_changed"
      | some run => if runFits run current then .ok (current, run) else .error "run_binding_changed"

def allowedPhases (s : Settle) : List Phase :=
  [.claimed, .admitted, .executing, .blocked] ++ if s.status = .cancelled then [.cancelled] else []

-- The caller may settle the delivery in its present state.
def allowed (s : Settle) (d : Delivery) (run : RunRecord) : Except String Unit :=
  if !(["queued", "running"].contains run.status ||
      (s.status = .waitingExternalTool && run.status = "waiting_external_tool")) then .error "run_status_changed"
  else if s.status = .waitingExternalTool then
    if [.unknown, .completed, .failed].contains d.phase then .ok () else .error "delivery_not_unknown"
  else if filled s.ownerId = none ∨ d.ownerId ≠ s.ownerId ∨ d.envelope.reconciliation.isSome ∨
      !s.allowedPhases.contains d.phase then .error "execution_owner_lost"
  else .ok ()

def cancelledBeforeExecution (s : Settle) (d : Delivery) (receipt : Option Receipt) (run : RunRecord) : Bool :=
  s.status = .cancelled && d.phase ≠ .executing && (filled d.receiptKey = none || s.receiptOwned receipt run)

-- The end of the worker is not proved by what the database holds.
def unproven (s : Settle) (d : Delivery) (receipt : Option Receipt) (run : RunRecord) : Bool :=
  let proved (states : List ReceiptState) : Bool :=
    s.receiptOwned receipt run && receipt.any fun r => states.contains r.state
  (s.status = .completed && !proved [.completed]) ||
  ((filled d.receiptKey).isSome && !s.cancelledBeforeExecution d receipt run && !proved [.completed, .failed]) ||
  (s.status = .cancelled && d.phase = .executing)

end Settle

-- The phase of a delivery whose worker may still run
def provenPhase : Option Receipt → Phase
  | some r => match r.state with
    | .completed => .completed
    | .failed    => .failed
    | _          => .unknown
  | none   => .unknown

-- The outcome of the run is written, `recovery` being what its metadata say of a worker that may still run.
def settleRun (run : RunRecord) (status : RunOutcome) (recovery : Json) (error : Option String) (now : Time) :
    RunRecord :=
  { run with
    status       := status.text
    metadata     :=
      if status = .waitingExternalTool ∧ !Dict.has run.metadata "automationRecovery" then
        Dict.set run.metadata "automationRecovery" recovery
      else run.metadata
    errorMessage := if status = .waitingExternalTool then none else (filled error).or run.errorMessage
    finishedAt   := if status = .waitingExternalTool then none else some now }

def recoveryMarker (d : Delivery) (run : RunRecord) (reason : Option String) : Json :=
  .dict [("state", .str "waiting"), ("deliveryId", .str d.deliveryId), ("executionRunId", .str run.id),
    ("reason", reason.elim .null .str), ("processTermination", .str "unproven"), ("recoveryRequired", .bool true)]

-- The delivery has no owner any more.
def Database.park (db : Database) (id : String) (phase : Phase) (reason : Option String) (now : Time) : Database :=
  db.updateDelivery id (fun _ => true) fun d =>
    { d with phase := phase, ownerId := none, leaseExpiresAt := none, lastError := reason, updatedAt := now }

-- The human actions of the run that are cancelled with it are not part of this model.
def transitionAutomationRun (s : Settle) (now : Time) (db : Database) : Except String RunOutcome × Database :=
  match s.target db with
  | .error reason       => (.error reason, db)
  | .ok (current, run) => match s.allowed current run with
    | .error reason => (.error reason, db)
    | .ok ()        =>
      let receipt  := db.receiptOf current
      let unproven := s.status ≠ .waitingExternalTool && s.unproven current receipt run
      let reason   := if unproven then some "automation_worker_termination_unproven" else s.reason
      let next     := if unproven then .waitingExternalTool else s.status
      if next = .waitingExternalTool ∧ run.status = next.text ∧ (Dict.get run.metadata "automationRecovery").truthy then
        (.error "already_waiting", db)
      else
        let db := if unproven then db.park current.deliveryId (provenPhase receipt) reason now else db
        let write (r : RunRecord) := settleRun r next (recoveryMarker current run reason) s.errorMessage now
        (.ok next, { db with runs := db.runs.update (fun r => r.id = run.id) write })

end Settle

-- Queued work is cancelled; an effect that was admitted is left to the controller of its run.
def cancelAutomationDelivery (id reason : String) (now : Time) (db : Database) : Bool × Database :=
  let queued (d : Delivery) : Bool := [.pending, .claimed, .blocked].contains d.phase
  (db.deliveries.any fun d => d.deliveryId = id && queued d, db.updateDelivery id queued fun d =>
    { d with phase := .cancelled, lastError := some reason, leaseExpiresAt := none, updatedAt := now })

def renewAutomationDelivery (id owner : String) (leaseSeconds : ℤ) (t : Clock) (db : Database) : Bool × Database :=
  let held (d : Delivery) : Bool := d.ownerId = some owner && [.claimed, .admitted, .executing].contains d.phase
  (db.deliveries.any fun d => d.deliveryId = id && held d, db.updateDelivery id held fun d =>
    { d with leaseExpiresAt := some (t.after leaseSeconds), updatedAt := t.now })

section Reconcile

def Delivery.lost (d : Delivery) (now : Time) : Bool :=
  ([.claimed, .admitted, .executing].contains d.phase && d.leaseExpiresAt.any (· ≤ now)) || d.phase = .unknown

-- What is known of a delivery without an owner
def reconciledPhase (d : Delivery) (receipt : Option Receipt) (run : Option String) : Phase × String :=
  if receipt.any (·.state = .completed) then (.completed, "receipt_completed")
  else if run = some "cancelled" then (.cancelled, "execution_cancelled")
  else if receipt.any (·.state = .failed) then (.failed, "receipt_failed")
  else if d.phase = .executing ∨ d.phase = .unknown then (.unknown, "external_outcome_requires_reconciliation")
  else (.pending, "pre_execution_owner_lost")

-- What happens to the receipts with it: an effect that may have happened is in doubt, and the claims of an
-- attempt whose action was not started have failed.
def reconcileReceipts (d : Delivery) (verdict : Phase × String) (receipt : Option Receipt) (now : Time)
    (rs : Receipts) : Receipts :=
  match verdict.1 with
  | .unknown =>
    if receipt.any (·.state = .claimed) then
      rs.update (fun r => some r.idempotencyKey = d.receiptKey && r.state = .claimed)
        (fun r => r.suspend verdict.2 now) fun _ => Receipt.suspend_key
    else rs
  | .pending =>
    rs.update (fun r => r.runId = some d.executionRunId && r.effectKind = "automation.trigger_execution" &&
        r.state = .claimed) fun r =>
      { r with
        state          := .failed
        ownerId        := none
        leaseExpiresAt := none
        lastError      := some "automation_not_started"
        updatedAt      := now }
  | _ => rs

-- What is reported of a delivery that changed
structure Reconciled where
  deliveryId : String
  phase      : Phase
  reason     : String

def Database.verdict (db : Database) (d : Delivery) : Phase × String :=
  reconciledPhase d (db.receiptOf d) (Runs.statusOf db.runs d.executionRunId)

def Delivery.release (d : Delivery) (verdict : Phase × String) (now : Time) : Delivery :=
  { d with
    phase          := verdict.1
    ownerId        := none
    leaseExpiresAt := none
    availableAt    := now
    lastError      := some verdict.2
    updatedAt      := now }

theorem Delivery.release_deliveryId {d : Delivery} {verdict : Phase × String} {now : Time} :
    (d.release verdict now).deliveryId = d.deliveryId := rfl

def reconcileRow (now : Time) (acc : Database × List Reconciled) (d : Delivery) : Database × List Reconciled :=
  let verdict := acc.1.verdict d
  let db := { acc.1 with receipts := reconcileReceipts d verdict (acc.1.receiptOf d) now acc.1.receipts }
  (db.updateDelivery d.deliveryId (fun _ => true) (fun r => r.release verdict now) fun _ => Delivery.release_deliveryId,
    if verdict.1 = d.phase ∧ some verdict.2 = d.lastError then acc.2
    else acc.2 ++ [⟨d.deliveryId, verdict.1, verdict.2⟩])

-- `ORDER BY available_at, delivery_id LIMIT ?`
def lostDeliveries (now : Time) (limit : ℤ) (db : Database) : List Delivery :=
  ((db.deliveries.rows.filter (·.lost now)).insertionSort fun a b =>
    a.availableAt < b.availableAt ∨ (a.availableAt = b.availableAt ∧ a.deliveryId ≤ b.deliveryId)).take
    (max 1 (min limit 256)).toNat

def reconcileAutomationDeliveries (now : Time) (limit : ℤ) (db : Database) : Database × List Reconciled :=
  (lostDeliveries now limit db).foldl (reconcileRow now) (db, [])

-- The outcome of an unknown delivery was observed. `outcome` is completed or failed, and the evidence is not empty.
def reconcileAutomationDelivery (id outcome : String) (evidence : Dict) (nowText : String) (now : Time)
    (db : Database) : Except Error (Bool × Database) :=
  let settle (phase : Phase) : Database :=
    db.updateDelivery id (fun d => d.phase = .unknown) fun d =>
      { d with
        phase     := phase
        envelope  := { d.envelope with
          reconciliation := some [("outcome", .str outcome), ("evidence", .dict evidence), ("at", .str nowText)] }
        lastError := none
        updatedAt := now }
  let found := db.deliveries.any fun d => d.deliveryId = id && d.phase = .unknown
  if evidence.isEmpty then .error (.value "delivery reconciliation requires completed/failed and outcome evidence")
  else if outcome = "completed" then .ok (found, settle .completed)
  else if outcome = "failed" then .ok (found, settle .failed)
  else .error (.value "delivery reconciliation requires completed/failed and outcome evidence")

end Reconcile
end Automation
