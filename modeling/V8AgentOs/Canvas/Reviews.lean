import V8AgentOs.Canvas.Document
import V8AgentOs.Lib.Table

-- core/creative_canvas_graph.py: the reviews of the outputs of a canvas graph, and their delivery.
namespace Canvas.Reviews

open Python (Json)

inductive Decision
  | pending
  | approved
  | rejected
  deriving DecidableEq

def Decision.text : Decision → String
  | pending  => "pending"
  | approved => "approved"
  | rejected => "rejected"

-- A member of `OUTPUT_REVIEW_DECISIONS`
def Decision.ofText? (s : String) : Option Decision :=
  [pending, approved, rejected].find? (·.text = s)

-- `delivery_status`
inductive Status
  | idle
  | pending
  | failed
  | delivered
  deriving DecidableEq

-- A result node of a graph
structure Result where
  graphId      : String
  resultNodeId : String
  deriving DecidableEq

-- A row of `creative_canvas_node_outputs`
structure Output where
  outputVersionId : String
  sessionId       : String
  result          : Result

-- The four columns that bind a delivery to its manifest
structure Manifest where
  artifactId   : String
  digest       : String
  bytesDigest  : String
  relativePath : String
  deriving DecidableEq

-- What a review says
structure Verdict where
  decision            : Decision := .pending
  note                : String := ""
  selectedForDelivery : Bool := false
  deriving DecidableEq

-- A row of `creative_canvas_output_reviews`
structure Review extends Verdict where
  outputVersionId : String
  sessionId       : String
  result          : Result
  revision        : ℕ
  status          : Status := .idle
  attempt         : ℕ := 0
  leaseId         : Option String := none
  leaseExpiresAt  : Option ℕ := none
  errorDetailCode : Option String := none
  manifest        : Option Manifest := none
  reviewedAt      : Option ℕ := none
  deliveredAt     : Option ℕ := none
  deriving DecidableEq

-- A row of `creative_canvas_output_review_heads`
structure Head where
  revision                : ℕ := 0
  selectedOutputVersionId : Option String := none
  deriving DecidableEq

structure Ledger where
  outputs : String → Option Output
  reviews : Table fun review : Review => review.outputVersionId
  heads   : Result → Option Head

-- What a transaction meets: the time, and whether the workspace of the session is bound, writable and that of the
-- graph.
structure Moment where
  now        : ℕ
  authorized : Bool

-- A row of `_select_output_row`
structure Row where
  output : Output
  review : Option Review
  head   : Option Head

namespace Row

-- `_review_projection`

variable (row : Row)

def revision : ℕ :=
  (row.head.map (·.revision)).getD ((row.review.map (·.revision)).getD 0)

def verdict : Verdict :=
  (row.review.map (·.toVerdict)).getD {}

def status : Status :=
  (row.review.map (·.status)).getD .idle

def attempt : ℕ :=
  (row.review.map (·.attempt)).getD 0

def manifest : Option Manifest :=
  row.review.bind (·.manifest)

end Row

-- `_delivery_lease_active`
def Review.leaseActive (review : Review) (now : ℕ) : Bool :=
  review.status = .pending && review.leaseExpiresAt.any (now < ·)

namespace Review

variable (review : Review)

-- What the selection of another version leaves of a review
def deselected (revision : ℕ) : Review :=
  { review with
    selectedForDelivery := false
    revision            := revision
    status              := if review.status = .pending then .failed else review.status
    errorDetailCode     := if review.status = .pending then some "delivery_lease_expired" else review.errorDetailCode
    leaseId             := none
    leaseExpiresAt      := none }

-- A decision about a version that has a review
def decided (verdict : Verdict) (revision : ℕ) (reviewedAt : Option ℕ) : Review :=
  { review with
    toVerdict       := verdict
    revision        := revision
    status          := .idle
    leaseId         := none
    leaseExpiresAt  := none
    errorDetailCode := none
    manifest        := none
    reviewedAt      := reviewedAt }

variable {review} {verdict : Verdict} {revision : ℕ} {reviewedAt : Option ℕ}

@[simp] theorem id_deselected : (review.deselected revision).outputVersionId = review.outputVersionId := rfl

@[simp] theorem id_decided : (review.decided verdict revision reviewedAt).outputVersionId = review.outputVersionId := rfl

end Review

namespace Ledger

def empty : Ledger where
  outputs _ := none
  reviews   := .empty
  heads _   := none

-- `_select_output_row`
def select (db : Ledger) (sessionId outputVersionId : String) : Option Row := do
  let output ← db.outputs outputVersionId
  if output.sessionId ≠ sessionId then none
  else some { output, review := db.reviews.get? outputVersionId, head := db.heads output.result }

-- `INSERT OR IGNORE` and the reading of the head
def head (db : Ledger) (result : Result) : Head :=
  (db.heads result).getD {}

-- The other version of the result that is selected
def priorSelected (db : Ledger) (output : Output) : Option Review :=
  db.reviews.rows.find? fun review => review.result = output.result &&
    review.outputVersionId ≠ output.outputVersionId && review.selectedForDelivery

def nextRevision (db : Ledger) (output : Output) : ℕ :=
  (db.head output.result).revision + 1

def nextHead (db : Ledger) (output : Output) (verdict : Verdict) : Head where
  revision                := db.nextRevision output
  selectedOutputVersionId :=
    let prior := (db.head output.result).selectedOutputVersionId
    if verdict.selectedForDelivery then some output.outputVersionId
    else if prior = some output.outputVersionId then none
    else prior

-- The version that the head names loses the selection to another one.
def deselects (db : Ledger) (output : Output) (verdict : Verdict) (review : Review) : Bool :=
  verdict.selectedForDelivery && (db.head output.result).selectedOutputVersionId = some review.outputVersionId &&
    review.outputVersionId ≠ output.outputVersionId && review.result = output.result && review.selectedForDelivery

def reviewedAt (now : ℕ) (verdict : Verdict) : Option ℕ :=
  if verdict.decision ≠ .pending then some now else none

-- The writes of a decision: the head, the version that was selected before, and the version that is decided about
def write (db : Ledger) (now : ℕ) (output : Output) (verdict : Verdict) : Ledger :=
  { db with
    heads   := Function.update db.heads output.result (some (db.nextHead output verdict))
    reviews := (db.reviews.update (db.deselects output verdict) (·.deselected (db.nextRevision output))
      fun _ => Review.id_deselected).upsert
      { verdict, output with revision := db.nextRevision output, reviewedAt := reviewedAt now verdict }
      (·.decided verdict (db.nextRevision output) (reviewedAt now verdict)) fun _ => Review.id_decided }

-- `UPDATE creative_canvas_output_reviews SET f WHERE p`
def rewrite (db : Ledger) (p : Review → Bool) (f : Review → Review)
    (hf : ∀ review, (f review).outputVersionId = review.outputVersionId) : Ledger :=
  { db with reviews := db.reviews.update p f hf }

-- The unique index `idx_canvas_output_reviews_selected_result`
def selectedTwice (db : Ledger) (output : Output) : Bool :=
  (db.reviews.get? output.outputVersionId).any (·.selectedForDelivery) && (db.priorSelected output).isSome

end Ledger

-- A call of `review_output`
structure Request where
  sessionId           : String
  outputVersionId     : Json
  decision            : Json
  note                : Json
  selectedForDelivery : Bool
  expectedRevision    : ℕ

def Rules.note (r : Rules) (note : Json) : String :=
  r.cleanText note 1000

-- `review_output`
def reviewOutput (r : Rules) (m : Moment) (db : Ledger) (request : Request) : Option Ledger := do
  let id ← r.cleanId request.outputVersionId
  let decision ← Decision.ofText? (r.text.lowered request.decision)
  let verdict : Verdict := ⟨decision, Rules.note r request.note, request.selectedForDelivery⟩
  let row ← db.select request.sessionId id
  if verdict.selectedForDelivery ∧ verdict.decision ≠ .approved then none
  else if !m.authorized ∨ row.revision ≠ request.expectedRevision then none
  -- The note was cleaned before it was cut, so the projection may read less of it than is stored.
  else if { row.verdict with note := Rules.note r (.str row.verdict.note) } = verdict then some db
  else if row.status = .delivered ∨ row.review.any (·.leaseActive m.now) then none
  else if (db.head row.output.result).revision ≠ request.expectedRevision then none
  else if verdict.selectedForDelivery ∧
      (db.priorSelected row.output).any fun prior => prior.status = .delivered || prior.leaseActive m.now then none
  else
    let next := db.write m.now row.output verdict
    if next.selectedTwice row.output then none else some next

-- `DELIVERY_LEASE_SECONDS`
def leaseSeconds : ℕ := 120

-- What a call of `create_delivery_manifest` does next
inductive Stage
  | claiming
  | writing
  | failing (errorDetailCode : String)
  | over
  deriving DecidableEq

-- A call of `create_delivery_manifest`. The manifest is what the resource and the proof of the output gave.
structure Call where
  leaseId          : String
  sessionId        : String
  outputVersionId  : String
  expectedRevision : ℕ
  manifest         : Manifest
  leaseExpiresAt   : ℕ
  stage            : Stage := .claiming

-- What `create_delivery_manifest` asks of the review
def Row.deliverable (row : Row) (expectedRevision : ℕ) : Bool :=
  row.revision = expectedRevision && row.verdict.decision = .approved && row.verdict.selectedForDelivery

namespace Call

variable (call : Call)

-- `WHERE` of the claim
def claims (review : Review) : Bool :=
  review.outputVersionId = call.outputVersionId && review.decision = .approved && review.selectedForDelivery &&
    review.status ≠ .delivered

def claimed (attempt : ℕ) (review : Review) : Review :=
  { review with
    status          := .pending
    attempt         := attempt
    leaseId         := some call.leaseId
    leaseExpiresAt  := some call.leaseExpiresAt
    errorDetailCode := none
    manifest        := some call.manifest }

@[simp] theorem id_claimed {attempt : ℕ} {review : Review} :
    (call.claimed attempt review).outputVersionId = review.outputVersionId := rfl

-- The transaction that claims the delivery, and what the call does after it
def claim (m : Moment) (db : Ledger) : Option (Ledger × Stage) := do
  let row ← db.select call.sessionId call.outputVersionId
  if !m.authorized ∨ !row.deliverable call.expectedRevision then none
  else if row.status = .delivered then
    -- Nothing is written any more
    if row.manifest = some call.manifest then some (db, .over) else none
  else if row.review.any (·.leaseActive m.now) then none
  else if !db.reviews.any call.claims then none
  else some (db.rewrite call.claims (call.claimed (row.attempt + 1)) fun _ => id_claimed _, .writing)

-- `WHERE` of the acknowledgement
def acknowledges (review : Review) : Bool :=
  review.outputVersionId = call.outputVersionId && review.decision = .approved && review.selectedForDelivery &&
    review.status = .pending && review.leaseId = some call.leaseId && review.manifest = some call.manifest

def delivered (now : ℕ) (review : Review) : Review :=
  { review with
    status          := .delivered
    deliveredAt     := review.deliveredAt.or (some now)
    leaseId         := none
    leaseExpiresAt  := none
    errorDetailCode := none }

@[simp] theorem id_delivered {now : ℕ} {review : Review} :
    (delivered now review).outputVersionId = review.outputVersionId := rfl

-- The transaction that acknowledges the delivery
def acknowledge (m : Moment) (db : Ledger) : Option Ledger := do
  let row ← db.select call.sessionId call.outputVersionId
  if !m.authorized ∨ row.revision ≠ call.expectedRevision then none
  else if !db.reviews.any call.acknowledges then none
  else some (db.rewrite call.acknowledges (delivered m.now) fun _ => id_delivered)

-- `WHERE` of the failure
def holds (review : Review) : Bool :=
  review.outputVersionId = call.outputVersionId && review.status = .pending && review.leaseId = some call.leaseId

def failed (errorDetailCode : String) (review : Review) : Review :=
  { review with
    status          := .failed
    errorDetailCode := some errorDetailCode
    leaseId         := none
    leaseExpiresAt  := none }

@[simp] theorem id_failed {errorDetailCode : String} {review : Review} :
    (failed errorDetailCode review).outputVersionId = review.outputVersionId := rfl

-- `_record_delivery_failure`
def recordFailure (db : Ledger) (errorDetailCode : String) : Option Ledger := do
  let row ← db.select call.sessionId call.outputVersionId
  if !row.review.any call.holds then none
  else some (db.rewrite call.holds (failed errorDetailCode) fun _ => id_failed)

end Call

-- The part of a call that raises
inductive Part
  | manifest
  | artifact
  | ack

-- `_delivery_failure_code`
def deliveryFailureCode (conflict : Bool) : Part → String
  | part => if conflict then "delivery_identity_conflict" else match part with
    | .manifest => "delivery_manifest_write_failed"
    | .artifact => "delivery_artifact_registration_failed"
    | .ack      => "delivery_ack_failed"

-- The tables and the calls of `create_delivery_manifest` so far. A lease id comes from `uuid.uuid4()`: no two calls
-- have the same.
structure Desk where
  ledger : Ledger
  calls  : Table fun call : Call => call.leaseId

inductive Event
  -- `_record_output` inserts a version.
  | record (output : Output)
  | review (request : Request)
  -- A call reads its review and makes the manifest.
  | open (call : Call)
  | claim (leaseId : String)
  -- The file, the artifact or the acknowledgement raises.
  | raise (leaseId : String) (conflict : Bool) (part : Part)
  | acknowledge (leaseId : String)
  | recordFailure (leaseId : String)

namespace Desk

def empty : Desk where
  ledger := .empty
  calls  := .empty

-- The call goes on
def move (s : Desk) (leaseId : String) (stage : Stage) : Desk :=
  { s with calls := s.calls.update (·.leaseId = leaseId) fun call => { call with stage } }

-- The call, if it is there
def call? (s : Desk) (leaseId : String) (stage : Stage) : Option Call :=
  (s.calls.get? leaseId).filter (·.stage = stage)

-- Gives nothing where a transaction is refused or the call is elsewhere
def perform? (r : Rules) (m : Moment) (s : Desk) : Event → Option Desk
  | .record output =>
    if (s.ledger.outputs output.outputVersionId).isSome then none
    else some { s with ledger := { s.ledger with
      outputs := Function.update s.ledger.outputs output.outputVersionId (some output) } }
  | .review request => do
    let ledger ← reviewOutput r m s.ledger request
    some { s with ledger }
  | .open call => do
    let row ← s.ledger.select call.sessionId call.outputVersionId
    if !m.authorized ∨ !row.deliverable call.expectedRevision then none
    else
      let calls ← s.calls.insert? { call with leaseExpiresAt := m.now + leaseSeconds, stage := .claiming }
      some { s with calls }
  | .claim leaseId => do
    let call ← s.call? leaseId .claiming
    let (ledger, stage) ← call.claim m s.ledger
    some ({ s with ledger }.move leaseId stage)
  | .raise leaseId conflict part => do
    let _ ← s.call? leaseId .writing
    some (s.move leaseId (.failing (deliveryFailureCode conflict part)))
  | .acknowledge leaseId => do
    let call ← s.call? leaseId .writing
    let ledger ← call.acknowledge m s.ledger
    some ({ s with ledger }.move leaseId .over)
  | .recordFailure leaseId => do
    let call ← s.calls.get? leaseId
    match call.stage with
    | .failing errorDetailCode =>
      let ledger ← call.recordFailure s.ledger errorDetailCode
      some ({ s with ledger }.move leaseId .over)
    | _ => none

-- What is refused changes nothing.
def perform (r : Rules) (m : Moment) (s : Desk) (e : Event) : Desk :=
  (s.perform? r m e).getD s

end Desk
end Canvas.Reviews
