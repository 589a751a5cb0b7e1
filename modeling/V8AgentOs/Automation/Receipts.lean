import V8AgentOs.Runs.Control

-- core/database.py: the receipts of side effects.
--
-- A function of the model is a transaction: it takes the table and returns what the caller is told,
-- together with the table that is committed.
namespace Automation

open Python (Dict Json strip)
open Runs (Time)

-- What one call reads of the clock: `utc_now_iso()`, its text, and the reading from which a lease counts.
structure Clock where
  now     : Time
  nowText : String
  later   : Time

def Clock.after (t : Clock) (seconds : ℤ) : Time :=
  t.later + 1000 * seconds

inductive ReceiptState
  | claimed
  | completed
  | failed
  | indeterminate
  deriving DecidableEq, Repr

-- `runtime_side_effect_receipts`
structure Receipt where
  idempotencyKey     : String
  sessionId          : String
  runId              : Option String
  effectKind         : String
  stepKey            : String
  targetIdentity     : String
  payloadFingerprint : String
  state              : ReceiptState
  ownerId            : Option String
  attemptCount       : ℕ
  leaseExpiresAt     : Option Time
  startedAt          : Option Time
  completedAt        : Option Time
  failedAt           : Option Time
  lastError          : Option String
  metadata           : Dict
  createdAt          : Time
  updatedAt          : Time

abbrev Receipts := Table Receipt.idempotencyKey

inductive Error
  | value (message : String)
  | reused (key : String)
  | integrity
  deriving DecidableEq, Repr

-- `str(text or "").strip() or None` and `str(text or "").strip() or default`
def present (text : String) : Option String :=
  if strip text = "" then none else some (strip text)

-- The arguments of `claim_side_effect_receipt`
structure Claim where
  sessionId          : String
  runId              : Option String
  idempotencyKey     : String
  effectKind         : String
  stepKey            : String
  targetIdentity     : String
  payloadFingerprint : String
  ownerId            : String
  metadata           : Dict
  leaseSeconds       : ℤ    := 300
  retryFailed        : Bool := true
  replaySafe         : Bool := false
  legacyCompleted    : Bool := false

structure Disposition where
  execute      : Bool
  reason       : String
  priorTopic   : Option String
  state        : ReceiptState
  attemptCount : ℕ
  deriving DecidableEq, Repr

namespace ReceiptState

def topic : ReceiptState → String
  | completed     => "side_effect.completed"
  | failed        => "side_effect.failed"
  | claimed       => "side_effect.started"
  | indeterminate => "side_effect.outcome_unknown"

end ReceiptState

namespace Receipt

-- `str(current.get("lease_expires_at") or "") <= now_iso`
def expired (r : Receipt) (now : Time) : Bool :=
  match r.leaseExpiresAt with
  | none   => true
  | some e => e ≤ now

-- The answer to a claim that does not execute
def held (r : Receipt) (reason : String) : Disposition :=
  ⟨false, reason, r.state.topic, r.state, r.attemptCount⟩

-- The columns with which a row is handed to an owner again
def handOver (r : Receipt) (owner : String) (lease now : Time) (metadata : Dict) : Receipt :=
  { r with
    state          := .claimed
    ownerId        := some owner
    attemptCount   := r.attemptCount + 1
    leaseExpiresAt := some lease
    startedAt      := some now
    metadata       := metadata
    updatedAt      := now }

-- `UPDATE … SET state = 'indeterminate', owner_id = NULL, lease_expires_at = NULL, last_error = ?`
def suspend (r : Receipt) (error : String) (now : Time) : Receipt :=
  { r with state := .indeterminate, ownerId := none, leaseExpiresAt := none, lastError := some error, updatedAt := now }

theorem suspend_key {r : Receipt} {error : String} {now : Time} :
    (r.suspend error now).idempotencyKey = r.idempotencyKey := rfl

end Receipt

namespace Claim

def key (c : Claim) : String :=
  strip c.idempotencyKey

def owner (c : Claim) : String :=
  strip c.ownerId

-- `max(1, int(lease_seconds or 300))` seconds from now
def lease (c : Claim) (t : Clock) : Time :=
  t.after (max 1 (if c.leaseSeconds = 0 then 300 else c.leaseSeconds))

-- The row that is inserted for a key without one
def row (c : Claim) (t : Clock) : Receipt where
  idempotencyKey     := c.key
  sessionId          := strip c.sessionId
  runId              := c.runId.bind present
  effectKind         := (present c.effectKind).getD "unknown"
  stepKey            := (present c.stepKey).getD "unknown"
  targetIdentity     := strip c.targetIdentity
  payloadFingerprint := strip c.payloadFingerprint
  state              := if c.legacyCompleted then .completed else .claimed
  ownerId            := if c.legacyCompleted then none else some c.owner
  attemptCount       := 1
  leaseExpiresAt     := if c.legacyCompleted then none else some (c.lease t)
  startedAt          := some t.now
  completedAt        := if c.legacyCompleted then some t.now else none
  failedAt           := none
  lastError          := none
  metadata           := c.metadata
  createdAt          := t.now
  updatedAt          := t.now

end Claim

-- What a claim makes of the row of its key
def claimRow (c : Claim) (t : Clock) (r : Receipt) : Disposition × Receipt :=
  match r.state with
  | .completed => (r.held "completed_receipt", r)
  | .failed =>
    if c.retryFailed then
      (⟨true, "failed_receipt_retry", some "side_effect.failed", .claimed, r.attemptCount + 1⟩,
        { r.handOver c.owner (c.lease t) t.now c.metadata with failedAt := none, lastError := none })
    else (r.held "failed_receipt", r)
  | .indeterminate => (r.held "unknown_outcome_reconciliation_required", r)
  | .claimed =>
    if r.expired t.now then
      if c.replaySafe then
        (⟨true, "expired_claim_reclaimed", some "side_effect.started", .claimed, r.attemptCount + 1⟩,
          r.handOver c.owner (c.lease t) t.now c.metadata)
      else
        (⟨false, "unknown_outcome_reconciliation_required", some "side_effect.started", .indeterminate, r.attemptCount⟩,
          { r.suspend "side_effect_outcome_unknown" t.now with
            metadata := c.metadata.merge [("reconciliationRequired", .bool true),
              ("unknownOutcomeDetectedAt", .str t.nowText)] })
    else (r.held "in_flight_receipt", r)

theorem claimRow_key {c : Claim} {t : Clock} {r : Receipt} :
    (claimRow c t r).2.idempotencyKey = r.idempotencyKey := by
  unfold claimRow
  split
  case h_1 => rfl
  case h_2 => split <;> rfl
  case h_3 => rfl
  case h_4 =>
    split
    case isTrue  => split <;> rfl
    case isFalse => rfl

def claimSideEffectReceipt (c : Claim) (t : Clock) (rs : Receipts) : Except Error (Disposition × Receipts) :=
  if c.key = "" ∨ strip c.sessionId = "" ∨ c.owner = "" then
    .error (.value "side-effect claim requires session_id, idempotency_key, and owner_id")
  else match rs.get? c.key with
    | none =>
      match rs.insert? (c.row t) with
      | none     => .error .integrity
      | some rs' =>
        .ok (if c.legacyCompleted then ⟨false, "legacy_completed_receipt", some "side_effect.completed", .completed, 1⟩
          else ⟨true, "claimed", none, .claimed, 1⟩, rs')
    | some r =>
      if r.payloadFingerprint ≠ c.payloadFingerprint then .error (.reused c.key)
      else .ok ((claimRow c t r).1, rs.update (fun r => r.idempotencyKey = c.key) (fun r => (claimRow c t r).2)
        fun _ => claimRow_key)

-- `WHERE idempotency_key = ? AND owner_id = ? AND state = 'claimed'`
def heldBy (key owner : String) (r : Receipt) : Bool :=
  r.idempotencyKey = key && (r.ownerId = some owner && r.state = .claimed)

def Receipt.complete (r : Receipt) (result : Option Dict) (now : Time) : Receipt :=
  { r with
    state          := .completed
    completedAt    := some now
    leaseExpiresAt := none
    lastError      := none
    metadata       := result.getD r.metadata
    updatedAt      := now }

def Receipt.fail (r : Receipt) (error : String) (now : Time) : Receipt :=
  { r with
    state          := .failed
    failedAt       := some now
    leaseExpiresAt := none
    lastError      := some error
    updatedAt      := now }

theorem Receipt.complete_key {r : Receipt} {result : Option Dict} {now : Time} :
    (r.complete result now).idempotencyKey = r.idempotencyKey := rfl

theorem Receipt.fail_key {r : Receipt} {error : String} {now : Time} :
    (r.fail error now).idempotencyKey = r.idempotencyKey := rfl

def completeSideEffectReceipt (key owner : String) (result : Option Dict) (now : Time) (rs : Receipts) :
    Bool × Receipts :=
  (rs.any (heldBy (strip key) (strip owner)), rs.update (heldBy (strip key) (strip owner))
    (fun r => r.complete result now) fun _ => Receipt.complete_key)

def failSideEffectReceipt (key owner error : String) (now : Time) (rs : Receipts) : Bool × Receipts :=
  (rs.any (heldBy (strip key) (strip owner)), rs.update (heldBy (strip key) (strip owner))
    (fun r => r.fail error now) fun _ => Receipt.fail_key)

-- The key and the owner are compared as they are given.
def markSideEffectIndeterminate (key owner error : String) (now : Time) (rs : Receipts) : Bool × Receipts :=
  (rs.any (heldBy key owner), rs.update (heldBy key owner) (fun r => r.suspend error now) fun _ => Receipt.suspend_key)

-- `WHERE idempotency_key = ? AND state = 'indeterminate'`
def uncertain (key : String) (r : Receipt) : Bool :=
  r.idempotencyKey = key && r.state = .indeterminate

def Receipt.reconcile (r : Receipt) (state : ReceiptState) (evidence : Dict) (error : Option String) (now : Time) :
    Receipt :=
  { r with
    state          := state
    ownerId        := none
    leaseExpiresAt := none
    completedAt    := if state = .completed then some now else r.completedAt
    failedAt       := if state = .failed then some now else r.failedAt
    lastError      :=
      if state = .failed then some ((error.filter (· ≠ "")).getD "reconciled_external_failure") else none
    metadata       := evidence
    updatedAt      := now }

theorem Receipt.reconcile_key {r : Receipt} {state : ReceiptState} {evidence : Dict} {error : Option String}
    {now : Time} : (r.reconcile state evidence error now).idempotencyKey = r.idempotencyKey := rfl

-- The outcome that a text names. It is compared without regard to case and to blanks around it.
def outcomeState (lower : String → String) (outcome : String) : Option ReceiptState :=
  if lower (strip outcome) = "completed" then some .completed
  else if lower (strip outcome) = "failed" then some .failed
  else none

def reconcileSideEffectReceipt (lower : String → String) (key outcome : String) (evidence : Dict)
    (error : Option String) (now : Time) (rs : Receipts) : Except Error (Bool × Receipts) :=
  match outcomeState lower outcome with
  | none       => .error (.value "side-effect reconciliation requires a key and completed/failed outcome")
  | some state =>
    if strip key = "" then .error (.value "side-effect reconciliation requires a key and completed/failed outcome")
    else .ok (rs.any (uncertain (strip key)), rs.update (uncertain (strip key))
      (fun r => r.reconcile state evidence error now) fun _ => Receipt.reconcile_key)

end Automation
