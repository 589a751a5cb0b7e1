import Mathlib.Algebra.Order.Field.Rat
import Mathlib.Algebra.Order.Floor.Semiring
import Mathlib.Data.Rat.Floor
import V8AgentOs.Python.Str

-- core/provider_circuit.py
namespace ProviderCircuit

inductive CircuitState
  | closed
  | opened
  | halfOpen
  deriving DecidableEq, Repr

inductive AttemptState
  | pending
  | success
  | failure
  | neutral
  | released
  | stale
  | expired
  deriving DecidableEq, Repr

-- What a settlement records as the state of its attempt.
inductive Outcome
  | success
  | failure
  | neutral
  | released
  deriving DecidableEq, Repr

def Outcome.state : Outcome → AttemptState
  | success  => .success
  | failure  => .failure
  | neutral  => .neutral
  | released => .released

-- A row of `provider_circuit_state`, without its key `provider_id`. Times are in seconds.
structure Circuit where
  state          : CircuitState
  generation     : ℕ
  openUntil      : Option ℚ
  probeId        : Option String
  probeExpiresAt : Option ℚ
  updatedAt      : ℚ
  deriving DecidableEq

-- A row of `provider_circuit_attempts`.
structure Attempt where
  id         : String
  providerId : String
  generation : ℕ
  isProbe    : Bool
  state      : AttemptState
  createdAt  : ℚ
  finishedAt : Option ℚ
  errorCode  : Option String
  deriving DecidableEq

structure Database where
  circuits : String → Option Circuit
  attempts : List Attempt

structure Permit where
  permitId   : String
  providerId : String
  generation : ℕ
  probe      : Bool
  deriving DecidableEq

inductive Reason
  | attemptNotCurrent
  | probeInFlight
  | probeAvailable
  | state (s : CircuitState)
  deriving DecidableEq

inductive Error
  | providerRequired
  | attemptIdentityConflict
  | permitMismatch
  | noCircuit
  | circuitOpen (retryAfterSeconds : ℚ) (reason : Reason)
  deriving DecidableEq

-- What `float(value)` yields for a configured value, where that is a finite number.
abbrev Setting := Option ℚ

structure Governance where
  providerCircuitProbeLeaseSeconds : Setting := none
  providerCircuitCooldownSeconds   : Setting := none
  providerFailureThreshold         : Setting := none
  providerErrorRateThreshold       : Setting := none
  providerHealthWindowDays         : Setting := none

def positive (value : Setting) (default : ℚ) : ℚ :=
  match value with
  | some v => if 0 < v then v else default
  | none   => default

namespace Governance

variable (g : Governance)

def leaseSeconds : ℚ := positive g.providerCircuitProbeLeaseSeconds 120

def cooldown : ℚ := positive g.providerCircuitCooldownSeconds 60

def minimumSamples : ℕ := max 1 ⌊positive g.providerFailureThreshold 3⌋₊

def rate : ℚ :=
  match g.providerErrorRateThreshold with
  | some r => min 1 (max 0 r)
  | none   => 6 / 10

def windowSeconds : ℚ := positive g.providerHealthWindowDays 7 * 86400

end Governance

namespace Circuit

-- The row that `INSERT OR IGNORE` creates.
def fresh (now : ℚ) : Circuit where
  state := .closed
  generation := 0
  openUntil := none
  probeId := none
  probeExpiresAt := none
  updatedAt := now

-- `float(row['probe_expires_at'] or 0)`
def probeExpires (c : Circuit) : ℚ := c.probeExpiresAt.getD 0

def opensAt (c : Circuit) : ℚ := c.openUntil.getD 0

end Circuit

structure View where
  circuitState         : CircuitState
  circuitAllowsAttempt : Bool
  circuitGeneration    : ℕ
  probeInFlight        : Bool
  retryAfterSeconds    : ℚ
  circuitReason        : Reason
  deriving DecidableEq

def view (row : Circuit) (now : ℚ) : View :=
  let busy := row.state = .halfOpen ∧ now < row.probeExpires
  let delay := (if busy then row.probeExpires else row.opensAt) - now
  let allowed := row.state = .closed ∨ (¬busy ∧ delay ≤ 0)
  let state : CircuitState :=
    if row.state = .closed then .closed else if allowed ∨ busy then .halfOpen else .opened
  { circuitState := state
    circuitAllowsAttempt := allowed
    circuitGeneration := row.generation
    probeInFlight := busy
    retryAfterSeconds := max 0 delay
    circuitReason :=
      if busy then .probeInFlight else if state = .halfOpen then .probeAvailable else .state state }

namespace Database

def empty : Database where
  circuits _ := none
  attempts := []

def setCircuit (db : Database) (providerId : String) (row : Circuit) : Database :=
  { db with circuits := fun p => if p = providerId then some row else db.circuits p }

-- `INSERT OR IGNORE INTO provider_circuit_state`
def ensureCircuit (db : Database) (providerId : String) (now : ℚ) : Database :=
  match db.circuits providerId with
  | some _ => db
  | none   => db.setCircuit providerId (.fresh now)

-- `SELECT * FROM provider_circuit_attempts WHERE id=?`
def attempt? (db : Database) (id : String) : Option Attempt :=
  db.attempts.find? (·.id = id)

def insertAttempt (db : Database) (a : Attempt) : Database :=
  { db with attempts := db.attempts ++ [a] }

-- `UPDATE provider_circuit_attempts SET state=?, finished_at=?, error_code=? WHERE id=?`
def settleAttempt
    (db : Database) (id : String) (state : AttemptState) (now : ℚ) (errorCode : Option String) :
    Database :=
  { db with attempts := db.attempts.map fun a =>
      if a.id = id then { a with state := state, finishedAt := some now, errorCode := errorCode }
      else a }

-- Marks the attempt of a replaced probe, where it is still pending.
def expireProbe (db : Database) (probeId : Option String) (now : ℚ) : Database :=
  { db with attempts := db.attempts.map fun a =>
      if probeId = some a.id ∧ a.state = .pending then
        { a with state := .expired, finishedAt := some now, errorCode := "probe_lease_expired" }
      else a }

-- The settled attempts of a generation that the error rate is computed from.
def samples (db : Database) (providerId : String) (generation : ℕ) (since : ℚ) : List Attempt :=
  db.attempts.filter fun a =>
    a.providerId = providerId ∧ a.generation = generation ∧
    (∃ t ∈ a.finishedAt, since ≤ t) ∧ (a.state = .success ∨ a.state = .failure)

end Database

def events (samples : List Attempt) : ℕ := samples.length

def errors (samples : List Attempt) : ℕ := samples.countP (·.state = .failure)

-- `attempt_id or str(uuid.uuid4())`
def permitId (attemptId : Option String) (uuid : String) : String :=
  match attemptId with
  | some id => if id = "" then uuid else id
  | none    => uuid

-- An attempt that is asked for again keeps its permit while it is pending in the current
-- generation and, for a probe, holds the unexpired lease. Nothing is committed.
def reacquire (db : Database) (now : ℚ) (providerId : String) (state : Circuit) (prior : Attempt) :
    Except Error (Permit × Database) :=
  if prior.providerId ≠ providerId then .error .attemptIdentityConflict else
  let currentProbe : Bool :=
    !prior.isProbe ∨ (state.probeId = some prior.id ∧ now < state.probeExpires)
  if prior.state ≠ .pending ∨ prior.generation ≠ state.generation ∨ !currentProbe then
    .error (.circuitOpen 0 .attemptNotCurrent)
  else
    .ok (⟨prior.id, providerId, prior.generation, prior.isProbe⟩, db)

-- A new attempt. Every attempt admitted while the circuit is not closed is a probe: it opens a new
-- generation and takes the lease, and the probe it replaces expires.
def grant
    (db : Database) (now : ℚ) (providerId : String) (state : Circuit) (governance : Governance)
    (permitId : String) : Permit × Database :=
  let probe : Bool := state.state ≠ .closed
  let generation := state.generation + (if probe then 1 else 0)
  let written := if probe then
      (db.expireProbe state.probeId now).setCircuit providerId
        { state with
          state := .halfOpen
          generation := generation
          probeId := some permitId
          probeExpiresAt := some (now + governance.leaseSeconds)
          updatedAt := now }
    else db
  (⟨permitId, providerId, generation, probe⟩, written.insertAttempt
    { id := permitId, providerId, generation, isProbe := probe, state := .pending,
      createdAt := now, finishedAt := none, errorCode := none })

-- Every refusal happens before `commit`: closing the connection drops what the transaction wrote,
-- so the database stays the one before the call.
def acquire
    (db : Database) (now : ℚ) (providerId : String) (governance : Governance)
    (attemptId : Option String) (uuid : String) (explicitProbe : Bool) :
    Except Error (Permit × Database) :=
  if Python.isBlank providerId.toList then .error .providerRequired else
  let ensured := db.ensureCircuit providerId now
  match ensured.circuits providerId with
  | none => .error .noCircuit
  | some state =>
    match db.attempt? (permitId attemptId uuid) with
    | some prior => reacquire db now providerId state prior
    | none =>
      let view := view state now
      if !view.circuitAllowsAttempt && (!explicitProbe || view.probeInFlight) then
        .error (.circuitOpen view.retryAfterSeconds view.circuitReason)
      else .ok (grant ensured now providerId state governance (permitId attemptId uuid))

def neutralErrors : List String :=
  ["content_policy_block", "context_window_overflow", "invalid_request",
   "capability_mismatch", "model_capability_unavailable", "provider_circuit_open",
   "structured_output_invalid", "model_output_incomplete", "response_contract_violation"]

-- An attempt may settle the circuit while its generation is current: a regular one while the
-- circuit is closed, a probe while it holds the unexpired lease.
def isCurrent (state : Circuit) (call : Attempt) (now : ℚ) : Bool :=
  state.generation = call.generation ∧
  ((!call.isProbe ∧ state.state = .closed) ∨
   (call.isProbe ∧ state.probeId = some call.id ∧ now < state.probeExpires))

-- The circuit after the settlement of its current probe. Only a failure starts a new cooldown;
-- a neutral or released probe leaves the one that was running.
def Circuit.settleProbe (state : Circuit) (outcome : Outcome) (now cooldown : ℚ) : Circuit where
  state := if outcome = .success then .closed else .opened
  generation := state.generation + 1
  openUntil := if outcome = .success then none
    else if outcome = .failure then some (now + cooldown)
    else some (max now state.opensAt)
  probeId := none
  probeExpiresAt := none
  updatedAt := now

def Circuit.trip (state : Circuit) (now cooldown : ℚ) : Circuit where
  state := .opened
  generation := state.generation + 1
  openUntil := some (now + cooldown)
  probeId := none
  probeExpiresAt := none
  updatedAt := now

def Governance.trips (g : Governance) (samples : List Attempt) : Bool :=
  g.minimumSamples ≤ events samples ∧ g.rate ≤ errors samples / events samples

def settle
    (db : Database) (now : ℚ) (permit : Permit) (outcome : Outcome) (governance : Governance)
    (errorCode : Option String) : Except Error (Bool × Database) :=
  match db.attempt? permit.permitId with
  | none => .error .permitMismatch
  | some call =>
    if call.providerId ≠ permit.providerId ∨ call.generation ≠ permit.generation then
      .error .permitMismatch
    else if call.state ≠ .pending then .ok (false, db) else
    match db.circuits call.providerId with
    | none => .error .noCircuit
    | some state =>
      let current := isCurrent state call now
      let settled := db.settleAttempt call.id (if current then outcome.state else .stale) now errorCode
      if !current then .ok (false, settled)
      else if call.isProbe then
        .ok (true, settled.setCircuit call.providerId
          (state.settleProbe outcome now governance.cooldown))
      else if outcome = .failure ∧ governance.trips
          (settled.samples call.providerId call.generation (now - governance.windowSeconds)) then
        .ok (true, settled.setCircuit call.providerId (state.trip now governance.cooldown))
      else .ok (true, settled)

def finishOutcome (success : Bool) (errorCode : Option String) : Outcome :=
  if success then .success
  else if ∃ code ∈ errorCode, code ∈ neutralErrors then .neutral else .failure

def finish
    (db : Database) (now : ℚ) (permit : Permit) (success : Bool) (governance : Governance)
    (errorCode : Option String) : Except Error (Bool × Database) :=
  settle db now permit (finishOutcome success errorCode) governance errorCode

def release (db : Database) (now : ℚ) (permit : Permit) (reason : Option String) :
    Except Error (Bool × Database) :=
  settle db now permit .released {} reason

end ProviderCircuit
