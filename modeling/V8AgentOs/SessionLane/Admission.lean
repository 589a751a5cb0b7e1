import V8AgentOs.Python.Dict
import V8AgentOs.Python.Text

-- erc/session_lane_scheduler.py: who holds the lane of a session.
namespace SessionLane

open Python (Text strip)

-- `SessionLaneDecision`
structure Decision where
  acquired         : Bool
  policy           : String
  waited           : Bool := false
  activeRunId      : Option String := none
  rejectedByRunId  : Option String := none
  interruptedRunId : Option String := none

-- `_active_runs.get(session_id)`
abbrev Lane := Option String

-- `value or default`
def orElse (value default : String) : String :=
  if value = "" then default else value

def normalizedPolicy (text : Text) (policy : String) : String :=
  orElse (text.lower (strip (orElse policy "queue"))) "queue"

-- The run that is interrupted to make room
def interrupts (policy active runId : String) : Option String :=
  if policy = "interrupt_then_replace" ∧ active ≠ runId then some active else none

def tryAcquire (text : Text) (lane : Lane) (runId policy : String) : Decision × Lane :=
  let policy := normalizedPolicy text policy
  match lane with
  | none        => ({ acquired := true, policy }, some runId)
  | some active =>
    if policy = "reject" then
      ({ acquired := false, policy, activeRunId := some active, rejectedByRunId := some active }, lane)
    else
      ({ acquired := false, policy, waited := true, activeRunId := some active,
         interruptedRunId := interrupts policy active runId }, lane)

-- The loop of `acquire`: where `try_acquire` would return with `waited`, it waits until the lane is free.
def awake (d : Decision) (lane : Lane) (runId : String) : Option (Decision × Lane) :=
  match lane with
  | none   => some ({ d with acquired := true }, some runId)
  | some _ => none

def release (lane : Lane) (runId : String) : Lane :=
  if lane = some runId then none else lane

variable {text : Text} {lane : Lane} {runId policy : String}

-- A run that acquires the lane holds it, and the others see who does.
theorem lane_of_tryAcquire : (tryAcquire text lane runId policy).2 =
    if (tryAcquire text lane runId policy).1.acquired then some runId
    else (tryAcquire text lane runId policy).1.activeRunId := by
  unfold tryAcquire
  cases lane
  case none => rfl
  case some active =>
    simp only
    split
    case isTrue  => rfl
    case isFalse => rfl

end SessionLane

-- erc/session_admission_service.py: the record that the database keeps of the lane of a session.
namespace SessionLane

open Python (Dict Text strip)

-- A row of `session_lane_records`, and the `SessionLaneView` of it
structure Record where
  state            : String := "idle"
  policy           : String := "queue"
  activeRunId      : Option String := none
  queuedRunId      : Option String := none
  blockedByRunId   : Option String := none
  lastTransition   : Option String := none
  lastTransitionTs : Option String := none
  metadata         : Dict := []

-- A row of the history of a lane
structure Entry where
  runId            : String
  action           : String
  policy           : String
  activeRunId      : Option String
  interruptedRunId : Option String
  metadata         : Dict

-- `bool(value)` and `value or other`
def given (value : Option String) : Bool :=
  value.getD "" ≠ ""

def orOther (value other : Option String) : Option String :=
  if given value then value else other

-- `_current_view`
def currentView : Option Record → Record
  | none     => {}
  | some row => { row with state := orElse row.state "idle", policy := orElse row.policy "queue" }

def stateToTransition (text : Text) (state : String) (current : Record) (policy : String)
    (interruptedRunId : Option String) : String :=
  let state := orElse (text.lower (strip (orElse state "idle"))) "idle"
  if state = "active" then
    if given interruptedRunId ∧ text.lower (strip policy) = "interrupt_then_replace" then "replaced" else "acquired"
  else if state = "idle" ∧ (given current.activeRunId ∨ given current.queuedRunId ∨ given current.blockedByRunId) then
    "released"
  else state

-- The arguments of `_persist_decision`
structure Persist where
  runId            : String
  runtimeKind      : String
  policy           : String
  action           : String
  activeRunId      : Option String
  queuedRunId      : Option String
  blockedByRunId   : Option String
  interruptedRunId : Option String := none
  metadata         : Dict

namespace Persist

variable (text : Text) (p : Persist) (current : Record) (now : String)

-- The row that is written
def row : Record where
  state            := p.action
  policy           := p.policy
  activeRunId      := p.activeRunId
  queuedRunId      := p.queuedRunId
  blockedByRunId   := p.blockedByRunId
  lastTransition   := some (stateToTransition text p.action current p.policy p.interruptedRunId)
  lastTransitionTs := some now
  metadata         := (current.metadata.merge p.metadata).set "runtimeKind" (.str p.runtimeKind)

def changed : Bool :=
  current.state ≠ p.action || current.policy ≠ p.policy || current.activeRunId ≠ p.activeRunId ||
    current.queuedRunId ≠ p.queuedRunId || current.blockedByRunId ≠ p.blockedByRunId

def entry : Entry where
  runId            := p.runId
  action           := stateToTransition text p.action current p.policy p.interruptedRunId
  policy           := p.policy
  activeRunId      := orOther p.activeRunId p.blockedByRunId
  interruptedRunId := p.interruptedRunId
  metadata         := (p.row text current now).metadata

end Persist

structure Admission where
  runId       : String
  policy      : String
  runtimeKind : String
  metadata    : Dict := []

structure Release where
  runId       : String
  policy      : Option String := none
  runtimeKind : Option String := none
  metadata    : Dict := []

namespace Admission

variable (a : Admission) (d : Decision)

def normalizedPolicy : String :=
  orElse d.policy (orElse a.policy "queue")

-- What a run that waits for the lane has the record say
def queued : Persist where
  runId            := a.runId
  runtimeKind      := a.runtimeKind
  policy           := a.normalizedPolicy d
  action           := "queued"
  activeRunId      := d.activeRunId
  queuedRunId      := some a.runId
  blockedByRunId   := d.activeRunId
  interruptedRunId := d.interruptedRunId
  metadata         := a.metadata

-- What `try_acquire` persists
def tried : Persist :=
  if d.acquired then
    { runId := a.runId, runtimeKind := a.runtimeKind, policy := a.normalizedPolicy d, action := "active",
      activeRunId := some a.runId, queuedRunId := none, blockedByRunId := none,
      interruptedRunId := d.interruptedRunId, metadata := a.metadata }
  else if d.waited then a.queued d
  else
    { runId := a.runId, runtimeKind := a.runtimeKind, policy := a.normalizedPolicy d, action := "rejected",
      activeRunId := d.activeRunId, queuedRunId := none, blockedByRunId := orOther d.rejectedByRunId d.activeRunId,
      interruptedRunId := d.interruptedRunId, metadata := a.metadata }

-- The last of what `acquire` persists
def settled : Persist where
  runId            := a.runId
  runtimeKind      := a.runtimeKind
  policy           := a.normalizedPolicy d
  action           := if d.acquired then "active" else "rejected"
  activeRunId      := if d.acquired then some a.runId else d.activeRunId
  queuedRunId      := if d.acquired then none else some a.runId
  blockedByRunId   := if d.acquired then none else orOther d.rejectedByRunId d.activeRunId
  interruptedRunId := d.interruptedRunId
  metadata         := a.metadata.set "waited" (.bool d.waited)

-- What `acquire` persists
def acquired : List Persist :=
  if d.acquired && d.waited then [a.queued d, a.settled d] else [a.settled d]

end Admission

-- Whether `release` takes the record for one of the run
def Record.names (record : Record) (runId : String) : Bool :=
  record.activeRunId = some runId || record.queuedRunId = some runId

-- `str(value or other or default)`
def textOr (value : Option String) (other default : String) : String :=
  orElse (value.getD "") (orElse other default)

-- What `release` persists
def Release.released (text : Text) (r : Release) (current : Record) : Persist where
  runId          := r.runId
  runtimeKind    := textOr r.runtimeKind (text.orEmpty (current.metadata.get "runtimeKind")) "unknown"
  policy         := textOr r.policy current.policy "queue"
  action         := "idle"
  activeRunId    := none
  queuedRunId    := none
  blockedByRunId := none
  metadata       := r.metadata

-- A call in progress: it waits for the lane, it has released it, or it is somewhere in `_persist_decision`, of which
-- there are some left.
inductive Call
  | waiting (a : Admission) (d : Decision)
  | releasing (r : Release)
  | reading (p : Persist) (rest : List Persist)
  | writing (p : Persist) (current : Record) (now : String) (rest : List Persist)
  | appending (entry : Entry) (rest : List Persist)

-- The call with this left to persist
def Call.resume : List Persist → Option Call
  | []        => none
  | p :: rest => some (.reading p rest)

-- One session. `found` remembers who held the lane right after the decision of each call.
structure State where
  lane    : Lane
  record  : Option Record
  history : List Entry
  calls   : ℕ → Option Call
  found   : ℕ → Lane

inductive Action
  | tryAcquire (pid : ℕ) (a : Admission)
  | acquire (pid : ℕ) (a : Admission)
  | release (pid : ℕ) (r : Release)
  | proceed (pid : ℕ) (now : String)

namespace State

variable (s : State) (text : Text)

-- A call has decided on the lane.
def decide (pid : ℕ) (lane : Lane) (call : Option Call) : State :=
  { s with lane, calls := Function.update s.calls pid call, found := Function.update s.found pid lane }

def setCall (pid : ℕ) (call : Option Call) : State :=
  { s with calls := Function.update s.calls pid call }

-- The next step of a call
def proceed (pid : ℕ) (now : String) : Call → Option State
  | .waiting a d => (awake d s.lane a.runId).map fun r => s.decide pid r.2 (Call.resume (a.acquired r.1))
  | .releasing r =>
    let current := currentView s.record
    some (s.setCall pid (if current.names r.runId then some (.reading (r.released text current) []) else none))
  | .reading p rest => some (s.setCall pid (some (.writing p (currentView s.record) now rest)))
  | .writing p current now rest =>
    let next := if p.changed current then some (.appending (p.entry text current now) rest) else Call.resume rest
    some { s.setCall pid next with record := some (p.row text current now) }
  | .appending entry rest => some { s.setCall pid (Call.resume rest) with history := s.history ++ [entry] }

-- A call starts with its decision on the lane.
def start (pid : ℕ) (s' : State) : Option State :=
  match s.calls pid with
  | none   => some s'
  | some _ => none

def step : Action → Option State
  | .tryAcquire pid a =>
    let r := SessionLane.tryAcquire text s.lane a.runId a.policy
    s.start pid (s.decide pid r.2 (Call.resume [a.tried r.1]))
  | .acquire pid a =>
    let r := SessionLane.tryAcquire text s.lane a.runId a.policy
    s.start pid (s.decide pid r.2 (if r.1.waited then some (.waiting a r.1) else Call.resume (a.acquired r.1)))
  | .release pid r => s.start pid (s.decide pid (SessionLane.release s.lane r.runId) (some (.releasing r)))
  | .proceed pid now => (s.calls pid).bind (s.proceed text pid now)

end State
end SessionLane
