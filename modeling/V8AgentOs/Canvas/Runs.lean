import V8AgentOs.Canvas.History
import V8AgentOs.Lib.Table

-- core/creative_canvas_graph.py and core/database.py: the runs of canvas graphs, and the intents of their events.
namespace Canvas

open Python (Dict Json Text strip)

inductive Status
  | queued
  | running
  | cancelling
  | succeeded
  | failed
  | interrupted
  | cancelled
  deriving DecidableEq

namespace Status

def text : Status → String
  | queued      => "queued"
  | running     => "running"
  | cancelling  => "cancelling"
  | succeeded   => "succeeded"
  | failed      => "failed"
  | interrupted => "interrupted"
  | cancelled   => "cancelled"

-- `GRAPH_RUN_PUBLIC_STATUS_BY_INTERNAL`
def publicText : Status → String
  | succeeded => "completed"
  | status    => status.text

-- `ACTIVE_GRAPH_STATES` and `RETRYABLE_GRAPH_STATES`
def active (status : Status) : Bool :=
  [queued, running, cancelling].contains status

def retryable (status : Status) : Bool :=
  [failed, interrupted].contains status

end Status

-- The columns of `creative_canvas_graph_runs` that an intent keeps
structure RunRow where
  graphRunId        : String
  graphId           : String
  sessionId         : String
  chatRunId         : Option String
  canvasOperationId : String
  nodeStates        : Dict
  status            : Status
  currentNodeId     : Option String
  errorMessage      : Option String
  createdAt         : String
  updatedAt         : String
  completedAt       : Option String
  deriving DecidableEq

structure GraphRun extends RunRow where
  graphRevision : ℕ
  deriving DecidableEq

-- `transition`
inductive Shift
  | none
  | retryFailedBranch
  | remoteTerminalReconciled
  deriving DecidableEq

def Shift.text : Shift → String
  | none                     => ""
  | retryFailedBranch        => "retry_failed_branch"
  | remoteTerminalReconciled => "remote_terminal_reconciled"

-- A row of `creative_canvas_graph_run_event_outbox`
structure Intent where
  outboxId          : String
  eventId           : String
  graphRunId        : String
  sessionId         : String
  expectedStatus    : Status
  expectedUpdatedAt : String
  transition        : Shift
  retryOf           : Option String
  runRow            : RunRow
  attemptCount      : ℕ := 0
  nextAttemptAt     : Option ℕ := none
  runtimeEventId    : Option String := none
  projectedAt       : Option String := none

-- What `emit` hands over, and `runtime_events`
structure Emitted where
  eventId   : String
  sessionId : String
  runId     : Option String
  kind      : String
  topic     : String
  ts        : String
  source    : Json
  payload   : Dict

structure RuntimeEvent extends Emitted where
  seq : ℕ

-- A row of `creative_canvas_graph_remote_terminal_receipts`
structure Receipt where
  jobId       : String
  proofDigest : String
  sessionId   : String
  graphRunId  : String
  nodeId      : String
  deriving DecidableEq

-- The intents stand in the order of their sequence numbers. The sequence heads of the runtime events come with those
-- of the snapshots.
structure Database where
  stores        : String → Store
  runs          : Table fun run : GraphRun => run.graphRunId
  outbox        : List Intent
  events        : List RuntimeEvent
  sequenceHeads : String → ℕ
  receipts      : List Receipt

def Database.empty : Database where
  stores _        := .empty
  runs            := .empty
  outbox          := []
  events          := []
  sequenceHeads _ := 0
  receipts        := []

-- What a transaction meets: the time, whether the workspace of the session is bound and writable, and what
-- `uuid.uuid4()` gives to each intent for its id and its event.
structure Moment where
  now        : String
  authorized : Bool
  ids        : ℕ → String × String

-- What makes the identity of an intent
def Intent.isFor (i : Intent) (row : RunRow) (transition : Shift) : Bool :=
  i.graphRunId = row.graphRunId && i.expectedStatus = row.status && i.expectedUpdatedAt = row.updatedAt &&
    i.transition = transition

-- The intent that `enqueue_canvas_graph_run_event_outbox` writes
def RunRow.intent (row : RunRow) (ids : String × String) (transition : Shift) (retryOf : Option String) : Intent where
  outboxId          := ids.1
  eventId           := ids.2
  graphRunId        := row.graphRunId
  sessionId         := row.sessionId
  expectedStatus    := row.status
  expectedUpdatedAt := row.updatedAt
  transition        := transition
  retryOf           := retryOf
  runRow            := row

namespace Database

-- Writes a run over the one with its id.
def putRun (db : Database) (run : GraphRun) : Database :=
  { db with runs := db.runs.update (·.graphRunId = run.graphRunId) fun old =>
      { run with graphRunId := old.graphRunId } }

-- `enqueue_canvas_graph_run_event_outbox`. Ids come without blanks around them.
def enqueue (db : Database) (ids : String × String) (row : RunRow) (transition : Shift) (retryOf : Option String) :
    Option Database := do
  let committed ← db.runs.get? row.graphRunId
  if row.graphRunId = "" ∨ row.sessionId = "" ∨ row.updatedAt = "" then none
  else if committed.sessionId ≠ row.sessionId ∨ committed.status ≠ row.status ∨
      committed.updatedAt ≠ row.updatedAt then none
  else match db.outbox.find? (·.isFor row transition) with
    | some existing => if existing.runRow = row ∧ existing.retryOf = retryOf then some db else none
    | none          =>
      -- Both ids have to be unique.
      if db.outbox.any fun i => i.outboxId = ids.1 || i.eventId = ids.2 then none
      else some { db with outbox := db.outbox ++ [row.intent ids transition retryOf] }

-- A run of the session
def runOf (db : Database) (sessionId graphRunId : String) : Option GraphRun :=
  (db.runs.get? graphRunId).filter (·.sessionId = sessionId)

def activeRun (db : Database) (sessionId : String) : Bool :=
  db.runs.any fun run => run.sessionId = sessionId && run.status.active

-- The graph of the session, if it is this one
def graphOf (db : Database) (sessionId graphId : String) : Option Graph :=
  (db.stores sessionId).graph.filter (·.graphId = graphId)

-- Another graph of the session
def putStore (db : Database) (sessionId : String) (store : Store) : Database :=
  { db with stores := Function.update db.stores sessionId store }

end Database

-- An action of a plan
structure PlanEntry where
  actionNodeId          : String
  configurationRevision : Json

def queuedStates (actions : List PlanEntry) : Dict :=
  actions.foldl (fun states entry => states.set entry.actionNodeId (.dict [("state", .str "queued"),
    ("attempt", .int 0), ("configurationRevision", Python.orElse entry.configurationRevision (.int 1))])) []

-- A request to execute a graph
structure Execution where
  sessionId         : String
  graphId           : String
  graphRevision     : ℕ
  canvasOperationId : String
  chatRunId         : Option String
  -- The id asked for, or a new one
  graphRunId        : String
  retryGraphRunId   : Option String

-- The new run
def Execution.run (request : Execution) (now : String) (actions : List PlanEntry) : GraphRun where
  graphRunId        := request.graphRunId
  graphId           := request.graphId
  sessionId         := request.sessionId
  chatRunId         := request.chatRunId
  canvasOperationId := request.canvasOperationId
  nodeStates        := queuedStates actions
  status            := .queued
  currentNodeId     := none
  errorMessage      := none
  createdAt         := now
  updatedAt         := now
  completedAt       := none
  graphRevision     := request.graphRevision

-- The first transaction of `execute_as_creative_job`. An operation that has a run goes on with it.
def admitRun (m : Moment) (request : Execution) (actions : List PlanEntry) (db : Database) : Option Database := do
  let graph ← db.graphOf request.sessionId request.graphId
  if !m.authorized ∨ graph.revision ≠ request.graphRevision then none
  else match db.runs.rows.find? fun run =>
      run.sessionId = request.sessionId && run.canvasOperationId = request.canvasOperationId with
    | some existing =>
      if existing.graphRevision ≠ request.graphRevision ∨
          request.retryGraphRunId.any fun retry => existing.graphRunId ≠ retry || existing.status ≠ .running then none
      else some db
    | none          =>
      if request.retryGraphRunId.isSome ∨ db.activeRun request.sessionId then none
      else do
        let run := request.run m.now actions
        let runs ← db.runs.insert? run
        { db with runs }.enqueue (m.ids 0) run.toRunRow .none none

-- `"" or None`
def textOrNone (s : String) : Option String :=
  if s = "" then none else some s

-- What `_write_run_state` writes
structure StateWrite where
  graphRunId    : String
  status        : Status
  nodeStates    : Dict
  currentNodeId : String := ""
  error         : String := ""
  completed     : Bool := false
  expected      : List Status

def StateWrite.over (w : StateWrite) (now : String) (run : GraphRun) : GraphRun :=
  { run with
    status        := w.status
    nodeStates    := w.nodeStates
    currentNodeId := textOrNone w.currentNodeId
    errorMessage  := textOrNone w.error
    updatedAt     := now
    completedAt   := if w.completed then some now else if w.status.active then none else run.completedAt }

-- `_write_run_state`, which every caller gives the expected statuses and no transition
def writeRunState (m : Moment) (w : StateWrite) (db : Database) : Option Database := do
  let run ← db.runs.get? w.graphRunId
  if !w.expected.contains run.status then none
  else
    let next := w.over m.now run
    if run.status.publicText = w.status.publicText then some (db.putRun next)
    else (db.putRun next).enqueue (m.ids 0) next.toRunRow .none none

-- What `execute_as_creative_job` writes after its first transaction
inductive ExecutorWrite
  | start (nodeStates : Dict)
  | progress (nodeStates : Dict) (currentNodeId : String)
  | succeed (nodeStates : Dict)
  | cancel (nodeStates : Dict) (currentNodeId error : String)
  | fail (nodeStates : Dict) (currentNodeId error : String)

def ExecutorWrite.write (graphRunId : String) : ExecutorWrite → StateWrite
  | start nodeStates                      =>
    { graphRunId, nodeStates, status := .running, expected := [.queued] }
  | progress nodeStates currentNodeId     =>
    { graphRunId, nodeStates, currentNodeId, status := .running, expected := [.running] }
  | succeed nodeStates                    =>
    { graphRunId, nodeStates, status := .succeeded, completed := true, expected := [.running] }
  | cancel nodeStates currentNodeId error =>
    { graphRunId, nodeStates, currentNodeId, error, status := .cancelled, completed := true,
      expected := [.queued, .running, .cancelling] }
  | fail nodeStates currentNodeId error   =>
    { graphRunId, nodeStates, currentNodeId, error, status := .failed, completed := true, expected := [.running] }

section Cancellation

-- The states with another state of the current node
def setState (run : GraphRun) (update : Dict → Dict) : Dict :=
  match run.currentNodeId with
  | none | some "" => run.nodeStates
  | some nodeId    => run.nodeStates.set nodeId (.dict (update (recordOf (run.nodeStates.get nodeId))))

def GraphRun.cancelling (run : GraphRun) (now reason : String) : GraphRun :=
  { run with
    status        := .cancelling
    nodeStates    := setState run fun state => state.merge [("state", .str "cancelling"),
      ("errorCode", .str (if reason = "" then "user_cancelled" else reason)),
      ("error", .str "Canvas graph run cancellation was requested"), ("cancelRequestedAt", .str now),
      ("recoverable", .bool false)]
    currentNodeId := run.currentNodeId.filter (· ≠ "")
    errorMessage  := some "Canvas graph run cancellation was requested"
    updatedAt     := now
    completedAt   := none }

-- `_claim_run_cancellation`
def claimRunCancellation (m : Moment) (sessionId graphRunId reason : String) (db : Database) : Option Database := do
  let run ← db.runOf sessionId graphRunId
  if !m.authorized then none
  else if [Status.cancelling, .cancelled].contains run.status then some db
  else if !([Status.queued, .running].contains run.status) then none
  else
    let next := run.cancelling m.now reason
    (db.putRun next).enqueue (m.ids 0) next.toRunRow .none none

def GraphRun.cancelled (text : Text) (run : GraphRun) (now reason : String) (lifecycle : Dict) : GraphRun :=
  { run with
    status        := .cancelled
    nodeStates    := setState run fun state =>
      let stored := text.str (Python.orElse (state.get "errorCode") (.str "user_cancelled"))
      let code := if reason = "" then stored else reason
      state.merge (lifecycle.merge [("state", .str "cancelled"), ("errorCode", .str code),
        ("error", .str "Canvas graph run was cancelled"), ("recoverable", .bool false), ("completedAt", .str now)])
    currentNodeId := run.currentNodeId.filter (· ≠ "")
    errorMessage  := some "Canvas graph run was cancelled"
    updatedAt     := now
    completedAt   := some now }

-- `_finish_run_cancellation`
def finishRunCancellation (text : Text) (m : Moment) (sessionId graphRunId reason : String) (lifecycle : Dict)
    (db : Database) : Option Database := do
  let run ← db.runOf sessionId graphRunId
  if !([Status.cancelling, .cancelled].contains run.status) then none
  else
    let next := run.cancelled text m.now reason lifecycle
    if run.status.publicText = "cancelled" then some (db.putRun next)
    else (db.putRun next).enqueue (m.ids 0) next.toRunRow .none none

end Cancellation

section Retry

-- `_retry_state`
def retryState (text : Text) (run : RunRow) : Dict :=
  let current := match run.currentNodeId with
    | none | some "" => []
    | some nodeId    => recordOf (run.nodeStates.get nodeId)
  if current ≠ [] then current
  else ((run.nodeStates.map fun m => recordOf m.2).find? fun state =>
    (state.get "providerCancellationRemoteTaskMayContinue").truthy ||
      ["failed", "interrupted"].contains (text.lowered (state.get "state"))).getD []

def mayContinue (state : Dict) : Bool :=
  (state.get "providerCancellationRemoteTaskMayContinue").truthy

def retryBlocked (state : Dict) : Bool :=
  state.get "recoverable" = .bool false || mayContinue state

def GraphRun.retried (run : GraphRun) (now : String) : GraphRun :=
  { run with status := .running, errorMessage := none, completedAt := none, updatedAt := now }

-- `claim_failed_retry`
def claimFailedRetry (text : Text) (m : Moment) (sessionId graphRunId : String) (db : Database) : Option Database := do
  let run ← db.runOf sessionId graphRunId
  let graph ← db.graphOf sessionId run.graphId
  if !m.authorized ∨ !run.status.retryable ∨ graph.revision ≠ run.graphRevision ∨
      retryBlocked (retryState text run.toRunRow) then none
  else
    let next := run.retried m.now
    (db.putRun next).enqueue (m.ids 0) next.toRunRow .retryFailedBranch (some graphRunId)

end Retry

section Reconciliation

def hasProviderHandle (text : Text) (state : Dict) : Bool :=
  text.stripped (state.get "jobId") ≠ "" || text.stripped (state.get "providerTaskId") ≠ "" ||
    recordOf (state.get "providerHandle") ≠ []

-- The state in which a node was, if it was active
def activeNode (text : Text) (v : Json) : Option String :=
  (some (text.str (Python.orElse ((recordOf v).get "state") (.str "queued")))).filter fun prior =>
    ["queued", "running", "cancelling"].contains prior

def interruptNode (text : Text) (now : String) (v : Json) : Json :=
  match activeNode text v with
  | none       => v
  | some prior =>
    let state := recordOf v
    let handle := hasProviderHandle text state
    .dict (state.merge ([("state", .str "interrupted"), ("priorState", .str prior), ("recoverable", .bool !handle),
      ("errorCode", .str (if handle then "engine_restart_provider_task_unknown" else "engine_restart_interrupted")),
      ("error", .str (if handle
        then "Engine restarted with an unverified Provider task handle; reconcile it before retry"
        else "Engine restarted before the Canvas action reached a terminal state")),
      ("interruptedAt", .str now)] ++
        if handle then [("providerCancellationRemoteTaskMayContinue", .bool true)] else []))

def GraphRun.interrupted (text : Text) (now : String) (run : GraphRun) : GraphRun :=
  { run with
    status        := .interrupted
    nodeStates    := run.nodeStates.map fun m => (m.1, interruptNode text now m.2)
    currentNodeId := none
    errorMessage  := some (if run.nodeStates.any fun m =>
        (activeNode text m.2).isSome && hasProviderHandle text (recordOf m.2)
      then "Engine restarted with an unverified Provider task; retry is blocked until lifecycle reconciliation"
      else "Engine restarted before the Canvas graph run reached a terminal state")
    updatedAt     := now
    completedAt   := some now }

-- The loop of `reconcile_startup` over the active runs
def interruptRuns (text : Text) (m : Moment) : List GraphRun → ℕ → Database → Option Database
  | [], _, db              => some db
  | run :: runs, index, db => do
    let next := run.interrupted text m.now
    interruptRuns text m runs (index + 1) (← (db.putRun next).enqueue (m.ids index) next.toRunRow .none none)

-- The transaction of `reconcile_startup`
def reconcileStartup (text : Text) (m : Moment) (db : Database) : Option Database :=
  interruptRuns text m (db.runs.rows.filter (·.status.active)) 0 db

-- A report with a verified terminal proof, as a digest and as it is shown
structure TerminalReport where
  sessionId      : String
  graphRunId     : String
  nodeId         : String
  jobId          : String
  providerStatus : String
  proofDigest    : String
  proof          : Json

def TerminalReport.receipt (report : TerminalReport) : Receipt where
  jobId       := report.jobId
  proofDigest := report.proofDigest
  sessionId   := report.sessionId
  graphRunId  := report.graphRunId
  nodeId      := report.nodeId

def cleanupFailed (text : Text) (state : Dict) : Bool :=
  text.lowered (state.get "providerCleanup") = "failed"

def GraphRun.reconciled (text : Text) (now : String) (report : TerminalReport) (run : GraphRun) : GraphRun :=
  let state := recordOf (run.nodeStates.get report.nodeId)
  { run with
    nodeStates   := run.nodeStates.set report.nodeId (.dict (state.merge
      [("providerCancellationRemoteTaskMayContinue", .bool false), ("remoteTerminalProof", report.proof),
        ("remoteTerminalProofDigest", .str report.proofDigest), ("remoteReconciledAt", .str now),
        ("remoteProviderStatus", .str report.providerStatus),
        ("recoverable", .bool (run.status.retryable && !cleanupFailed text state))]))
    errorMessage := if run.status = .interrupted && !cleanupFailed text state
      then some "The interrupted media task reached a verified terminal state and can be retried"
      else run.errorMessage.filter (· ≠ "")
    updatedAt    := now }

-- `apply_remote_terminal_reconciliation`
def applyRemoteTerminalReconciliation (text : Text) (m : Moment) (report : TerminalReport) (db : Database) :
    Option Database := do
  let run ← db.runOf report.sessionId report.graphRunId
  let _ ← db.graphOf report.sessionId run.graphId
  if !m.authorized then none
  else match db.receipts.find? fun r => r.jobId = report.jobId && r.proofDigest = report.proofDigest with
    | some receipt => if receipt = report.receipt then some db else none
    | none         =>
      let state := recordOf (run.nodeStates.get report.nodeId)
      let flag := state.get "providerCancellationRemoteTaskMayContinue"
      if !([Status.failed, .interrupted, .cancelled].contains run.status) ∨
          text.stripped (state.get "jobId") ≠ report.jobId then none
      else if flag = .bool false ∧ text.orEmpty (state.get "remoteTerminalProofDigest") = report.proofDigest
        then some db
      else if flag ≠ .bool true then none
      else
        let next := run.reconciled text m.now report
        ({ db.putRun next with receipts := db.receipts ++ [report.receipt] }).enqueue (m.ids 0) next.toRunRow
          .remoteTerminalReconciled none

end Reconciliation

-- The transactions that write graphs and runs
inductive Write
  | save (available : Dict → Bool) (commandId sessionId graphId : String) (graph : Dict) (expectedRevision : ℤ)
  | history (available : Dict → Bool) (commandId sessionId : String) (way : Way) (expectedRevision : ℤ)
  | admitted (request : Execution) (actions : List PlanEntry)
  | executor (graphRunId : String) (write : ExecutorWrite)
  | claimCancellation (sessionId graphRunId reason : String)
  | finishCancellation (sessionId graphRunId reason : String) (lifecycle : Dict)
  | claimRetry (sessionId graphRunId : String)
  | reconcile
  | applyTerminal (report : TerminalReport)

def Database.call (db : Database) (available : Dict → Bool) (commandId sessionId : String) : Call where
  active    := db.activeRun sessionId
  available := available
  commandId := commandId

-- A transaction, which may be refused and then changes nothing
def perform (r : Rules) (m : Moment) (db : Database) : Write → Option Database
  | .save available commandId sessionId graphId graph expectedRevision  =>
    if !m.authorized then none
    else (saveGraph r (db.call available commandId sessionId) graphId graph expectedRevision (db.stores sessionId)).map
      (db.putStore sessionId ·)
  | .history available commandId sessionId way expectedRevision         =>
    if !m.authorized then none
    else (applyHistory r (db.call available commandId sessionId) way expectedRevision (db.stores sessionId)).map
      (db.putStore sessionId ·)
  | .admitted request actions                                              => admitRun m request actions db
  | .executor graphRunId write                                          => writeRunState m (write.write graphRunId) db
  | .claimCancellation sessionId graphRunId reason                      =>
    claimRunCancellation m sessionId graphRunId reason db
  | .finishCancellation sessionId graphRunId reason lifecycle           =>
    finishRunCancellation r.text m sessionId graphRunId reason lifecycle db
  | .claimRetry sessionId graphRunId                                    =>
    claimFailedRetry r.text m sessionId graphRunId db
  | .reconcile                                                          => reconcileStartup r.text m db
  | .applyTerminal report                                               =>
    applyRemoteTerminalReconciliation r.text m report db

end Canvas
