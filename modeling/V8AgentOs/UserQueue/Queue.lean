import Mathlib.Data.Prod.Lex
import Mathlib.Data.String.Basic
import V8AgentOs.Lib.Table
import V8AgentOs.Lib.Transition
import V8AgentOs.Python.Dict

-- core/database.py: the user messages that wait while a run is active, with their callers in
-- api/chat_realtime_routes.py, api/platform_routes.py and runtimes/chat/runtime.py.
namespace UserQueue

open Python (Dict Json strip)

inductive MessageState
  | pending
  | promoted
  | injected
  | consumed
  | cancelled
  deriving DecidableEq

-- A row of `chat_user_message_queue`
structure Message where
  id              : String
  sessionId       : String
  runId           : Option String
  clientMessageId : Option String
  content         : String
  attachments     : List Json
  fileUrls        : List String
  request         : Dict
  state           : MessageState := .pending
  ordinal         : ℕ
  promotedAt      : Option String := none
  injectedAt      : Option String := none
  consumedAt      : Option String := none
  consumedRunId   : Option String := none
  cancelledAt     : Option String := none
  metadata        : Dict
  createdAt       : String
  updatedAt       : String

abbrev Queue := Table Message.id

-- The arguments of `add_chat_user_message_queue_item`
structure Submission where
  queueId         : String
  sessionId       : String
  runId           : Option String := none
  clientMessageId : Option String := none
  content         : String
  attachments     : List Json := []
  fileUrls        : List String := []
  request         : Dict := []
  metadata        : Dict := []

-- `str(client_message_id or "").strip() or None`
def normalizedClientMessageId (clientMessageId : Option String) : Option String :=
  let id := strip (clientMessageId.getD "")
  if id = "" then none else some id

-- `_next_chat_user_message_queue_ordinal`
def nextOrdinal (queue : Queue) (sessionId : String) : ℕ :=
  ((queue.rows.filter (·.sessionId = sessionId)).map (·.ordinal)).foldr max 0 + 1

-- The message that a submission repeats
def existing (queue : Queue) (sessionId : String) (clientMessageId : Option String) : Option Message :=
  match clientMessageId with
  | none    => none
  | some id => Rows.oldest (·.createdAt) (queue.rows.filter fun m =>
    m.sessionId = sessionId && m.clientMessageId = some id && m.state ≠ .cancelled)

def Submission.message (a : Submission) (queue : Queue) (now : String) : Message where
  id              := a.queueId
  sessionId       := a.sessionId
  runId           := a.runId
  clientMessageId := normalizedClientMessageId a.clientMessageId
  content         := a.content
  attachments     := a.attachments
  fileUrls        := a.fileUrls
  request         := a.request
  ordinal         := nextOrdinal queue a.sessionId
  metadata        := a.metadata
  createdAt       := now
  updatedAt       := now

-- `add_chat_user_message_queue_item`: the queue afterwards, unless the message is there already
def addItem (queue : Queue) (a : Submission) (now : String) : Option Queue :=
  match existing queue a.sessionId (normalizedClientMessageId a.clientMessageId) with
  | some _ => some queue
  | none   => queue.insert? (a.message queue now)

-- `get_chat_user_message_queue_item`
def getItem (queue : Queue) (queueId : String) : Option Message :=
  if strip queueId = "" then none else queue.get? (strip queueId)

-- `ORDER BY ordinal ASC, created_at ASC`
def Message.order (m : Message) : ℕ ×ₗ String :=
  toLex (m.ordinal, m.createdAt)

def pendingOf (queue : Queue) (sessionId : String) : List Message :=
  queue.rows.filter fun m => m.sessionId = sessionId && m.state = .pending

-- The `SELECT` of `claim_next_pending_chat_user_message`
def nextPending (queue : Queue) (sessionId : String) : Option Message :=
  Rows.oldest Message.order (pendingOf queue sessionId)

def Message.consume (m : Message) (runId now : String) : Message :=
  { m with state := .consumed, consumedAt := some now, consumedRunId := some runId, updatedAt := now }

-- The `UPDATE` of a claim
def consumeItem (queue : Queue) (id runId now : String) : Queue :=
  queue.update (·.id = id) (·.consume runId now)

-- The `SELECT` of `requeue_promoted_chat_user_messages_for_run`
def promotedOf (queue : Queue) (sessionId runId : String) : List Message :=
  if strip sessionId = "" ∨ strip runId = "" then []
  else (queue.rows.filter fun m => m.sessionId = strip sessionId && m.runId = some (strip runId) &&
    m.state = .promoted && m.injectedAt = none).insertionSort (·.order ≤ ·.order)

def requeueUpdates (reason now : String) : List Dict :=
  [[("requeuedReason", .str reason)], [("requeuedAt", .str now)]]

-- The message with the metadata that was read
def Message.requeue (m : Message) (read : Dict) (reason now : String) : Message :=
  { m with state := .pending, updatedAt := now, metadata := (requeueUpdates reason now).foldl Dict.merge read }

def requeueItem (queue : Queue) (r : Message) (reason now : String) : Queue :=
  queue.update (·.id = r.id) (·.requeue r.metadata reason now)

def requeueItems (queue : Queue) (rows : List Message) (reason now : String) : Queue :=
  rows.foldl (fun queue r => requeueItem queue r reason now) queue

-- What the callers of `update_chat_user_message_queue_item` change
inductive Change
  | edit (content : String)
  | cancel
  | promote
  | promoteFor (source : String)
  | inject
  | annotate (updates : Dict)

-- The states in which the caller, which has read the item before, lets it be changed
def Change.allows : Change → MessageState → Bool
  | edit _, state       => state = .pending
  | cancel, state       => state = .pending || state = .promoted
  | promote, state      => state = .pending
  | promoteFor _, _     => true
  | inject, _           => true
  | annotate _, _       => true

def Change.state : Change → Option MessageState
  | edit _       => none
  | cancel       => some .cancelled
  | promote      => some .promoted
  | promoteFor _ => some .promoted
  | inject       => some .injected
  | annotate _   => none

-- `metadata_updates`
def Change.updates : Change → Dict
  | promoteFor source => [("promotedBy", .str ("mcp_app." ++ source))]
  | annotate updates  => updates
  | _                 => []

-- The `UPDATE` of `update_chat_user_message_queue_item`, with the metadata that was read
def Message.change (m : Message) (change : Change) (read : Dict) (now : String) : Message :=
  { m with
    updatedAt   := now
    metadata    := read.merge change.updates
    content     := match change with
      | .edit content => content
      | _             => m.content
    state       := change.state.getD m.state
    promotedAt  := if change.state = some .promoted then some now else m.promotedAt
    injectedAt  := if change.state = some .injected then some now else m.injectedAt
    cancelledAt := if change.state = some .cancelled then some now else m.cancelledAt }

def changeItem (queue : Queue) (queueId : String) (change : Change) (read : Dict) (now : String) : Queue :=
  queue.update (·.id = queueId) (·.change change read now)

-- A call that has read what it is going to write, or whose caller has read the item
inductive Call
  | claiming (row : Message) (runId now : String)
  | requeuing (rows : List Message) (reason now : String)
  | checked (queueId : String) (change : Change)
  | updating (queueId : String) (change : Change) (existing : Message) (now : String)

structure State where
  queue : Queue
  calls : ℕ → Option Call

inductive Action
  | add (a : Submission) (now : String)
  | claim (pid : ℕ) (sessionId runId now : String)
  | take (pid : ℕ)
  | requeue (pid : ℕ) (sessionId runId reason now : String)
  | putBack (pid : ℕ)
  | check (pid : ℕ) (queueId : String) (change : Change)
  | read (pid : ℕ) (now : String)
  | write (pid : ℕ)
  | crash (pid : ℕ)

-- An action with the message that it hands out to a run, and the metadata that it writes
structure Event where
  action : Action
  handed : Option (String × String)
  writes : List (String × Dict)

namespace State

variable (s : State)

def setCall (pid : ℕ) (call : Option Call) : State :=
  { s with calls := Function.update s.calls pid call }

def take (pid : ℕ) : Call → Option State
  | .claiming row runId now => some { s.setCall pid none with queue := consumeItem s.queue row.id runId now }
  | _ => none

def putBack (pid : ℕ) : Call → Option State
  | .requeuing rows reason now => some { s.setCall pid none with queue := requeueItems s.queue rows reason now }
  | _ => none

def read (pid : ℕ) (now : String) : Call → Option State
  | .checked queueId change => some (s.setCall pid ((getItem s.queue queueId).map fun existing =>
    .updating queueId change existing now))
  | _ => none

def write (pid : ℕ) : Call → Option State
  | .updating queueId change existing now => some { s.setCall pid none with
    queue := changeItem s.queue queueId change existing.metadata now }
  | _ => none

-- A call begins with a statement that reads.
def start (pid : ℕ) (call : Option Call) : Option State :=
  match s.calls pid with
  | none   => some (s.setCall pid call)
  | some _ => none

def step : Action → Option State
  | .add a now                              => (addItem s.queue a now).map fun queue => { s with queue }
  | .claim pid sessionId runId now          => s.start pid ((nextPending s.queue sessionId).map fun row =>
    .claiming row runId now)
  | .take pid                               => (s.calls pid).bind (s.take pid)
  | .requeue pid sessionId runId reason now => s.start pid (if promotedOf s.queue sessionId runId = [] then none
    else some (.requeuing (promotedOf s.queue sessionId runId) reason now))
  | .putBack pid                            => (s.calls pid).bind (s.putBack pid)
  | .check pid queueId change               => s.start pid
    (if (getItem s.queue queueId).any fun m => change.allows m.state then some (.checked queueId change) else none)
  | .read pid now                           => (s.calls pid).bind (s.read pid now)
  | .write pid                              => (s.calls pid).bind (s.write pid)
  | .crash pid                              => some (s.setCall pid none)

def handed : Action → Option (String × String)
  | .take pid => match s.calls pid with
    | some (.claiming row runId _) => some (row.id, runId)
    | _                            => none
  | _         => none

def writes : Action → List (String × Dict)
  | .add a _     => match existing s.queue a.sessionId (normalizedClientMessageId a.clientMessageId) with
    | some _ => []
    | none   => [(a.queueId, a.metadata)]
  | .putBack pid => match s.calls pid with
    | some (.requeuing rows reason now) => rows.flatMap fun r => (requeueUpdates reason now).map fun d => (r.id, d)
    | _                                 => []
  | .write pid   => match s.calls pid with
    | some (.updating queueId change _ _) =>
      if (s.queue.get? queueId).isSome then [(queueId, change.updates)] else []
    | _                                   => []
  | _            => []

end State

def system : Transition State Event where
  init s     := s.queue = .empty ∧ ∀ pid, s.calls pid = none
  step s e t := e.handed = s.handed e.action ∧ e.writes = s.writes e.action ∧ s.step e.action = some t

variable {queue : Queue} {id b runId now reason : String} {m r : Message} {change : Change} {read : Dict}

theorem get?_consumeItem : (consumeItem queue id runId now).get? b =
    (queue.get? b).map fun m => if m.id = id then m.consume runId now else m := by
  refine Table.get?_update.trans ?_
  simp only [decide_eq_true_eq]

theorem get?_requeueItem : (requeueItem queue r reason now).get? b =
    (queue.get? b).map fun m => if m.id = r.id then m.requeue r.metadata reason now else m := by
  refine Table.get?_update.trans ?_
  simp only [decide_eq_true_eq]

theorem get?_changeItem : (changeItem queue id change read now).get? b =
    (queue.get? b).map fun m => if m.id = id then m.change change read now else m := by
  refine Table.get?_update.trans ?_
  simp only [decide_eq_true_eq]

end UserQueue
