import Mathlib.Data.List.Basic
import V8AgentOs.Lib.Triple
import V8AgentOs.Python.Dict

-- core/database.py: the tables of the neighbor runtime.
--
-- A column that holds a JSON text is modelled by its value.
namespace Neighbor

open Python (Dict Json)

-- An `HTTPException`, a statement that the schema refuses, or another exception
inductive Error
  | http (status : ℕ) (detail : String)
  | integrity
  | raised
  deriving DecidableEq, Repr

-- `network_neighbor_links`
structure Link where
  id               : String
  peerId           : String
  localNickname    : String
  remoteNickname   : String
  localRole        : String
  remoteRole       : String
  trustStatus      : String
  workspaceBinding : Dict
  metadata         : Dict
  pairedAt         : String
  lastSeenAt       : String
  createdAt        : String
  updatedAt        : String

-- `network_neighbor_messages`
structure Message where
  id               : String
  linkId           : String
  seq              : ℕ
  direction        : String
  fromPeerId       : String
  fromNickname     : String
  role             : String
  body             : String
  preview          : String
  status           : String
  runId            : Option String
  workspaceBinding : Dict
  metadata         : Dict
  createdAt        : String
  receivedAt       : String

-- `network_neighbor_tasks`
structure Task where
  id                   : String
  title                : String
  body                 : String
  status               : String
  targetMode           : String
  originSessionId      : Option String
  originRunId          : Option String
  wakePolicy           : String
  requiredCapabilities : List String
  workspaceBinding     : Dict
  metadata             : Dict
  createdAt            : String
  updatedAt            : String
  completedAt          : Option String

-- `network_neighbor_assignments`
structure Assignment where
  id                   : String
  taskId               : String
  linkId               : String
  peerId               : String
  parentAssignmentId   : Option String
  depth                : ℕ
  status               : String
  body                 : String
  requiredCapabilities : List String
  wakePolicy           : String
  runId                : Option String
  resultId             : Option String
  error                : Option String
  metadata             : Dict
  createdAt            : String
  updatedAt            : String
  completedAt          : Option String

-- `network_neighbor_task_results`
structure TaskResult where
  id                    : String
  taskId                : String
  assignmentId          : String
  linkId                : String
  peerId                : String
  status                : String
  summary               : String
  body                  : String
  needsAttention        : Bool
  requestedCapabilities : List String
  handoffReason         : Option String
  metadata              : Dict
  createdAt             : String

-- What the wake of a message is about
structure Wake where
  kind       : Option String     := none
  task       : Option Task       := none
  assignment : Option Assignment := none
  result     : Option TaskResult := none

structure WakePayload extends Wake where
  link             : Link
  inboundMessage   : Message
  workspaceBinding : Dict
  sourcePeerId     : String

-- `network_neighbor_wake_queue`
structure WakeItem where
  id             : String
  linkId         : String
  messageId      : String
  runId          : String
  state          : String
  attemptCount   : ℕ
  maxAttempts    : ℕ
  availableAt    : String
  claimedBy      : Option String
  leaseExpiresAt : Option String
  lastError      : Option String
  payload        : WakePayload
  createdAt      : String
  updatedAt      : String
  completedAt    : Option String
  failedAt       : Option String

structure Database where
  links       : List Link
  messages    : List Message
  queue       : List WakeItem
  tasks       : List Task
  assignments : List Assignment
  results     : List TaskResult

namespace Database

def link? (db : Database) (id : String) : Option Link :=
  db.links.find? (·.id = id)

def message? (db : Database) (id : String) : Option Message :=
  db.messages.find? (·.id = id)

-- `SELECT * FROM network_neighbor_wake_queue WHERE message_id = ?`
def wakeOf? (db : Database) (messageId : String) : Option WakeItem :=
  db.queue.find? (·.messageId = messageId)

def task? (db : Database) (id : String) : Option Task :=
  db.tasks.find? (·.id = id)

def assignment? (db : Database) (id : String) : Option Assignment :=
  db.assignments.find? (·.id = id)

def result? (db : Database) (id : String) : Option TaskResult :=
  db.results.find? (·.id = id)

-- `_next_network_neighbor_message_seq`
def nextSeq (db : Database) (linkId : String) : ℕ :=
  ((db.messages.filter (·.linkId = linkId)).map (·.seq)).foldr max 0 + 1

def updateAssignment (db : Database) (id : String) (f : Assignment → Assignment) : Database :=
  { db with assignments := db.assignments.map fun a => if a.id = id then f a else a }

def touchLink (db : Database) (id now : String) : Database :=
  { db with links := db.links.map fun l => if l.id = id then { l with lastSeenAt := now, updatedAt := now } else l }

end Database

abbrev Tx := EStateM Error Database

-- Primary keys, unique columns and foreign keys refuse a row.
section Insert

def insertMessage (m : Message) : Tx Unit := do
  let db ← get
  if db.messages.any (fun r => r.id = m.id ∨ (r.linkId = m.linkId ∧ r.seq = m.seq)) ∨
      !(db.link? m.linkId).isSome then throw .integrity
  else set { db with messages := db.messages ++ [m] }

def insertWakeItem (q : WakeItem) : Tx Unit := do
  let db ← get
  if db.queue.any (·.id = q.id) ∨ !(db.link? q.linkId).isSome ∨ !(db.message? q.messageId).isSome then
    throw .integrity
  else set { db with queue := db.queue ++ [q] }

def insertTask (t : Task) : Tx Unit := do
  let db ← get
  if db.tasks.any (·.id = t.id) then throw .integrity
  else set { db with tasks := db.tasks ++ [t] }

def insertAssignment (a : Assignment) : Tx Unit := do
  let db ← get
  if db.assignments.any (·.id = a.id) ∨ !(db.task? a.taskId).isSome ∨ !(db.link? a.linkId).isSome then
    throw .integrity
  else set { db with assignments := db.assignments ++ [a] }

def insertResult (r : TaskResult) : Tx Unit := do
  let db ← get
  if db.results.any (·.id = r.id) ∨ !(db.task? r.taskId).isSome ∨ !(db.assignment? r.assignmentId).isSome ∨
      !(db.link? r.linkId).isSome then throw .integrity
  else set { db with results := db.results ++ [r] }

end Insert

end Neighbor

-- core/network_neighbor_delivery.py: the inbox.
namespace Neighbor

open Hoare (atomically)
open Python (Dict Json)

-- What is used of a signed envelope
structure Envelope where
  messageId   : String
  messageType : String
  fromPeerId  : String
  payload     : Dict

structure TaskSeed where
  taskId               : String
  title                : String
  body                 : String
  originSessionId      : Option String
  originRunId          : Option String
  wakePolicy           : String
  requiredCapabilities : List String
  workspaceBinding     : Dict
  metadata             : Dict

structure AssignmentSeed where
  assignmentId         : String
  linkId               : String
  peerId               : String
  parentAssignmentId   : Option String
  depth                : ℕ
  body                 : String
  requiredCapabilities : List String
  wakePolicy           : String
  metadata             : Dict

structure ResultSeed where
  resultId              : String
  taskId                : String
  assignmentId          : String
  linkId                : String
  peerId                : String
  status                : String
  summary               : String
  body                  : String
  needsAttention        : Bool
  requestedCapabilities : List String
  handoffReason         : Option String
  metadata              : Dict

-- The arguments of `receive_message`
structure Delivery where
  link             : Link
  envelope         : Envelope
  body             : String
  preview          : String
  workspaceBinding : Dict
  metadata         : Dict
  businessId       : String
  wake             : Option Wake           := none
  task             : Option TaskSeed       := none
  assignment       : Option AssignmentSeed := none
  result           : Option ResultSeed     := none

structure Receipt where
  message   : Message
  queue     : Option WakeItem
  duplicate : Bool

-- The digests of the standard library, in hexadecimal
structure Host where
  sha256 : String → String
  sha1   : String → String

-- `utc_now_iso()` and `uuid.uuid4().hex` at the time of the call
structure World where
  now  : String
  uuid : String

-- The business identity that owns deduplication
structure Key where
  linkId      : String
  fromPeerId  : String
  messageType : String
  businessId  : String
  deriving DecidableEq

def Delivery.key (d : Delivery) : Key where
  linkId      := d.link.id
  fromPeerId  := d.envelope.fromPeerId
  messageType := d.envelope.messageType
  businessId  := d.businessId

-- The canonical text of the payload
def Delivery.content (d : Delivery) : String :=
  String.ofList (Json.dict d.envelope.payload).dumps

variable (host : Host) (w : World)

-- `_digest`
def Host.digest (value : Json) : String :=
  host.sha256 (String.ofList value.dumps)

def Host.receiptDigest (k : Key) : String :=
  host.digest (.list [.str k.linkId, .str k.fromPeerId, .str k.messageType, .str k.businessId])

def Host.receiptId (k : Key) : String :=
  "nmsg_in_" ++ host.receiptDigest k

def Host.queueId (k : Key) : String :=
  "nwake_" ++ host.receiptDigest k

def Host.fingerprint (d : Delivery) : String :=
  host.digest (.dict d.envelope.payload)

-- `value or default`
def orElse (value default : String) : String :=
  if value ≠ "" then value else default

def terminalStatuses : List String := ["completed", "failed", "cancelled"]

-- A row that the first delivery of a task writes
def TaskSeed.row (t : TaskSeed) (now : String) : Task where
  id                   := t.taskId
  title                := t.title
  body                 := t.body
  status               := "received"
  targetMode           := "inbound"
  originSessionId      := t.originSessionId
  originRunId          := t.originRunId
  wakePolicy           := t.wakePolicy
  requiredCapabilities := t.requiredCapabilities
  workspaceBinding     := t.workspaceBinding
  metadata             := t.metadata
  createdAt            := now
  updatedAt            := now
  completedAt          := none

def AssignmentSeed.row (a : AssignmentSeed) (taskId now : String) : Assignment where
  id                   := a.assignmentId
  taskId               := taskId
  linkId               := a.linkId
  peerId               := a.peerId
  parentAssignmentId   := a.parentAssignmentId
  depth                := a.depth
  status               := "received"
  body                 := a.body
  requiredCapabilities := a.requiredCapabilities
  wakePolicy           := a.wakePolicy
  runId                := none
  resultId             := none
  error                := none
  metadata             := a.metadata
  createdAt            := now
  updatedAt            := now
  completedAt          := none

def ResultSeed.row (r : ResultSeed) (now : String) : TaskResult where
  id                    := r.resultId
  taskId                := r.taskId
  assignmentId          := r.assignmentId
  linkId                := r.linkId
  peerId                := r.peerId
  status                := r.status
  summary               := r.summary
  body                  := r.body
  needsAttention        := r.needsAttention
  requestedCapabilities := r.requestedCapabilities
  handoffReason         := r.handoffReason
  metadata              := r.metadata
  createdAt             := now

-- The four points at which an identity is checked
def taskConflict (stored : Task) (t : TaskSeed) (a : AssignmentSeed) : Bool :=
  stored.body ≠ t.body || !(stored.metadata.get "fromPeerId").eq (.str a.peerId)

def assignmentConflict (stored : Assignment) (t : TaskSeed) (a : AssignmentSeed) : Bool :=
  stored.taskId ≠ t.taskId || stored.peerId ≠ a.peerId || stored.linkId ≠ a.linkId ||
    !(stored.metadata.get "payloadDigest").eq (a.metadata.get "payloadDigest")

def Assignment.ownedBy (stored : Assignment) (r : ResultSeed) : Bool :=
  stored.taskId = r.taskId && stored.peerId = r.peerId && stored.linkId = r.linkId

def Assignment.settledOtherwise (stored : Assignment) (r : ResultSeed) : Bool :=
  terminalStatuses.contains stored.status && stored.resultId.any fun id => id ≠ "" && id ≠ r.resultId

def resultConflict (stored : TaskResult) (r : ResultSeed) : Bool :=
  stored.taskId ≠ r.taskId || stored.assignmentId ≠ r.assignmentId || stored.peerId ≠ r.peerId ||
    stored.body ≠ r.body || stored.status ≠ r.status

-- `SELECT * FROM …` of a row that exists
def fetch {α : Type} (find : Database → Option α) : Tx α := do
  match find (← get) with
  | some a => return a
  | none   => throw .integrity

-- A row that already exists must be the same one.
def reuse {ρ : Type} (stored : Option ρ) (conflict : ρ → Bool) (detail : String) (insert : Tx Unit) : Tx Unit :=
  match stored with
  | some row => if conflict row then throw (.http 409 detail) else pure ()
  | none     => insert

def storeTaskRow (t : TaskSeed) (a : AssignmentSeed) : Tx Unit := do
  reuse ((← get).task? t.taskId) (taskConflict · t a) "Task identity or content conflict"
    (insertTask (t.row w.now))

def storeAssignmentRow (t : TaskSeed) (a : AssignmentSeed) : Tx Unit := do
  reuse ((← get).assignment? a.assignmentId) (assignmentConflict · t a)
    "Assignment identity or content conflict" (insertAssignment (a.row t.taskId w.now))

-- `_store_assignment`
def storeAssignment (t : TaskSeed) (a : AssignmentSeed) : Tx (Task × Assignment) := do
  storeTaskRow w t a
  storeAssignmentRow w t a
  return (← fetch (·.task? t.taskId), ← fetch (·.assignment? a.assignmentId))

def storeResultRow (r : ResultSeed) : Tx Unit := do
  reuse ((← get).result? r.resultId) (resultConflict · r) "Result identity conflict" (insertResult (r.row w.now))

-- What becomes of the assignment of a result
def Assignment.settle (a : Assignment) (r : ResultSeed) (now : String) : Assignment :=
  { a with
    status      := r.status
    resultId    := some r.resultId
    updatedAt   := now
    completedAt := if terminalStatuses.contains r.status then some now else a.completedAt }

-- `_store_result`
def storeResult (r : ResultSeed) : Tx TaskResult := do
  match (← get).assignment? r.assignmentId with
  | none => throw (.http 404 "Unknown assignment")
  | some assignment =>
    if !assignment.ownedBy r then throw (.http 403 "Result sender does not own assignment")
    else if assignment.settledOtherwise r then throw (.http 409 "Assignment already has a terminal result")
    else
      storeResultRow w r
      modify (·.updateAssignment r.assignmentId (·.settle r w.now))
      fetch (·.result? r.resultId)

-- The message of a first delivery
def Delivery.message (d : Delivery) (seq : ℕ) : Message where
  id               := host.receiptId d.key
  linkId           := d.link.id
  seq              := seq
  direction        := "inbound"
  fromPeerId       := d.envelope.fromPeerId
  fromNickname     := orElse d.link.remoteNickname d.envelope.fromPeerId
  role             := orElse d.link.remoteRole "companion"
  body             := d.body
  preview          := d.preview
  status           := "received"
  runId            := none
  workspaceBinding := d.workspaceBinding
  metadata         := (d.metadata.set "remoteMessageId" (.str d.businessId)).set "payloadDigest"
    (.str (host.fingerprint d))
  createdAt        := w.now
  receivedAt       := w.now

-- The entry of the wake queue that goes with a first delivery
def Delivery.wakeItem (d : Delivery) (wake : Wake) (stored : Message) : WakeItem where
  id             := host.queueId d.key
  linkId         := d.link.id
  messageId      := host.receiptId d.key
  runId          := "run_" ++ w.uuid
  state          := "queued"
  attemptCount   := 0
  maxAttempts    := 3
  availableAt    := w.now
  claimedBy      := none
  leaseExpiresAt := none
  lastError      := none
  payload        := { wake with
    link             := d.link
    inboundMessage   := stored
    workspaceBinding := d.workspaceBinding
    sourcePeerId     := d.envelope.fromPeerId }
  createdAt      := w.now
  updatedAt      := w.now
  completedAt    := none
  failedAt       := none

-- The effect on tasks and assignments, and what the wake is about then
def storeTaskSeeds (d : Delivery) : Tx (Option Wake) := do
  match d.task, d.assignment with
  | some t, some a =>
    let (task, assignment) ← storeAssignment w t a
    return some { d.wake.getD {} with task := some task, assignment := some assignment }
  | _, _ => return d.wake

-- The effect on results
def storeResultSeed (d : Delivery) (wake : Option Wake) : Tx (Option Wake) := do
  match d.result with
  | some r =>
    let result ← storeResult w r
    return wake.map fun wake => { wake with result := some result }
  | none => return wake

def storeWake (d : Delivery) (wake : Option Wake) (stored : Message) : Tx (Option WakeItem) := do
  match wake with
  | some wake =>
    insertWakeItem (d.wakeItem host w wake stored)
    return some (← fetch fun db => db.queue.find? (·.id = host.queueId d.key))
  | none => return none

-- `receive_message`
def receiveMessage (d : Delivery) : Tx Receipt := atomically do
  match (← get).message? (host.receiptId d.key) with
  | some stored =>
    if !(stored.metadata.get "payloadDigest").eq (.str (host.fingerprint d)) then
      throw (.http 409 "Neighbor message identity reused with different content")
    else return ⟨stored, (← get).wakeOf? (host.receiptId d.key), true⟩
  | none =>
    let wake ← storeTaskSeeds w d
    let wake ← storeResultSeed w d wake
    let seq := (← get).nextSeq d.link.id
    insertMessage (d.message host w seq)
    let stored ← fetch (·.message? (host.receiptId d.key))
    let queue ← storeWake host w d wake stored
    modify (·.touchLink d.link.id w.now)
    return ⟨stored, queue, false⟩

end Neighbor
