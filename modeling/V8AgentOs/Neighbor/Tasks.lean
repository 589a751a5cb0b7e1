import Mathlib.Data.List.Sort
import V8AgentOs.Neighbor.Delivery

-- runtimes/network_supervisor/neighbor_tasks.py: tasks that are handed to other devices.
namespace Neighbor

open Python (Dict Json strip take)

-- What the language knows of text: `str(value)` of what is not a string, `int(value)`, `lower`,
-- the characters of `\w`, and `str(exc)`
structure TaskHost extends Host where
  display   : Json → String
  integer   : Json → Except Error ℤ
  lower     : String → String
  isWord    : Char → Bool
  errorText : Error → String
  hexDigest : ∀ text, ∀ c ∈ (sha1 text).toList, c ∈ "0123456789abcdef".toList
  lowerCase : ∀ text, (∀ c ∈ text.toList, 'a' ≤ c ∧ c ≤ 'z') → lower text = text

-- An entry of `list_devices`
structure Device where
  linkId         : String
  peerId         : String
  online         : Bool
  lastSeenAt     : String
  capabilityTags : List String

-- What one call reads besides the database. `binding` is the workspace that the request resolves to,
-- and `sign` says whether an envelope of a type can be built.
structure TaskWorld extends World where
  enabled  : Bool
  verified : Except Error Unit
  settings : Json
  devices  : List Device
  binding  : Except Error Dict
  sign     : String → Except Error Unit

-- The envelope of type `neighbor.task.ack` that answers a message
structure Ack where
  toPeerId         : String
  requestMessageId : String
  taskId           : String         := ""
  assignmentId     : String         := ""
  resultId         : String         := ""
  status           : String
  runId            : Option String  := none
  queueId          : Option String  := none

variable (host : TaskHost) (w : TaskWorld)

section Text

-- `str(value or "")`
def TaskHost.str (value : Json) : String :=
  match value with
  | .str s => s
  | v      => if v.truthy then host.display v else ""

-- `_text`, without and with a limit
def TaskHost.text (value : Json) : String :=
  strip (host.str value)

def cut (limit : ℕ) (text : String) : String :=
  if limit < text.length then String.ofList ((text.toList.take limit).rdropWhile Python.isSpace) else text

-- `value or other`
def either (value other : Json) : Json :=
  if value.truthy then value else other

-- `value or None`
def nonempty (text : String) : Option String :=
  if text ≠ "" then some text else none

def isSeparator (c : Char) : Bool :=
  c = ',' || c = '，' || c = '\n' || c = ';' || c = '；'

-- `re.sub(r"\s+", "_", text)`
def underscored : List Char → List Char
  | []      => []
  | c :: cs =>
    if !Python.isSpace c then c :: underscored cs
    else match cs with
      | []     => ['_']
      | d :: _ => if Python.isSpace d then underscored cs else '_' :: underscored cs

def TaskHost.tag (item : Json) : String :=
  let text := underscored (host.lower (strip (host.str item))).toList
  String.ofList (text.filter fun c => host.isWord c || (0x4e00 ≤ c.toNat && c.toNat ≤ 0x9fff) || c = '-')

-- `_normalize_tags`: each tag once, and at most twelve
def TaskHost.normalizeTags (value : Json) : List String :=
  let items : List Json := match value with
    | .str s   => (s.toList.splitOnP isSeparator).map fun cs => .str (String.ofList cs)
    | .list xs => xs
    | _        => []
  (((items.map host.tag).filter (· ≠ "")).eraseDups.take 12).map (take 40)

def wakePolicies : List String := ["inbox", "per_result"]

-- `_wake_policy`
def TaskHost.wakePolicy (value : Json) (fallback : String) : String :=
  let normalized := host.lower (strip (host.str value))
  if wakePolicies.contains normalized then normalized else fallback

-- `settings_payload()["resultWakePolicy"]`
def settingsPolicy : String :=
  host.wakePolicy w.settings "inbox"

-- `_result_id` and `_assignment_id`
def TaskHost.resultId (taskId assignmentId peerId status : String) : String :=
  "ntres_" ++ take 16 (host.sha1 (taskId ++ ":" ++ assignmentId ++ ":" ++ peerId ++ ":" ++ status))

def TaskHost.assignmentId (taskId linkId : String) (depth : ℕ) (parentId : Option String) : String :=
  "ntasn_" ++ take 16 (host.sha1 (taskId ++ ":" ++ linkId ++ ":" ++ parentId.getD "" ++ ":" ++ toString depth))

-- The preview of `message_text`
def previewOf (body : String) : String :=
  take 800 body ++ (if 800 < body.length then "…" else "")

end Text

section Tables

namespace Database

-- The getters look for the stripped identifier, and find nothing for an empty one.
def byId {α : Type} (find : String → Option α) (id : String) : Option α :=
  if strip id ≠ "" then find (strip id) else none

def getLinkByPeer (db : Database) : String → Option Link :=
  byId fun id => db.links.find? (·.peerId = id)

def getTask (db : Database) : String → Option Task :=
  byId db.task?

def getAssignment (db : Database) : String → Option Assignment :=
  byId db.assignment?

def getResult (db : Database) : String → Option TaskResult :=
  byId db.result?

-- `list_network_neighbor_assignments(task_id=…, limit=500)`
def listAssignments (db : Database) (taskId : String) : List Assignment :=
  let rows := db.assignments.filter fun a => taskId = "" ∨ a.taskId = taskId
  (rows.insertionSort fun a b => a.createdAt ≤ b.createdAt).take 500

-- `update_network_neighbor_assignment_status`
def updateAssignmentStatus (db : Database) (id status now : String) (error : Option String := none)
    (completed : Bool := false) (onlyWithoutResult : Bool := false) : Database :=
  { db with assignments := db.assignments.map fun a =>
      if a.id = id ∧ (onlyWithoutResult → a.resultId = none) then { a with
        status
        error       := error.or a.error
        completedAt := if completed then a.completedAt.or (some now) else a.completedAt
        updatedAt   := now }
      else a }

-- `update_network_neighbor_task_status`
def updateTaskStatus (db : Database) (id status now : String) (completed : Bool := false) : Database :=
  { db with tasks := db.tasks.map fun t =>
      if t.id = id then { t with
        status
        completedAt := if completed then t.completedAt.or (some now) else t.completedAt
        updatedAt   := now }
      else t }

def finalStatuses : List String :=
  ["completed", "failed", "cancelled", "handoff_no_candidate", "handoff_review_required"]

-- `_recompute_task_status`: assignments that were handed on do not count.
def recomputeTaskStatus (db : Database) (taskId now : String) : Database :=
  let assignments := db.listAssignments taskId
  let superseded := assignments.filterMap fun a => a.parentAssignmentId.filter (· ≠ "")
  let statuses := (assignments.filter fun a => !superseded.contains a.id).map (·.status)
  if assignments.isEmpty then db
  else if !statuses.isEmpty && statuses.all finalStatuses.contains then
    if statuses.all (· = "completed") then db.updateTaskStatus taskId "completed" now true
    else if statuses.contains "completed" then db.updateTaskStatus taskId "degraded" now true
    else db.updateTaskStatus taskId "failed" now true
  else if statuses.contains "running" then db.updateTaskStatus taskId "running" now
  else db.updateTaskStatus taskId "assigned" now

end Database

end Tables

section Checks

def lift {α : Type} : Except Error α → Tx α
  | .ok a    => pure a
  | .error e => throw e

-- `if not …: raise HTTPException(…)`
def require (ok : Prop) [Decidable ok] (status : ℕ) (detail : String) : Except Error Unit :=
  if ok then .ok () else .error (.http status detail)

def found {α : Type} (x : Option α) (status : ℕ) (detail : String) : Except Error α :=
  match x with
  | some a => .ok a
  | none   => .error (.http status detail)

end Checks

section Assign

variable (envelope : Envelope)

def Envelope.get (envelope : Envelope) (key : String) : Json :=
  envelope.payload.get key

-- The checks of `_handle_assign`: the sender's link and the depth
def checkAssign (db : Database) : Except Error (Link × ℕ) := do
  let link ← found (db.getLinkByPeer envelope.fromPeerId) 404 "Neighbor link not found"
  let taskId := host.text (envelope.get "taskId")
  let assignmentId := host.text (envelope.get "assignmentId")
  let body := host.text (envelope.get "body")
  let depth ← host.integer (either (envelope.get "depth") (.int 0))
  require (taskId ≠ "" ∧ assignmentId ≠ "" ∧ body ≠ "" ∧ (depth = 0 ∨ depth = 1)) 400
    "Task requires stable taskId/assignmentId, a body and depth 0 or 1"
  require ((db.getAssignment assignmentId).all fun a => a.peerId = envelope.fromPeerId && a.taskId = taskId &&
      a.linkId = link.id && (a.metadata.get "payloadDigest").eq (.str (host.digest (.dict envelope.payload)))) 409
    "Assignment identity or content conflicts with stored task"
  require ((db.getTask taskId).all fun t => (t.metadata.get "fromPeerId").eq (.str envelope.fromPeerId)) 409
    "Task identity belongs to another origin"
  require ((db.getTask taskId).all (·.body = body)) 409 "Task identity reused with different content"
  return (link, depth.toNat)

def assignTask (title : String) (workspaceBinding : Dict) : TaskSeed where
  taskId               := host.text (envelope.get "taskId")
  title                := title
  body                 := host.text (envelope.get "body")
  originSessionId      := nonempty (host.text (envelope.get "originSessionId"))
  originRunId          := nonempty (host.text (envelope.get "originRunId"))
  wakePolicy           := host.wakePolicy (envelope.get "wakePolicy") "inbox"
  requiredCapabilities := host.normalizeTags (envelope.get "requiredCapabilities")
  workspaceBinding     := workspaceBinding
  metadata             := [("source", .str "peer"), ("fromPeerId", .str envelope.fromPeerId)]

def assignSeed (link : Link) (depth : ℕ) : AssignmentSeed where
  assignmentId         := host.text (envelope.get "assignmentId")
  linkId               := link.id
  peerId               := envelope.fromPeerId
  parentAssignmentId   := nonempty (host.text (envelope.get "parentAssignmentId"))
  depth                := depth
  body                 := host.text (envelope.get "body")
  requiredCapabilities := host.normalizeTags (envelope.get "requiredCapabilities")
  wakePolicy           := host.wakePolicy (envelope.get "wakePolicy") "inbox"
  metadata             := [("handoffDepthRemaining", .int (1 - depth)),
    ("payloadDigest", .str (host.digest (.dict envelope.payload)))]

def assignDelivery (link : Link) (depth : ℕ) (workspaceBinding : Dict) : Delivery :=
  let task := assignTask host envelope (orElse (cut 120 (host.text (envelope.get "title")))
    (take 80 (host.text (envelope.get "body")))) workspaceBinding
  let message := "任务：" ++ task.title ++ "\n\n" ++ task.body
  { link
    envelope
    body       := message
    preview    := previewOf message
    workspaceBinding
    businessId := host.text (envelope.get "assignmentId")
    metadata   := [("kind", .str "neighbor.task.assign"), ("taskId", .str task.taskId),
      ("assignmentId", .str (host.text (envelope.get "assignmentId"))), ("bodyTruncated", .bool false)]
    wake       := some { kind := some "neighbor_task_assignment" }
    task       := some task
    assignment := some (assignSeed host envelope link depth) }

-- `_handle_assign`
def handleAssign : Tx Ack := do
  let (link, depth) ← lift (checkAssign host envelope (← get))
  let workspaceBinding ← lift w.binding
  let receipt ← receiveMessage host.toHost w.toWorld (assignDelivery host envelope link depth workspaceBinding)
  lift (w.sign "neighbor.task.ack")
  match receipt.queue with
  -- `queue["runId"]` of a message without an entry in the wake queue
  | none       => throw .raised
  | some queue => return {
      toPeerId         := envelope.fromPeerId
      requestMessageId := envelope.messageId
      taskId           := host.text (envelope.get "taskId")
      assignmentId     := host.text (envelope.get "assignmentId")
      status           := if receipt.duplicate then "duplicate" else "received"
      runId            := some queue.runId
      queueId          := some queue.id }

end Assign

section Result

variable (envelope : Envelope)

def resultStatuses : List String :=
  terminalStatuses ++ ["waiting_input", "waiting_approval", "handoff_requested"]

-- The assignment has a final result.
def Assignment.settled (a : Assignment) : Bool :=
  terminalStatuses.contains a.status && a.resultId.any (· ≠ "")

-- What the checks of `_store_inbound_result` establish
structure Admitted where
  link       : Link
  task       : Task
  assignment : Assignment
  status     : String
  body       : String
  resultId   : String
  known      : Bool

def checkResult (db : Database) (handoff : Bool) : Except Error Admitted := do
  let link ← found (db.getLinkByPeer envelope.fromPeerId) 404 "Neighbor link not found"
  let taskId := host.text (envelope.get "taskId")
  let assignmentId := host.text (envelope.get "assignmentId")
  let task ← found (db.getTask taskId) 404 "Unknown task or assignment"
  let assignment ← found (db.getAssignment assignmentId) 404 "Unknown task or assignment"
  require (assignment.taskId = taskId ∧ assignment.peerId = envelope.fromPeerId ∧ assignment.linkId = link.id) 403
    "Result sender does not own this assignment"
  require (task.targetMode ≠ "inbound") 403 "Peer cannot submit a result for its own inbound request"
  let status := if handoff then "handoff_requested" else host.text (envelope.get "status")
  require (status ∈ resultStatuses) 400 "Task result requires an explicit supported status"
  let body := host.text (either (envelope.get "body") (envelope.get "reason"))
  require (status = "completed" → body ≠ "") 400 "Completed task has no result"
  let resultId := orElse (host.text (envelope.get "resultId"))
    (host.resultId taskId assignmentId envelope.fromPeerId status)
  let existing := db.getResult resultId
  require (existing.all fun r => r.taskId = taskId && r.assignmentId = assignmentId &&
      r.peerId = envelope.fromPeerId && r.status = status && r.body = body) 409
    "Result identity reused with different content or owner"
  -- A delayed waiting message cannot turn a terminal result back to running.
  require (assignment.settled → existing.isSome) 409 "Assignment already has a terminal result"
  return ⟨link, task, assignment, status, body, resultId, existing.isSome⟩

-- A result that is known already, of an assignment that ended with another one
def Admitted.late (i : Admitted) : Bool :=
  i.known && terminalStatuses.contains i.assignment.status && i.assignment.resultId ≠ some i.resultId

def resultSeed (handoff : Bool) (i : Admitted) : ResultSeed where
  resultId              := i.resultId
  taskId                := host.text (envelope.get "taskId")
  assignmentId          := host.text (envelope.get "assignmentId")
  linkId                := i.link.id
  peerId                := envelope.fromPeerId
  status                := i.status
  summary               := cut 500 (host.text (either (envelope.get "summary") (.str (take 280 i.body))))
  body                  := i.body
  needsAttention        := handoff || "waiting_".isPrefixOf i.status
  requestedCapabilities := host.normalizeTags (envelope.get "requestedCapabilities")
  handoffReason         := if handoff then some (cut 2000 (host.text (envelope.get "reason"))) else none
  metadata              := [("direction", .str "inbound"), ("remoteMessageId", .str envelope.messageId)]

def resultDelivery (handoff : Bool) (i : Admitted) : Delivery :=
  let seed := resultSeed host envelope handoff i
  let policy := host.wakePolicy (.str (orElse i.task.wakePolicy "inbox")) (host.wakePolicy (.str (settingsPolicy host w)) "inbox")
  let message := orElse i.body seed.summary
  { link             := i.link
    envelope
    body             := message
    preview          := previewOf message
    workspaceBinding := i.task.workspaceBinding
    businessId       := i.resultId
    metadata         := [("kind", .str envelope.messageType), ("taskId", .str seed.taskId),
      ("assignmentId", .str seed.assignmentId), ("resultId", .str i.resultId), ("bodyTruncated", .bool false)]
    wake             :=
      if !handoff ∧ policy = "per_result" ∧ i.task.originSessionId.any (· ≠ "") then
        some { kind := some "neighbor_task_result", task := some i.task, assignment := some i.assignment }
      else none
    result           := some seed }

def resultAck (i : Admitted) (status : String) : Ack where
  toPeerId         := envelope.fromPeerId
  requestMessageId := envelope.messageId
  taskId           := host.text (envelope.get "taskId")
  assignmentId     := host.text (envelope.get "assignmentId")
  resultId         := i.resultId
  status           := status

-- `_store_inbound_result`
def storeInboundResult (handoff : Bool) : Tx Ack := do
  let i ← lift (checkResult host envelope (← get) handoff)
  if i.late then
    lift (w.sign "neighbor.task.ack")
    return resultAck host envelope i "duplicate"
  else
    let receipt ← receiveMessage host.toHost w.toWorld (resultDelivery host w envelope handoff i)
    modify fun db => if receipt.duplicate then db else
      db.recomputeTaskStatus (host.text (envelope.get "taskId")) w.now
    lift (w.sign "neighbor.task.ack")
    return resultAck host envelope i (if receipt.duplicate then "duplicate" else "received")

end Result

section Dispatch

-- The arguments of `dispatch_task`
structure Dispatch where
  body                 : String
  title                : String
  target               : String
  linkIds              : List String    := []
  requiredCapabilities : Json
  wakePolicy           : String
  originSessionId      : Option String
  originRunId          : Option String
  workspaceBinding     : Dict
  taskId               : String
  parentAssignmentId   : Option String  := none
  excludeLinkIds       : List String    := []
  maxAssignments       : ℕ              := 1
  depth                : ℕ              := 0

-- `set(_normalize_tags(item.get("capabilityTags")))`
def Device.tags (device : Device) : List String :=
  (host.normalizeTags (.list (device.capabilityTags.map .str))).eraseDups

-- `_score`: `len(tags & required)`, whether the device is online, and when it was seen
def score (required : List String) (device : Device) : ℕ × Bool × String :=
  (((device.tags host).filter required.contains).length, device.online, device.lastSeenAt)

def worse (a b : ℕ × Bool × String) : Bool :=
  a.1 < b.1 || a.1 = b.1 && ((!a.2.1 && b.2.1) || a.2.1 = b.2.1 && a.2.2 ≤ b.2.2)

-- The devices with all capabilities, or else those with some of them
def candidates (excluded required : List String) : List Device :=
  let free := w.devices.filter fun device => !excluded.contains device.linkId
  let able := free.filter fun device => required.all (device.tags host).contains
  if required.isEmpty then free
  else if !able.isEmpty then able
  else free.filter fun device => required.any (device.tags host).contains

-- The sort is stable, also with `reverse=True`.
def ranked (required : List String) (devices : List Device) : List Device :=
  devices.insertionSort fun a b => worse (score host required b) (score host required a)

-- `_select_links`, and the target mode
def selectLinks (d : Dispatch) (capabilities : List String) : Except Error (List Device × String) :=
  let excluded := (d.excludeLinkIds.map strip).filter (· ≠ "")
  let explicitIds := (d.linkIds.map strip).filter (· ≠ "")
  let required := host.normalizeTags (.list (capabilities.map .str))
  if !explicitIds.isEmpty then
    let selected := explicitIds.filterMap fun id =>
      if excluded.contains id then none else w.devices.reverse.find? (·.linkId = id)
    if selected.isEmpty then .error (.http 404 "No matching neighbor link found for explicit target")
    else .ok (selected, "explicit")
  else if (candidates host w excluded required).isEmpty then
    .error (.http 404 "No neighbor devices match the requested capabilities")
  else
    let sorted := ranked host required (candidates host w excluded required)
    if host.lower (strip d.target) = "all" then .ok (sorted, "all")
    else .ok (sorted.take (max 1 d.maxAssignments), "auto")

-- What the assignments of one dispatch have in common
structure Batch where
  taskId               : String
  body                 : String
  requiredCapabilities : List String
  wakePolicy           : String
  targetMode           : String
  parentAssignmentId   : Option String
  depth                : ℕ

-- The checks of `dispatch_task` before its first write
def plan (d : Dispatch) (db : Database) : Except Error (Batch × List Device) := do
  let body := strip d.body
  require (body ≠ "") 400 "Task body is required"
  let required := host.normalizeTags d.requiredCapabilities
  let (selected, targetMode) ← selectLinks host w d required
  let taskId := orElse (strip d.taskId) ("ntask_" ++ w.uuid)
  require ((db.getTask taskId).all fun t => t.body = body && t.targetMode ≠ "inbound") 409
    "Task ID already belongs to different content or a remote origin"
  return ({
    taskId
    body
    requiredCapabilities := required
    wakePolicy           := host.wakePolicy (.str d.wakePolicy) (host.wakePolicy (.str (settingsPolicy host w)) "inbox")
    targetMode
    parentAssignmentId   := d.parentAssignmentId
    depth                := d.depth }, selected)

-- A message that is on its way, and the devices that follow. The `caller` is the assignment whose
-- handoff is dispatched.
structure Sending where
  batch        : Batch
  assignmentId : String
  rest         : List Device
  caller       : Option String

def Batch.row (b : Batch) (id now : String) (device : Device) : Assignment where
  id                   := id
  taskId               := b.taskId
  linkId               := device.linkId
  peerId               := device.peerId
  parentAssignmentId   := b.parentAssignmentId
  depth                := b.depth
  status               := "queued"
  body                 := b.body
  requiredCapabilities := b.requiredCapabilities
  wakePolicy           := b.wakePolicy
  runId                := none
  resultId             := none
  error                := none
  metadata             := [("targetMode", .str b.targetMode)]
  createdAt            := now
  updatedAt            := now
  completedAt          := none

def Batch.childId (b : Batch) (device : Device) : String :=
  host.assignmentId b.taskId device.linkId b.depth b.parentAssignmentId

-- The loop of `dispatch_task` up to its next message
def dispatchNext (b : Batch) (caller : Option String) : List Device → Tx (Option Sending)
  | [] => do
    modify (·.recomputeTaskStatus b.taskId w.now)
    return none
  | device :: rest => do
    match (← get).getAssignment (b.childId host device) with
    | some prior =>
      if prior.status ≠ "failed" ∧ prior.status ≠ "queued" then dispatchNext b caller rest
      else
        lift (w.sign "neighbor.task.assign")
        return some ⟨b, b.childId host device, rest, caller⟩
    | none =>
      insertAssignment (b.row (b.childId host device) w.now device)
      lift (w.sign "neighbor.task.assign")
      return some ⟨b, b.childId host device, rest, caller⟩

def Dispatch.task (d : Dispatch) (b : Batch) (now : String) : Task where
  id                   := b.taskId
  title                := orElse (cut 120 (strip d.title)) (take 80 b.body)
  body                 := b.body
  status               := "dispatching"
  targetMode           := b.targetMode
  originSessionId      := nonempty (strip (d.originSessionId.getD ""))
  originRunId          := nonempty (strip (d.originRunId.getD ""))
  wakePolicy           := b.wakePolicy
  requiredCapabilities := b.requiredCapabilities
  workspaceBinding     := d.workspaceBinding
  metadata             := [
    ("source", .str (if d.originSessionId.any (· ≠ "") || d.originRunId.any (· ≠ "") then "network_neighbor_broker" else "admin")),
    ("target", .str d.target), ("parentAssignmentId", .str (d.parentAssignmentId.getD ""))]
  createdAt            := now
  updatedAt            := now
  completedAt          := none

-- `dispatch_task` up to its first message
def dispatchTask (d : Dispatch) (caller : Option String) : Tx (Option Sending) := do
  let (b, selected) ← lift (plan host w d (← get))
  if ((← get).getTask b.taskId).isNone then insertTask (d.task b w.now)
  dispatchNext host w b caller selected

-- How a message ended: with the status of its delivery, or with an exception
inductive Sent
  | delivery (status : String)
  | failed (text : String)

def Sending.settle (p : Sending) (sent : Sent) (now : String) (db : Database) : Database :=
  match sent with
  | .delivery status =>
    db.updateAssignmentStatus p.assignmentId (if status = "delivered" then "sent" else "queued_via_relay") now
      none false true
  | .failed text => db.updateAssignmentStatus p.assignmentId "failed" now (some text) true true

-- The `except` of the handoff in which the dispatch runs, if there is one
def catching (caller : Option String) (x : Tx (Option Sending)) : Tx (Option Sending) :=
  match caller with
  | none    => x
  | some id => tryCatch x fun e => do
    modify (·.updateAssignmentStatus id "handoff_no_candidate" w.now (some (host.errorText e)))
    return none

-- The loop of `dispatch_task` goes on after a message.
def resume (p : Sending) (sent : Sent) : Tx (Option Sending) :=
  catching host w p.caller do
    modify (p.settle sent w.now)
    dispatchNext host w p.batch p.caller p.rest

end Dispatch

section Handoff

variable (envelope : Envelope)

-- A child of the assignment is listed already.
def dispatched (db : Database) : Bool :=
  (db.listAssignments (host.text (envelope.get "taskId"))).any fun a =>
    a.parentAssignmentId = some (host.text (envelope.get "assignmentId"))

def handoffDispatch (task : Task) (assignment : Assignment) (link : Link) : Dispatch where
  taskId               := task.id
  title                := task.title
  body                 := orElse task.body assignment.body
  target               := "auto"
  requiredCapabilities := .list ((host.normalizeTags (envelope.get "requestedCapabilities")).map .str)
  wakePolicy           := orElse task.wakePolicy "inbox"
  originSessionId      := nonempty (task.originSessionId.getD "")
  originRunId          := nonempty (task.originRunId.getD "")
  workspaceBinding     := task.workspaceBinding
  parentAssignmentId   := some assignment.id
  excludeLinkIds       := [link.id]
  depth                := 1

-- What a handoff request leads to, once its result is stored
def followUp : Tx (Option Sending) := do
  let db ← get
  match db.getAssignment (host.text (envelope.get "assignmentId")), db.getLinkByPeer envelope.fromPeerId with
  | some assignment, some link =>
    if strip (orElse link.localRole "primary") ≠ "primary" ∨ 1 ≤ assignment.depth then
      set (db.updateAssignmentStatus assignment.id "handoff_review_required" w.now)
      return none
    else
      match db.getTask assignment.taskId with
      | some task =>
        catching host w (some assignment.id)
          (dispatchTask host w (handoffDispatch host envelope task assignment link) (some assignment.id))
      | none => return none
  | _, _ => return none

-- `_handle_handoff_request`
def handleHandoffRequest : Tx (Ack × Option Sending) := do
  let response ← storeInboundResult host w envelope true
  if response.status = "duplicate" ∧ dispatched host envelope (← get) then return (response, none)
  else return (response, ← followUp host w envelope)

-- `handle_task_envelope`, up to the first message that it sends
def handleTaskEnvelope : Tx (Ack × Option Sending) := do
  if !w.enabled then throw (.http 403 "Neighbor runtime is disabled")
  else
    lift w.verified
    let messageType := strip envelope.messageType
    if messageType = "neighbor.task.assign" then return (← handleAssign host w envelope, none)
    else if messageType = "neighbor.task.result" then return (← storeInboundResult host w envelope false, none)
    else if messageType = "neighbor.task.handoff_request" then handleHandoffRequest host w envelope
    else if messageType = "neighbor.task.ack" then
      lift (w.sign "neighbor.task.ack")
      return (⟨envelope.fromPeerId, envelope.messageId, "", "", "", "ack_seen", none, none⟩, none)
    else throw (.http 400 ("Unsupported neighbor task envelope: " ++ messageType))

end Handoff
end Neighbor
