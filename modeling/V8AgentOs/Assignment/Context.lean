import Mathlib.Data.List.Basic
import V8AgentOs.Lib.Table
import V8AgentOs.Python.Dict
import V8AgentOs.Python.Json
import V8AgentOs.Python.Numbers
import V8AgentOs.Python.Text

-- erc/session_command_service.py: the paths of a project assignment. Paths are those of POSIX.
namespace Assignment

open Python (Json strip)

-- What lies between the separators of a text
def segments (sep : Char) : List Char → List (List Char)
  | []      => [[]]
  | c :: cs =>
    if c = sep then [] :: segments sep cs
    else match segments sep cs with
      | []      => [[c]]
      | s :: ss => (c :: s) :: ss

-- `pathlib.Path`. Two leading slashes are a root of their own.
structure Path where
  root  : String
  parts : List String
  deriving DecidableEq

namespace Path

-- `Path(text)`
def ofText (text : String) : Path where
  root  := match text.toList with
    | '/' :: '/' :: '/' :: _ => "/"
    | '/' :: '/' :: _        => "//"
    | '/' :: _               => "/"
    | _                      => ""
  parts := ((segments '/' text.toList).filter fun s => s ≠ [] && s ≠ ['.']).map String.ofList

-- `root / path`
def join (root path : Path) : Path :=
  if path.root = "" then { root with parts := root.parts ++ path.parts } else path

-- `str(path)`
def text (path : Path) : String :=
  if path.root = "" ∧ path.parts = [] then "." else path.root ++ "/".intercalate path.parts

-- `path.is_relative_to(parent)`
def isRelativeTo (path parent : Path) : Bool :=
  path.root = parent.root && parent.parts.isPrefixOf path.parts

end Path

-- What the file system answers
structure FileSystem where
  expanduser : Path → Path
  resolve    : Path → Except String Path
  isDir      : Path → Bool
  stat       : Path → ℕ × ℕ

-- `text.endswith(os.sep)`
def endsWithSep (text : String) : Bool :=
  text.toList.getLast? = some '/'

-- `raise ValueError(…)` unless a condition is met
def require (ok : Prop) [Decidable ok] (error : String) : Except String Unit :=
  if ok then .ok () else .error error

def found {α : Type} (x : Option α) (error : String) : Except String α :=
  match x with
  | some a => .ok a
  | none   => .error error

-- What the loop of `_paths` makes of a value
def concretePath (fs : FileSystem) (root : Path) : Json → Except String String
  | .str value => do
    require (strip value ≠ "" ∧ '*' ∉ value.toList ∧ '?' ∉ value.toList) "assignment_path_invalid"
    let target ← fs.resolve (root.join (.ofText value))
    require (target.isRelativeTo root) "assignment_path_outside_workspace"
    let directory := value.toList.getLast? = some '/' || value.toList.getLast? = some '\\' || fs.isDir target
    return target.text ++ if directory then "/" else ""
  | _ => .error "assignment_path_invalid"

def append (result : List String) (path : String) : List String :=
  if path ∈ result then result else result ++ [path]

-- `_paths`
def paths (fs : FileSystem) (values : Json) (workspace : String) : Except String (List String) :=
  match values with
  | .list values => do
    let root ← fs.resolve (.ofText workspace)
    values.foldlM (fun result value => do return append result (← concretePath fs root value)) []
  | _ => .error "assignment_path_set_required"

-- `Path(path) == Path(parent) or (parent.endswith(os.sep) and Path(path).is_relative_to(Path(parent)))`
def covers (parent path : String) : Bool :=
  Path.ofText path = Path.ofText parent ||
    endsWithSep parent && (Path.ofText path).isRelativeTo (Path.ofText parent)

def permits (permitted requested : List String) : Bool :=
  requested.all fun path => permitted.any (covers · path)

end Assignment

-- erc/session_command_service.py: what a caller may do for the project assignment that its run is bound to.
namespace Assignment

open Python (Dict Json Numbers Text orElse strip)

structure Scope where
  projectId         : Option String
  workspaceId       : Option String
  workspacePath     : String
  resolvedScope     : Option String
  directoryIdentity : ℕ × ℕ
  deriving DecidableEq

-- The last lines of `ensure_engineering_task_capsule`: a task with its capsule
def withCapsule (task context capsule : Dict) : Dict :=
  ((((task.set "context" (.dict context)).set "engineeringTaskCapsule" (.dict capsule)).set "readSet"
    (orElse (capsule.get "readSet") (.list []))).set "writeSet" (orElse (capsule.get "writeSet") (.list []))).set
    "writeRequired" (.bool (capsule.get "writeRequired").truthy)

-- The contract of an assignment. Its task has been given its capsule.
structure Contract where
  scope                 : Scope
  taskBrief             : Dict
  ensured               : ∃ task context capsule, taskBrief = withCapsule task context capsule
  authorizationRef      : String
  requirementRevision   : String
  userInstruction       : String
  targetUserRevision    : String
  targetIngressRevision : Json
  permittedControls     : List String
  safetyApprovalMode    : String

-- A row of `session_command_assignments`
structure CommandAssignment where
  assignmentId   : String
  rootSessionId  : String
  childSessionId : String
  userId         : String
  status         : String
  revision       : ℤ
  contract       : Contract

structure RunRecord where
  id        : String
  sessionId : String
  userId    : Option String
  status    : String
  metadata  : Dict

-- A row of `session_coordination_messages`
structure Message where
  id              : String
  authority       : String
  sourceSessionId : String
  targetSessionId : String
  targetRunId     : Option String
  sourceUserId    : Option String
  content         : String
  state           : String
  metadata        : Dict

structure Session where
  id       : String
  userId   : Option String
  metadata : Dict

structure ScopeBinding where
  sessionId     : String
  workspacePath : String
  status        : String
  projectId     : Option String
  workspaceId   : Option String
  resolvedScope : Option String

-- The tables, the file system and what the code takes from Python's library. `humanTurns` are the facts of
-- `session_command_user_revision`, `fingerprint` is the hash of them, and `digest` is `_digest`.
structure World where
  assignments : Table CommandAssignment.assignmentId
  runs        : Table RunRecord.id
  messages    : Table Message.id
  sessions    : Table Session.id
  bindings    : Table ScopeBinding.sessionId
  humanTurns  : String → List (String × String × String)
  fingerprint : List (String × String × String) → String
  digest      : Json → String
  fs          : FileSystem
  text        : Text
  numbers     : Numbers

def optional : Option String → Json
  | none   => .null
  | some s => .str s

def Scope.json (scope : Scope) : Json :=
  .dict [("projectId", optional scope.projectId), ("workspaceId", optional scope.workspaceId),
    ("workspacePath", .str scope.workspacePath), ("resolvedScope", optional scope.resolvedScope),
    ("directoryIdentity", .list [.int scope.directoryIdentity.1, .int scope.directoryIdentity.2])]

-- What `envelope` shows of an assignment
structure Envelope where
  assignmentId        : String
  rootSessionId       : String
  childSessionId      : String
  revision            : ℤ
  status              : String
  authorizationRef    : String
  requirementRevision : String
  scopeRevision       : String
  scope               : Scope
  permittedControls   : List String
  taskBrief           : Dict
  userInstruction     : String
  safetyApprovalMode  : String

-- What `validate_assignment_execution_context` returns for a run that is bound. `taskBriefAlias` is its `taskBrief`.
structure Verified where
  projectAssignment      : Envelope
  taskBrief              : Json
  taskBriefAlias         : Json
  engineeringTaskCapsule : Json
  engineeringCapsuleMode : Json
  allowedWritePaths      : List String

-- `values == texts` for a list of texts
def isTexts (value : Json) (texts : List String) : Bool :=
  (Json.list (texts.map .str)).eq value

-- The texts of a path set
def texts (value : Json) : Except String (List String) :=
  match value with
  | .list values => values.mapM fun
    | .str s => .ok s
    | _      => .error "TypeError"
  | _ => .error "TypeError"

def asDict : Json → Except String Dict
  | .dict members => .ok members
  | _             => .error "AttributeError"

namespace World

variable (w : World)

-- `_scope`
def scope (binding : Option ScopeBinding) : Except String Scope := do
  let binding ← found binding "assignment_workspace_not_ready"
  let path ← w.fs.resolve (w.fs.expanduser (.ofText binding.workspacePath))
  require (binding.workspacePath ≠ "" ∧ binding.status = "active" ∧ w.fs.isDir path) "assignment_workspace_not_ready"
  return {
    projectId         := binding.projectId
    workspaceId       := binding.workspaceId
    workspacePath     := path.text
    resolvedScope     := binding.resolvedScope
    directoryIdentity := w.fs.stat path }

def userRevision (sessionId : String) : String :=
  w.fingerprint (w.humanTurns sessionId)

def envelope (row : CommandAssignment) : Envelope where
  assignmentId        := row.assignmentId
  rootSessionId       := row.rootSessionId
  childSessionId      := row.childSessionId
  revision            := row.revision
  status              := row.status
  authorizationRef    := row.contract.authorizationRef
  requirementRevision := row.contract.requirementRevision
  scopeRevision       := w.digest row.contract.scope.json
  scope               := row.contract.scope
  permittedControls   := row.contract.permittedControls
  taskBrief           := row.contract.taskBrief
  userInstruction     := row.contract.userInstruction
  safetyApprovalMode  := row.contract.safetyApprovalMode

-- The session of a party and its scope
def checkParty (row : CommandAssignment) (userId target : String) : Except String Unit := do
  require ((w.sessions.get? target).any (·.userId = some userId)) "assignment_owner_mismatch"
  require ((← w.scope (w.bindings.get? target)) = row.contract.scope) "assignment_scope_revision_changed"

-- A path set of the task names the same paths as before.
def checkPaths (row : CommandAssignment) (key : String) : Except String Unit := do
  let values ← found (row.contract.taskBrief.lookup key) "KeyError"
  require (isTexts values (← paths w.fs values row.contract.scope.workspacePath)) "assignment_path_identity_changed"

-- `validate`
def validate (assignmentId sessionId userId : String) (revision : ℤ) : Except String CommandAssignment := do
  let row ← found (w.assignments.get? assignmentId) "assignment_relation_required"
  require (sessionId = row.rootSessionId ∨ sessionId = row.childSessionId) "assignment_relation_required"
  require (userId ≠ "" ∧ row.userId = userId) "assignment_owner_mismatch"
  require (row.status = "active") "assignment_revoked"
  require (row.revision = revision) "assignment_revision_changed"
  w.checkParty row userId row.rootSessionId
  w.checkParty row userId row.childSessionId
  require (w.userRevision row.childSessionId = row.contract.targetUserRevision) "assignment_target_revision_changed"
  let metadata : Dict := ((w.sessions.get? row.childSessionId).map (·.metadata)).getD []
  require ((metadata.get "sessionCommandUserRevision" (.int 0)).eq row.contract.targetIngressRevision)
    "assignment_target_revision_changed"
  w.checkPaths row "readSet"
  w.checkPaths row "writeSet"
  return row

-- `get_session_coordination_message`
def getMessage (messageId : String) : Option Message :=
  if strip messageId = "" then none else w.messages.get? (strip messageId)

-- `int(value or 0)`
def intOf (value : Json) : Except String ℤ :=
  if value.truthy then found (w.numbers.int value) "ValueError" else .ok 0

-- `assignment_for_message`
def assignmentForMessage (message : Message) (sessionId : String) : Except String (Option Envelope) :=
  match (w.getMessage message.id).filter (·.authority = "project_assignment") with
  | none =>
    if message.authority = "project_assignment" then .error "assignment_message_not_authorized" else .ok none
  | some persisted => do
    require (message.id = persisted.id ∧ message.authority = persisted.authority ∧
      message.sourceSessionId = persisted.sourceSessionId ∧ message.targetSessionId = persisted.targetSessionId ∧
      message.sourceUserId = persisted.sourceUserId ∧ message.content = persisted.content)
      "assignment_message_payload_changed"
    let digest := w.digest (.dict [("assignmentId", persisted.metadata.get "assignmentId"),
      ("revision", persisted.metadata.get "assignmentRevision"), ("content", .str persisted.content)])
    require ((Json.str digest).eq (persisted.metadata.get "assignmentCommandDigest")) "assignment_message_digest_changed"
    let revision ← w.intOf (persisted.metadata.get "assignmentRevision")
    let row ← w.validate (w.text.orEmpty (persisted.metadata.get "assignmentId")) sessionId
      (persisted.sourceUserId.getD "") revision
    require (row.childSessionId = sessionId ∧ row.rootSessionId = persisted.sourceSessionId)
      "assignment_message_scope_mismatch"
    return some (w.envelope row)

-- `execution_context`
def executionContext (assignment : Envelope) (sessionId userId : String) : Except String Verified := do
  let row ← w.validate assignment.assignmentId sessionId userId assignment.revision
  require (row.childSessionId = sessionId) "assignment_execution_target_mismatch"
  let brief := (w.envelope row).taskBrief
  let capsule ← found (brief.lookup "engineeringTaskCapsule") "KeyError"
  let members ← asDict capsule
  return {
    projectAssignment      := w.envelope row
    taskBrief              := .dict brief
    taskBriefAlias         := .dict brief
    engineeringTaskCapsule := capsule
    engineeringCapsuleMode := (← found (members.lookup "executionMode") "KeyError")
    allowedWritePaths      := (← texts (← found (members.lookup "writeSet") "KeyError")) }

section Caller

variable (context : Dict)

-- `str(context.get(key) or context.get(camelCase) or "")`
def given (key camelCase : String) : String :=
  w.text.orEmpty (orElse (context.get key) (context.get camelCase))

def sessionId : String :=
  w.given context "session_id" "sessionId"

def userId : String :=
  w.given context "user_id" "userId"

def runId : String :=
  w.given context "run_id" "runId"

def workspacePath : String :=
  w.given context "workspace_path" "workspacePath"

-- The caller works for another one.
def descendant : Bool :=
  w.text.orEmpty (context.get "runtime_kind") ∈ ["subagent", "delegation"]

-- The paths that the caller says it may write
def requested : Json :=
  context.get "allowed_write_paths" (context.get "allowedWritePaths" (.list []))

-- `sessionAssignment` of the run
def runBinding : Json :=
  match if w.runId context = "" then none else w.runs.get? (w.runId context) with
  | none     => .null
  | some run => run.metadata.get "sessionAssignment"

-- The checks up to `execution_context`
def boundAssignment (binding : Dict) : Except String Envelope := do
  let run ← found (w.runs.get? (w.runId context)) "assignment_run_scope_mismatch"
  require (run.sessionId = w.sessionId context ∧ run.userId = some (w.userId context) ∧
    (run.status = "running" ∨ run.status = "queued")) "assignment_run_scope_mismatch"
  require (¬(binding.get "cancelRequested").truthy) "assignment_cancellation_requested"
  let message ← found ((w.getMessage (w.text.orEmpty (binding.get "messageId"))).filter
    (·.targetRunId = some (w.runId context))) "assignment_run_message_mismatch"
  require (message.state = "promoted" ∨ message.state = "injected" ∨ message.state = "replied")
    "assignment_run_message_inactive"
  let assignment ← found (← w.assignmentForMessage message (w.sessionId context)) "assignment_run_binding_mismatch"
  require ((Json.str assignment.assignmentId).eq (binding.get "assignmentId") ∧
    (Json.int assignment.revision).eq (binding.get "revision")) "assignment_run_binding_mismatch"
  let claimed ← asDict (orElse (context.get "project_assignment") (.dict []))
  require (claimed = [] ∨ (claimed.get "assignmentId").eq (.str assignment.assignmentId) ∧
    (claimed.get "revision").eq (.int assignment.revision)) "assignment_runtime_projection_mismatch"
  require (w.workspacePath context ≠ "") "assignment_runtime_workspace_changed"
  require ((← w.fs.resolve (.ofText (w.workspacePath context))) = .ofText assignment.scope.workspacePath)
    "assignment_runtime_workspace_changed"
  return assignment

-- The mode that a descendant asks for. A value without a hash raises.
def narrowedMode (mode : Json) : Except String Json :=
  match context.get "engineering_capsule_mode" with
  | .list _ => .error "TypeError"
  | .dict _ => .error "TypeError"
  | value   => .ok (if value.eq (.str "read_only") || value.eq (.str "verify") then value else mode)

-- The lines for a descendant
def narrowed (workspace : String) (verified : Verified) : Except String Verified := do
  let requested ← paths w.fs (requested context) workspace
  require (permits verified.allowedWritePaths requested) "assignment_write_scope_exceeded"
  return { verified with
    allowedWritePaths      := requested
    engineeringCapsuleMode := (← narrowedMode context verified.engineeringCapsuleMode)
    taskBrief              := context.get "task_brief" verified.taskBrief
    taskBriefAlias         := context.get "taskBrief" verified.taskBriefAlias
    engineeringTaskCapsule := context.get "engineering_task_capsule" verified.engineeringTaskCapsule }

-- `validate_assignment_execution_context`
def validateAssignmentExecutionContext : Except String (Option Verified) :=
  if (w.runBinding context).truthy then do
    let binding ← asDict (w.runBinding context)
    let assignment ← w.boundAssignment context binding
    let verified ← w.executionContext assignment (w.sessionId context) (w.userId context)
    if w.descendant context then return some (← w.narrowed context assignment.scope.workspacePath verified)
    else return some verified
  else if (context.get "project_assignment").truthy then .error "assignment_run_binding_required"
  else .ok none

end Caller
end World
end Assignment
