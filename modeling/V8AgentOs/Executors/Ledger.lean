import Mathlib.Data.List.Infix
import V8AgentOs.Python.Json

-- runtimes/network_supervisor/executors/protocol.py
namespace Executors

open Python

abbrev maxFrame : ℕ := 16384

abbrev leaseMs : ℤ := 30000

abbrev maxTtlMs : ℤ := 30000

-- A number is sent as an exact double.
abbrev maxExact : ℤ := 2 ^ 53 - 1

-- The states of a command; a receipt reports all but the first three.
inductive State
  | authorized
  | queued
  | sent
  | received
  | started
  | succeeded
  | failed
  | rejected
  | cancelled
  | expired
  | unknownOutcome
  deriving DecidableEq, Repr

namespace State

def name : State → String
  | authorized     => "authorized"
  | queued         => "queued"
  | sent           => "sent"
  | received       => "received"
  | started        => "started"
  | succeeded      => "succeeded"
  | failed         => "failed"
  | rejected       => "rejected"
  | cancelled      => "cancelled"
  | expired        => "expired"
  | unknownOutcome => "unknown_outcome"

def all : List State :=
  [authorized, queued, sent, received, started, succeeded, failed, rejected, cancelled, expired,
   unknownOutcome]

-- `TERMINAL`
def terminal : State → Bool
  | authorized | queued | sent | received | started => false
  | _                                               => true

end State

abbrev capabilities : List String :=
  ["device.health", "sensor.read", "actuator.set", "android.observe", "android.capture",
   "android.action"]

abbrev mutating : List String := ["actuator.set", "android.action"]

abbrev gestures : List String := ["tap", "swipe"]

-- An `ExecutorError` or `IdentityError`, or any other exception of the interpreter.
inductive Failure
  | error (code : String) (status : ℕ)
  | raised
  deriving DecidableEq

abbrev Checked := Except Failure

def require (condition : Bool) (code : String) (status : ℕ := 409) : Checked Unit :=
  if condition then .ok () else .error (.error code status)

-- `x.get(..)`, `x[..]` and `x.items()` of something that is no dict
def asDict : Json → Checked Dict
  | .dict d => .ok d
  | _       => .error .raised

def asString : Json → Checked String
  | .str s => .ok s
  | _      => .error .raised

-- `d[key]`
def item (d : Dict) (key : String) : Checked Json :=
  match d.lookup key with
  | some x => .ok x
  | none   => .error .raised

-- `check` of `parse`. The floats of a parsed text are finite as long as the text shows finite ones.
mutual

def check : Json → ℕ → Checked Unit
  | .dict members, depth => do
    require (depth ≤ 12) "json_too_deep" 400
    checkMembers members (depth + 1)
  | .list items, depth   => do
    require (depth ≤ 12) "json_too_deep" 400
    require (items.length ≤ 256) "array_too_large" 400
    checkItems items (depth + 1)
  | .null, depth | .bool _, depth | .int _, depth | .float .., depth | .str _, depth =>
    require (depth ≤ 12) "json_too_deep" 400

def checkItems : List Json → ℕ → Checked Unit
  | [], _          => .ok ()
  | x :: xs, depth => do
    check x depth
    checkItems xs depth

def checkMembers : Dict → ℕ → Checked Unit
  | [], _               => .ok ()
  | (_, x) :: xs, depth => do
    check x depth
    checkMembers xs depth

end

-- `parse` of a text, where `result` is the value that `json.loads` reads from it.
def parse (raw : List Char) (result : Json) : Checked Dict := do
  require (bytes raw ≤ maxFrame) "frame_too_large" 413
  match result with
  | .dict d => do
    check result 0
    return d
  | _       => .error (.error "object_required" 400)

def canonical (value : Dict) : List Char :=
  (Json.dict value).dumps

-- `ID`
def idStart (c : Char) : Bool := c.isAlphanum

def idChar (c : Char) : Bool :=
  c.isAlphanum || c == '_' || c == '.' || c == ':' || c == '-'

def isId (s : String) : Bool :=
  match s.toList with
  | []      => false
  | c :: cs => idStart c && cs.length ≤ 191 && cs.all idChar

def identifier (value : Json) (code : String := "identifier_invalid") : Checked String :=
  match value with
  | .str s => do
    require (isId s) code 400
    return s
  | _      => .error (.error code 400)

def integer (value : Json) (minimum maximum : ℤ) (code : String) : Checked ℤ :=
  match value with
  | .int n => do
    require (minimum ≤ n && n ≤ maximum) code 400
    return n
  | _      => .error (.error code 400)

structure Grant where
  capability : String
  resourceId : String
  deriving DecidableEq

def grant? (value : Json) : Checked Grant :=
  match value with
  | .dict d => do
    require (Dict.hasExactly d ["capability", "resourceId"]) "grant_invalid" 400
    match Dict.get d "capability" with
    | .str capability => do
      require (capabilities.contains capability) "capability_unsupported" 400
      let resource ← identifier (Dict.get d "resourceId") "resource_invalid"
      return ⟨capability, resource⟩
    | _               => .error (.error "capability_unsupported" 400)
  | _       => .error (.error "grant_invalid" 400)

def grantsFrom : List Json → List Grant → Checked (List Grant)
  | [], result          => .ok result
  | x :: xs, result => do
    let grant ← grant? x
    require (!result.contains grant) "duplicate_grant" 400
    grantsFrom xs (result ++ [grant])

def grants (value : Json) : Checked (List Grant) :=
  match value with
  | .list items => do
    require (items.length ≤ 64) "grants_invalid" 400
    grantsFrom items []
  | _           => .error (.error "grants_invalid" 400)

def frameGeometry (value : Dict) : Checked Unit := do
  let width ← integer (value.get "width") 1 4096 "frame_dimensions_invalid"
  let height ← integer (value.get "height") 1 4096 "frame_dimensions_invalid"
  require (width * height ≤ 8 * 1024 * 1024) "frame_dimensions_invalid" 400
  let _ ← integer (value.get "rotation") 0 3 "frame_rotation_invalid"
  match value.get "geometryRevision" with
  | .str s => require (0 < s.length && s.length ≤ 128) "geometry_revision_required" 400
  | _      => .error (.error "geometry_revision_required" 400)
  match value.get "viewport" with
  | .dict viewport => do
    require (Dict.hasExactly viewport ["left", "top", "width", "height"]) "viewport_required" 400
    let _ ← integer (Dict.get viewport "left") 0 16384 "viewport_invalid"
    let _ ← integer (Dict.get viewport "top") 0 16384 "viewport_invalid"
    let _ ← integer (Dict.get viewport "width") 1 16384 "viewport_invalid"
    let _ ← integer (Dict.get viewport "height") 1 16384 "viewport_invalid"
  | _              => .error (.error "viewport_required" 400)

-- `isinstance(value, (str, int))`, where a boolean is an integer
def isAnchor : Json → Bool
  | .str _ | .int _ | .bool _ => true
  | _                         => false

-- `integer(arguments[key], 0, precondition[side] - 1, ..)` for a coordinate that is there
def insideFrame (arguments precondition : Dict) (key side : String) : Checked Unit := do
  if arguments.has key then
    match precondition.get side with
    | .int n => do
      let _ ← integer (arguments.get key) 0 (n - 1) "gesture_outside_frame"
    | _      => .error .raised
  else return ()

def gestureAction (operation : String) (arguments precondition : Dict) : Checked Unit := do
  let expected := ["action", "x", "y"] ++
    if operation = "swipe" then ["endX", "endY", "durationMs"] else []
  require (arguments.hasExactly expected) "arguments_invalid" 400
  frameGeometry precondition
  let _ ← identifier (precondition.get "frameId") "frame_required"
  insideFrame arguments precondition "x" "width"
  insideFrame arguments precondition "y" "height"
  insideFrame arguments precondition "endX" "width"
  insideFrame arguments precondition "endY" "height"
  if operation = "swipe" then do
    let _ ← integer (arguments.get "durationMs") 100 1000 "gesture_duration_invalid"
  else return ()

def nodeAction (operation : String) (arguments precondition : Dict) : Checked Unit := do
  require (arguments.within ["action", "nodeId", "text"]) "arguments_invalid" 400
  require (["click", "long_click", "set_text", "scroll_forward", "scroll_backward"].contains operation)
    "android_action_unsupported" 400
  let _ ← identifier (arguments.get "nodeId") "node_required"
  if operation = "set_text" then
    match arguments.get "text" with
    | .str s => require (s.length ≤ 1000) "text_invalid" 400
    | _      => .error (.error "text_invalid" 400)
  else require (!arguments.has "text") "text_invalid" 400
  require (isAnchor (precondition.get "nodeMapRevision")) "observation_anchor_required" 400

def androidAction (resource : String) (arguments precondition : Dict) : Checked Unit := do
  match arguments.get "action" with
  | .str operation =>
    if gestures.contains operation then gestureAction operation arguments precondition
    else nodeAction operation arguments precondition
  | _              => .error (.error "android_action_unsupported" 400)
  require (isAnchor (precondition.get "observationId")) "observation_anchor_required" 400
  require (isAnchor (precondition.get "appId")) "observation_anchor_required" 400
  require (isAnchor (precondition.get "windowId")) "observation_anchor_required" 400
  require ((precondition.get "appId").eq (.str resource)) "observation_resource_mismatch" 400

-- What `action` checks of the arguments of each capability.
def capabilityAction (capability resource : String) (arguments precondition : Dict) : Checked Unit :=
  if capability = "device.health" ∨ capability = "android.observe" then
    require arguments.isEmpty "arguments_invalid" 400
  else if capability = "sensor.read" then do
    require (arguments.within ["maxAgeMs"]) "arguments_invalid" 400
    let _ ← integer (arguments.get "maxAgeMs" (.int 0)) 0 60000 "max_age_invalid"
  else if capability = "android.capture" then
    let scope := arguments.get "scope" (.str "window")
    require (arguments.within ["scope"] && (scope.eq (.str "window") || scope.eq (.str "display")))
      "capture_scope_invalid" 400
  else if capability = "actuator.set" then do
    require (arguments.hasExactly ["level", "maxHoldMs"] &&
      match arguments.get "level" with | .bool _ => true | _ => false) "arguments_invalid" 400
    let _ ← integer (arguments.get "maxHoldMs") 1 maxTtlMs "hold_invalid"
    let _ ← integer (precondition.get "resourceRevision") 0 maxExact "resource_revision_required"
  else if capability = "android.action" then androidAction resource arguments precondition
  else return ()

-- `"permissioncontroller" not in resource.lower()` and the protected packages
def protectedResource (resource : String) : Bool :=
  ["display", "android", "com.v8agentos.phone", "com.android.settings"].contains resource ||
  decide ("permissioncontroller".toList <:+: resource.toList.map Char.toLower)

-- A checked action, with its arguments under the types that the checks establish.
structure Action where
  capability   : String
  resource     : String
  arguments    : Dict
  precondition : Dict

def action (capability resource arguments precondition : Json) : Checked Action :=
  match capability with
  | .str cap => do
    require (capabilities.contains cap) "capability_unsupported" 400
    let res ← identifier resource "resource_invalid"
    match arguments, precondition with
    | .dict args, .dict pre => do
      require (!("android.".toList.isPrefixOf cap.toList && protectedResource res))
        "protected_android_resource" 403
      capabilityAction cap res args pre
      let wrapped : Dict := [("arguments", arguments), ("precondition", precondition)]
      let _ ← parse (canonical wrapped) (.dict wrapped)
      return ⟨cap, res, args, pre⟩
    | _, _                  => .error (.error "action_invalid" 400)
  | _        => .error (.error "capability_unsupported" 400)

end Executors

-- The tables of the executor ledger, and transactions over them.
--
-- Texts that `json.dumps` writes to a column and `json.loads` reads back are kept as their values,
-- except where the code compares the texts themselves.
namespace Executors

open Python

structure Identity where
  deviceId    : String
  ownerId     : String
  authorityId : String
  deviceClass : String
  revoked     : Bool

-- The typed part of a `hello` frame that `hello` stores.
structure Hello where
  deviceId           : String
  authorityId        : String
  bootId             : String
  controlSessionId   : String
  capabilityRevision : ℤ
  capabilities       : List Grant

structure Connection where
  epoch         : ℤ
  grantRevision : ℤ
  grants        : List Grant
  hello         : Option Hello
  leaseUntil    : ℤ
  online        : Bool

-- The row that `INSERT OR IGNORE INTO executor_connections(device_id)` creates.
def Connection.fresh : Connection :=
  ⟨0, 1, [], none, 0, false⟩

-- The command that `create` builds, which is immutable.
structure Command where
  commandId          : String
  deviceId           : String
  authorityId        : String
  bootId             : String
  controlSessionId   : String
  capabilityRevision : ℤ
  leaseEpoch         : ℤ
  grantRevision      : ℤ
  issuedUnixMs       : ℤ
  deadlineUnixMs     : ℤ
  ttlMs              : ℤ
  capability         : String
  resourceId         : String
  arguments          : Dict
  precondition       : Dict
  traceRef           : Dict
  commandDigest      : String

structure Row where
  commandId          : String
  deviceId           : String
  ownerId            : String
  requestDigest      : String
  body               : Command
  state              : State
  receiptSeq         : ℤ
  receipt            : Option Dict
  cancelRequested    : Bool
  reconciled         : Bool
  reconciliationNote : Option String
  createdAt          : ℤ
  updatedAt          : ℤ

structure StoredReceipt where
  commandId  : String
  seq        : ℤ
  body       : List Char
  receivedAt : ℤ

inductive MediaState
  | reserved
  | uploading
  | uploaded
  | accepted
  | published
  | deleted
  deriving DecidableEq

structure Media where
  mediaId   : String
  commandId : String
  manifest  : Dict
  state     : MediaState
  expiresAt : ℤ

-- Rows stand in the order of their insertion. A device without a connection row has a fresh one.
structure Ledger where
  identities  : List Identity
  connections : String → Connection
  commands    : List Row
  receipts    : List StoredReceipt
  media       : List Media

def Ledger.empty : Ledger :=
  ⟨[], fun _ => .fresh, [], [], []⟩

-- What the service reads beside the ledger: the owner's id, and which media files exist.
structure Host where
  owner  : String
  isFile : String → Bool

-- A running transaction, with the readings of the clock that are still to come.
structure Session where
  db    : Ledger
  times : ℕ → ℤ

abbrev Tx := EStateM Failure Session

def now : Tx ℤ := do
  let s ← get
  set { s with times := fun n => s.times (n + 1) }
  return s.times 0

def ledger : Tx Ledger := return (← get).db

def update (f : Ledger → Ledger) : Tx Unit :=
  modify fun s => { s with db := f s.db }

def checked {α : Type} : Checked α → Tx α
  | .ok a    => return a
  | .error e => throw e

def inCase (condition : Bool) (x : Tx Unit) : Tx Unit :=
  if condition then x else pure ()

-- `value or {}` of something that is then used as a dict
def orEmpty (value : Json) : Tx Dict :=
  if value.truthy then checked (asDict value) else pure []

-- The rows that a condition selects are rewritten.
def Ledger.updateCommands (p : Row → Bool) (f : Row → Row) (db : Ledger) : Ledger :=
  { db with commands := db.commands.map fun r => if p r then f r else r }

def updateCommands (p : Row → Bool) (f : Row → Row) : Tx Unit :=
  update (Ledger.updateCommands p f)

def Ledger.updateConnection (device : String) (f : Connection → Connection) (db : Ledger) : Ledger :=
  { db with connections := fun d => if d = device then f (db.connections d) else db.connections d }

def updateConnection (device : String) (f : Connection → Connection) : Tx Unit :=
  update (Ledger.updateConnection device f)

-- The text that a JSON value stands for in a query: numbers are converted, `NULL` equals nothing,
-- and containers and integers beyond 64 bits cannot be bound.
def queryText : Json → Checked (Option String)
  | .null        => .ok none
  | .bool b      => .ok (some (if b then "1" else "0"))
  | .int n       =>
    if -2 ^ 63 ≤ n ∧ n < 2 ^ 63 then .ok (some (String.ofList (intText n))) else .error .raised
  | .float s d e => .ok (some (String.ofList (floatText s d e)))
  | .str s       => .ok (some s)
  | .list _      => .error .raised
  | .dict _      => .error .raised

-- A transaction that fails is rolled back.
def transaction {α : Type} (x : Tx α) (times : ℕ → ℤ) (db : Ledger) : Checked α × Ledger :=
  match x ⟨db, times⟩ with
  | .ok a s    => (.ok a, s.db)
  | .error e _ => (.error e, db)

end Executors
