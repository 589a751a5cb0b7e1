import V8AgentOs.Executors.Ledger

-- runtimes/network_supervisor/executors/service.py, with the parts of media.py that it calls.
--
-- `sha256` is the hex digest of a text. Each method is one transaction; `cancel`, `reconcile` and
-- `revoke` are the transaction given here after or before another one.
namespace Executors

open Python

variable (sha256 : List Char → String) (host : Host)

def Grant.json (g : Grant) : Json :=
  .dict [("capability", .str g.capability), ("resourceId", .str g.resourceId)]

-- The command as it is sent, without and with its digest.
def Command.unsigned (c : Command) : Dict :=
  [("type", .str "command"), ("protocolVersion", .int 1), ("commandId", .str c.commandId),
   ("deviceId", .str c.deviceId), ("authorityId", .str c.authorityId), ("bootId", .str c.bootId),
   ("controlSessionId", .str c.controlSessionId), ("capabilityRevision", .int c.capabilityRevision),
   ("leaseEpoch", .int c.leaseEpoch), ("grantRevision", .int c.grantRevision),
   ("issuedUnixMs", .int c.issuedUnixMs), ("deadlineUnixMs", .int c.deadlineUnixMs),
   ("ttlMs", .int c.ttlMs), ("capability", .str c.capability), ("resourceId", .str c.resourceId),
   ("arguments", .dict c.arguments), ("precondition", .dict c.precondition),
   ("traceRef", .dict c.traceRef)]

def Command.json (c : Command) : Dict :=
  c.unsigned ++ [("commandDigest", .str c.commandDigest)]

-- `digest` of a dict without a `commandDigest`
def digest (command : Dict) : String :=
  sha256 (canonical command)

def Command.sign (c : Command) : Command :=
  { c with commandDigest := digest sha256 c.unsigned }

def isCommand (id : String) (r : Row) : Bool := r.commandId = id

def identity (device : String) (owner : Option String := none) : Tx Identity := do
  match (← ledger).identities.find? fun i => i.deviceId = device with
  | none   => throw (.error "executor_revoked" 401)
  | some i => do
    checked (require (!i.revoked) "executor_revoked" 401)
    checked (require (i.ownerId = host.owner) "executor_owner_changed" 401)
    inCase owner.isSome (checked (require (owner = some i.ownerId) "executor_not_found" 404))
    return i

def connection (device : String) : Tx Connection := return (← ledger).connections device

-- The capabilities of a device class.
def permitted (deviceClass : String) : List String :=
  if deviceClass = "android" then
    ["device.health", "android.observe", "android.capture", "android.action"]
  else ["device.health", "sensor.read", "actuator.set"]

-- Queued work is provably unsent; a sent command may have acted.
def uncertain (device reason : String) : Tx Unit := do
  let t ← now
  updateCommands (fun r => r.deviceId = device && (r.state = .authorized || r.state = .queued))
    fun r => { r with state := .cancelled, cancelRequested := true, updatedAt := t }
  let t ← now
  updateCommands (fun r => r.deviceId = device &&
      (r.state = .sent || r.state = .received || r.state = .started))
    fun r => { r with state := .unknownOutcome, updatedAt := t, reconciliationNote := some reason }

def grant (owner device : String) (expected allowed : Json) : Tx Unit := do
  let allowed ← checked (grants allowed)
  let i ← identity host device owner
  checked (require (allowed.all fun g => (permitted i.deviceClass).contains g.capability)
    "device_class_capability_mismatch" 400)
  let c ← connection device
  checked (require (match expected with | .int n => n = c.grantRevision | _ => false)
    "grant_revision_conflict")
  updateConnection device fun c =>
    { c with
      grants := allowed
      grantRevision := c.grantRevision + 1
      online := false
      leaseUntil := 0 }
  uncertain device "grant_changed"

-- `ExecutorIdentities.revoke`
def revokeIdentity (owner device : String) : Tx Unit := do
  match (← ledger).identities.find? fun i => i.deviceId = device && i.ownerId = owner with
  | none   => throw (.error "executor_not_found" 404)
  | some _ => do
    checked (require (owner = host.owner) "executor_not_found" 404)
    update fun db => { db with
      identities := db.identities.map fun i => if i.deviceId = device then { i with revoked := true } else i }

def revoke (device : String) : Tx Unit := do
  updateConnection device fun c => { c with online := false, leaseUntil := 0 }
  uncertain device "revoked"

def hello (principal : Identity) (payload : Dict) : Tx ℤ := do
  checked (require ((payload.get "type").eq (.str "hello") &&
    match payload.get "protocolVersion" with | .int n => n = 1 | _ => false)
    "protocol_version_invalid" 400)
  checked (require ((payload.get "deviceId").eq (.str principal.deviceId) &&
    (payload.get "authorityId").eq (.str principal.authorityId)) "channel_identity_mismatch" 403)
  checked (require (match payload.get "localEnabled" with | .bool b => b | _ => false)
    "executor_not_armed" 403)
  let bootId ← checked (identifier (payload.get "bootId"))
  let sessionId ← checked (identifier (payload.get "controlSessionId"))
  let revision ←
    checked (integer (payload.get "capabilityRevision") 1 maxExact "capability_revision_invalid")
  let capabilities ← checked (grants (payload.get "capabilities"))
  checked (require (capabilities.all fun g => (permitted principal.deviceClass).contains g.capability)
    "device_class_capability_mismatch" 400)
  let device := principal.deviceId
  let _ ← identity host device
  let c ← connection device
  uncertain device "reconnected_query_required"
  let t ← now
  updateConnection device fun old =>
    { old with
      epoch := c.epoch + 1
      hello := some ⟨device, principal.authorityId, bootId, sessionId, revision, capabilities⟩
      leaseUntil := t + leaseMs
      online := true }
  return c.epoch + 1

def current (device : String) (epoch : ℤ) : Tx Connection := do
  let _ ← identity host device
  let c ← connection device
  let t ← now
  checked (require (c.epoch = epoch && c.online && t < c.leaseUntil) "connection_fenced")
  return c

def renew (device : String) (epoch : ℤ) : Tx Unit := do
  let _ ← current host device epoch
  let t ← now
  updateConnection device fun c => { c with leaseUntil := t + leaseMs }

def disconnect (device : String) (epoch : ℤ) : Tx Unit := do
  let c ← connection device
  if c.epoch = epoch then
    updateConnection device fun c => { c with online := false, leaseUntil := 0 }
    uncertain device "disconnected"
  else return ()

def mediaId? (s : String) : Bool :=
  "media_".toList.isPrefixOf s.toList && s.length = 38 &&
  (s.toList.drop 6).all fun c => ('0' ≤ c && c ≤ '9') || ('a' ≤ c && c ≤ 'f')

-- `ExecutorMedia.validate_frame`
def validateFrame (commandId : String) (observation : Dict) (accepted : Bool := false) : Tx Media := do
  let frame ← orEmpty (observation.get "frame")
  let id ← checked (queryText (frame.get "mediaId"))
  match (← ledger).media.find? fun m => some m.mediaId = id && m.commandId = commandId with
  | none   => throw (.error "media_frame_unavailable" 409)
  | some m => do
    let allowed := if accepted then m.state = .accepted || m.state = .published else m.state = .uploaded
    checked (require allowed "media_frame_unavailable")
    let t ← now
    checked (require (t < m.expiresAt) "media_frame_unavailable")
    let supplied := observation.filter (·.1 ≠ "frame") ++
      [("frame", .dict (frame.filter (·.1 ≠ "mediaId")))]
    let kept ← checked (item m.manifest "observation")
    checked (require (canonical supplied == kept.dumps) "frame_observation_mismatch" 403)
    checked (require (mediaId? m.mediaId) "media_not_found" 404)
    checked (require (host.isFile m.mediaId) "media_frame_gone" 410)
    return m

-- `ExecutorMedia.current_command`
def currentCommand (device commandId commandDigest : String) : Tx Unit := do
  match (← ledger).commands.find? fun r => isCommand commandId r && r.deviceId = device with
  | none   => throw (.error "command_not_found" 404)
  | some r => do
    checked (require (r.body.commandDigest = commandDigest) "command_digest_mismatch" 403)
    let t ← now
    checked (require ((r.state = .received || r.state = .started) && !r.cancelRequested &&
      t < r.body.deadlineUnixMs) "media_command_not_current")
    let c ← current host device r.body.leaseEpoch
    checked (require (r.body.grantRevision = c.grantRevision) "grant_revision_stale" 403)
    match c.hello with
    | none   => throw .raised
    | some h => do
      checked (require (r.body.bootId = h.bootId && r.body.controlSessionId = h.controlSessionId &&
        r.body.capabilityRevision = h.capabilityRevision) "capture_session_stale")
      let wanted : Grant := ⟨"android.capture", r.body.resourceId⟩
      checked (require (c.grants.contains wanted && h.capabilities.contains wanted)
        "capture_not_granted" 403)

-- The keys of an observation that a gesture, and another action, is anchored to.
def anchorKeys (gesture : Bool) : List String :=
  if gesture then ["appId", "windowId", "geometryRevision", "rotation", "viewport", "width", "height"]
  else ["appId", "windowId", "nodeMapRevision"]

-- The observation that a precondition names, found in a row of `_observation_current`.
def anchored (device : String) (h : Hello) (precondition : Dict) (gesture : Bool) (r : Row)
    (observation : Dict) : Tx Unit := do
  let t ← now
  checked (require (t - r.updatedAt ≤ 10000) "observation_expired")
  let t ← now
  checked (require (match observation.get "observedUnixMs" with
    | .int observed => -1000 ≤ t - observed && t - observed ≤ 10000
    | _             => false) "observation_expired")
  checked (require ((observation.get "deviceId").eq (.str h.deviceId) &&
    (observation.get "bootId").eq (.str h.bootId) &&
    (observation.get "controlSessionId").eq (.str h.controlSessionId)) "observation_session_stale")
  checked (require ((anchorKeys gesture).all fun k => (observation.get k).eq (precondition.get k))
    "observation_target_stale")
  if gesture then
    checked (require ((observation.get "captureScope").eq (.str "window"))
      "gesture_requires_window_capture" 403)
    let frame ← orEmpty (observation.get "frame")
    checked (require ((frame.get "frameId").eq (precondition.get "frameId")) "frame_mismatch")
    let _ ← validateFrame host r.commandId observation true
    let c ← connection device
    checked (require (r.body.leaseEpoch = c.epoch && r.body.grantRevision = c.grantRevision)
      "observation_authority_stale")
  else return ()

def searchObservation (device : String) (h : Hello) (precondition : Dict) (gesture : Bool) :
    List Row → Tx Unit
  | []      => throw (.error "observation_not_found" 409)
  | r :: rs => do
    let observation ← orEmpty (Dict.get (r.receipt.getD []) "observation")
    let same := (observation.get "observationId").eq (precondition.get "observationId")
    if (observation.get "resourceId").eq (precondition.get "resourceId") && !same then
      throw (.error "observation_superseded" 409)
    else if same then anchored host device h precondition gesture r observation
    else searchObservation device h precondition gesture rs

-- `_observation_current`: the sixteen latest successes of the device, newest first.
def observationCurrent (device : String) (h : Hello) (precondition : Dict) (gesture : Bool) :
    Tx Unit := do
  let rows := (← ledger).commands.filter fun r =>
    r.deviceId = device && r.state = .succeeded && r.receipt.isSome
  let newest := rows.reverse.insertionSort fun a b => b.updatedAt ≤ a.updatedAt
  searchObservation host device h precondition gesture (newest.take 16)

-- Orphaned commands that were never approved cannot reserve the device forever.
def expirePending : List Row → Tx Unit
  | []      => return ()
  | r :: rs => do
    let t ← now
    inCase (r.body.deadlineUnixMs ≤ t) do
      let t ← now
      updateCommands (isCommand r.commandId) fun r => { r with state := .expired, updatedAt := t }
    expirePending rs

-- What `create` requires of the device and the other commands before it inserts a new one.
def admission (device : String) (a : Action) : Tx (Connection × Hello) := do
  let pending := (← ledger).commands.filter fun r =>
    r.deviceId = device && (r.state = .authorized || r.state = .queued)
  expirePending pending
  let c ← connection device
  let _ ← current host device c.epoch
  match c.hello with
  | none   => throw .raised
  | some h => do
    let wanted : Grant := ⟨a.capability, a.resource⟩
    checked (require (c.grants.contains wanted && h.capabilities.contains wanted)
      "capability_not_granted" 403)
    let display : Grant := ⟨"android.capture", "display"⟩
    inCase (a.capability = "android.capture" &&
        (a.arguments.get "scope" (.str "window")).eq (.str "display"))
      (checked (require (c.grants.contains display && h.capabilities.contains display)
        "display_capture_not_granted" 403))
    let rows := (← ledger).commands
    checked (require (!rows.any fun r => r.deviceId = device && !r.state.terminal) "device_busy")
    inCase (mutating.contains a.capability)
      (checked (require (!rows.any fun r =>
        r.deviceId = device && r.state = .unknownOutcome && !r.reconciled)
        "outcome_reconciliation_required"))
    inCase (a.capability = "android.action") do
      checked (require ((a.precondition.get "deviceId").eq (.str h.deviceId) &&
        (a.precondition.get "bootId").eq (.str h.bootId) &&
        (a.precondition.get "controlSessionId").eq (.str h.controlSessionId) &&
        (a.precondition.get "resourceId").eq (.str a.resource)) "observation_session_stale")
      let gesture := match a.arguments.get "action" with
        | .str operation => gestures.contains operation
        | _              => false
      observationCurrent host device h a.precondition gesture
    return (c, h)

-- The command that a request becomes.
def newCommand (id : String) (a : Action) (ttl : ℤ) (trace : Dict) (c : Connection) (h : Hello)
    (t : ℤ) : Command :=
  Command.sign sha256
    { commandId := id
      deviceId := h.deviceId
      authorityId := h.authorityId
      bootId := h.bootId
      controlSessionId := h.controlSessionId
      capabilityRevision := h.capabilityRevision
      leaseEpoch := c.epoch
      grantRevision := c.grantRevision
      issuedUnixMs := t
      deadlineUnixMs := min (t + ttl) c.leaseUntil
      ttlMs := ttl
      capability := a.capability
      resourceId := a.resource
      arguments := a.arguments
      precondition := a.precondition
      traceRef := trace
      commandDigest := "" }

def newRow (device owner request : String) (c : Command) (t : ℤ) : Row where
  commandId := c.commandId
  deviceId := device
  ownerId := owner
  requestDigest := request
  body := c
  state := .authorized
  receiptSeq := 0
  receipt := none
  cancelRequested := false
  reconciled := false
  reconciliationNote := none
  createdAt := t
  updatedAt := t

def create (owner device : String) (commandId capability resource arguments precondition ttlMs
    trace : Json) : Tx Row := do
  let id ← checked (identifier commandId)
  let a ← checked (action capability resource arguments precondition)
  let ttl ← checked (integer ttlMs 1 maxTtlMs "ttl_invalid")
  let trace ← checked (asDict trace)
  checked (require ((trace.get "runId").truthy && (trace.get "episodeId").truthy)
    "runtime_trace_required" 400)
  let request := digest sha256
    [("device", .str device), ("capability", .str a.capability), ("resource", .str a.resource),
     ("arguments", .dict a.arguments), ("precondition", .dict a.precondition), ("ttlMs", .int ttl),
     ("traceRef", .dict trace)]
  let _ ← identity host device owner
  match (← ledger).commands.find? (isCommand id) with
  | some old => do
    checked (require (old.ownerId = owner && old.requestDigest = request) "command_id_conflict")
    return old
  | none     => do
    let (c, h) ← admission host device a
    let t ← now
    let row := newRow device owner request (newCommand sha256 id a ttl trace c h t) t
    update fun db => { db with commands := db.commands ++ [row] }
    return row

-- `_command`
def command (owner commandId : String) : Tx Row := do
  match (← ledger).commands.find? fun r => isCommand commandId r && r.ownerId = owner with
  | none   => throw (.error "command_not_found" 404)
  | some r => do
    checked (require (owner = host.owner) "command_not_found" 404)
    return r

def activate (owner commandId : String) : Tx Unit := do
  let r ← command host owner commandId
  if r.state = .authorized then
    let t ← now
    updateCommands (isCommand commandId) fun r => { r with state := .queued, updatedAt := t }
  else return ()

def outbound (device : String) (epoch : ℤ) : Tx (List Command) := do
  let c ← current host device epoch
  let queued := (← ledger).commands.filter fun r => r.deviceId = device && r.state = .queued
  match queued.insertionSort (fun a b => a.createdAt ≤ b.createdAt) with
  | []     => return []
  | r :: _ => do
    let t ← now
    if r.body.leaseEpoch = epoch && r.body.grantRevision = c.grantRevision &&
        t < r.body.deadlineUnixMs then
      let t ← now
      updateCommands (isCommand r.commandId) fun r => { r with state := .sent, updatedAt := t }
      return [r.body]
    else
      let t ← now
      updateCommands (isCommand r.commandId) fun r => { r with state := .expired, updatedAt := t }
      return []

-- `queries` and `controls`: what is asked of a device after it reconnects, and while it works.
def queries (device : String) (db : Ledger) : List String :=
  let rows := db.commands.filter fun r =>
    r.deviceId = device && r.state = .unknownOutcome && !r.reconciled
  ((rows.insertionSort fun a b => b.createdAt ≤ a.createdAt).take 64).map (·.commandId)

def controls (device : String) (epoch : ℤ) : Tx (List (String × String)) := do
  let _ ← current host device epoch
  let rows := (← ledger).commands.filter fun r => r.deviceId = device && r.cancelRequested &&
    (r.state = .sent || r.state = .received || r.state = .started)
  return rows.map fun r => (r.body.commandId, r.body.commandDigest)

def reportable (status : State) : Bool :=
  status.terminal || status = .received || status = .started

def statusOf (value : Json) : Option State :=
  match value with
  | .str s => State.all.find? fun x => x.name = s && reportable x
  | _      => none

-- The fields of a receipt that name its command.
def identifies (payload : Dict) (c : Command) : Bool :=
  (payload.get "commandDigest").eq (.str c.commandDigest) &&
  (payload.get "deviceId").eq (.str c.deviceId) &&
  (payload.get "authorityId").eq (.str c.authorityId) &&
  (payload.get "bootId").eq (.str c.bootId) &&
  (payload.get "controlSessionId").eq (.str c.controlSessionId) &&
  (payload.get "leaseEpoch").eq (.int c.leaseEpoch) &&
  (payload.get "grantRevision").eq (.int c.grantRevision)

-- What `receipt` does with the frame of an observation.
def acceptFrame (device : String) (r : Row) (status : State) (observation : Dict) : Tx Unit := do
  let _ ← validateFrame host r.commandId observation
  currentCommand host device r.commandId r.body.commandDigest
  checked (require (status = .succeeded) "frame_requires_completed_capture")
  let t ← now
  let frame ← checked (asDict (observation.get "frame"))
  let id ← checked (item frame "mediaId")
  let id ← checked (queryText id)
  update fun db => { db with
    media := db.media.map fun m =>
      if some m.mediaId = id then { m with state := .accepted, expiresAt := t + 24 * 60 * 60 * 1000 }
      else m }

def checkObservation (device : String) (r : Row) (status : State) (payload : Dict) : Tx Unit := do
  let observation := payload.get "observation"
  inCase (r.body.capability = "android.capture" && status = .succeeded)
    (checked (require (match observation with
      | .dict d => match Dict.get d "frame" with | .dict _ => true | _ => false
      | _       => false) "capture_frame_required"))
  match observation with
  | .null   => return ()
  | .dict d => do
    checked (require ((Dict.get d "deviceId").eq (.str r.body.deviceId) &&
      (Dict.get d "bootId").eq (.str r.body.bootId) &&
      (Dict.get d "controlSessionId").eq (.str r.body.controlSessionId) &&
      (Dict.get d "resourceId").eq (.str r.body.resourceId)) "observation_identity_mismatch" 403)
    match Dict.get d "frame" with
    | .null => return ()
    | _     => acceptFrame host device r status d
  | _       => throw (.error "observation_invalid" 400)

-- Late progress cannot revive a command whose outcome is unknown.
def effective (state status : State) : State :=
  if state = .unknownOutcome && !status.terminal then .unknownOutcome else status

-- A new receipt of a command that is found under its identity.
def accept (device : String) (r : Row) (status : State) (seq : ℤ) (payload : Dict) : Tx Unit := do
  checked (require (r.receiptSeq < seq) "receipt_sequence_stale")
  checked (require (!(r.state = .authorized || r.state = .queued || r.state = .expired))
    "receipt_for_unsent_command")
  checked (require (!(r.state.terminal && r.state ≠ .unknownOutcome) || status = r.state)
    "terminal_receipt_conflict")
  checked (require (!(r.state = .started && status = .received)) "receipt_state_regression")
  checkObservation host device r status payload
  let t ← now
  update fun db => { db with
    receipts := db.receipts ++ [⟨r.commandId, seq, canonical payload, t⟩] }
  let t ← now
  updateCommands (isCommand r.commandId) fun old =>
    { old with
      state := effective r.state status
      receiptSeq := seq
      receipt := some payload
      updatedAt := t }

def receipt (device : String) (epoch : ℤ) (payload : Dict) : Tx Unit := do
  checked (require ((match payload.get "protocolVersion" with | .int n => n = 1 | _ => false) &&
    (payload.get "type").eq (.str "receipt")) "receipt_invalid" 400)
  match statusOf (payload.get "status") with
  | none        => throw (.error "receipt_status_invalid" 400)
  | some status => do
    let seq ← checked (integer (payload.get "receiptSeq") 1 maxExact "receipt_sequence_invalid")
    let _ ← checked (integer (payload.get "deviceMonotonicMs") 0 maxExact "receipt_time_invalid")
    let _ ← current host device epoch
    let id ← checked (queryText (payload.get "commandId"))
    match (← ledger).commands.find? fun r => some r.commandId = id && r.deviceId = device with
    | none   => throw (.error "command_not_found" 404)
    | some r => do
      checked (require (identifies payload r.body) "receipt_identity_mismatch" 403)
      match (← ledger).receipts.find? fun p => p.commandId = r.commandId && p.seq = seq with
      | some old => checked (require (old.body == canonical payload) "receipt_sequence_conflict")
      | none     => accept host device r status seq payload

-- `status`; the artifact that it publishes afterwards is no part of the ledger.
def status (owner commandId : String) : Tx Row := do
  let r ← command host owner commandId
  let t ← now
  if !r.state.terminal && r.body.deadlineUnixMs ≤ t then
    let state := if r.state = .authorized || r.state = .queued then State.expired else .unknownOutcome
    let t ← now
    updateCommands (isCommand commandId) fun r =>
      { r with state := state, cancelRequested := true, updatedAt := t }
    command host owner commandId
  else return r

def cancel (owner commandId : String) : Tx Unit := do
  let r ← command host owner commandId
  let state := if r.state = .authorized || r.state = .queued then .cancelled else r.state
  let t ← now
  updateCommands (isCommand commandId) fun r =>
    { r with state := state, cancelRequested := true, updatedAt := t }

def reconcile (owner commandId : String) (note : Json) : Tx Unit := do
  match note with
  | .str note => do
    checked (require (1 ≤ note.length && note.length ≤ 1000) "reconciliation_note_required" 400)
    let r ← command host owner commandId
    checked (require (r.state = .unknownOutcome) "reconciliation_not_ready")
    let t ← now
    checked (require (r.body.deadlineUnixMs ≤ t) "reconciliation_not_ready")
    updateCommands (isCommand commandId) fun r =>
      { r with reconciled := true, reconciliationNote := some note }
  | _         => throw (.error "reconciliation_note_required" 400)

end Executors
