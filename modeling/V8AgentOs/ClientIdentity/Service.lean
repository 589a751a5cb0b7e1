import Mathlib.Algebra.Order.Field.Rat
import Mathlib.Algebra.Order.Floor.Ring
import Mathlib.Data.Rat.Floor
import V8AgentOs.Executors.Ledger

-- core/client_identity/service.py: the device credentials in `state.db`.
--
-- What lies outside of the service is a parameter: the cryptography and the text of a timestamp
-- are in `Host`, and what one call reads from the clock, the random source, the owner's file and
-- the configuration is in `World`.
namespace ClientIdentity

open Python (Json Dict quotedAscii take)

-- `IdentityError`, one of the exceptions that `verify_access` turns into `None`, or another one.
inductive Error
  | identity (code : String) (status : ℕ)
  | value
  | raised
  deriving DecidableEq, Repr

def accessTtl : ℤ := 15 * 60

def refreshTtl : ℚ := 30 * 24 * 60 * 60

def replayTtl : ℚ := 60

-- `client_devices`
structure Device where
  id                : String
  userId            : String
  familyId          : String
  sessionIdentifier : String
  name              : String
  surface           : String
  hidden            : Bool
  createdAt         : ℚ
  expiresAt         : ℚ
  lastUsedAt        : Option ℚ
  revokedAt         : Option ℚ
  legacyUntil       : ℚ
  deriving DecidableEq

-- `client_refresh_tokens`
structure RefreshToken where
  tokenHash  : String
  deviceId   : String
  generation : ℕ
  expiresAt  : ℚ
  consumedAt : Option ℚ
  deriving DecidableEq

-- `client_pairing_tickets`
structure Ticket where
  id         : String
  codeHash   : String
  instanceId : String
  ownerId    : String
  surface    : String
  baseUrl    : String
  deviceName : String
  expiresAt  : ℚ
  consumedAt : Option ℚ
  revokedAt  : Option ℚ
  deriving DecidableEq

-- `client_refresh_replays`, over an arbitrary type of encrypted results
structure Replay (κ : Type) where
  tokenHash       : String
  rotationId      : String
  requestDigest   : String
  expiresAt       : ℚ
  encryptedResult : κ

structure Db (κ : Type) where
  devices : List Device
  tokens  : List RefreshToken
  tickets : List Ticket
  replays : List (Replay κ)

-- The row of the owner in `users.json`
structure Owner where
  id                : String
  login             : String
  role              : String
  email             : String
  sessionIdentifier : String
  deriving DecidableEq

-- `session_identifier`
def Owner.session (o : Owner) : String :=
  if o.sessionIdentifier ≠ "" then o.sessionIdentifier
  else if o.email ≠ "" then o.email
  else o.login

-- `EngineAuthContext`
structure Context where
  subject    : String
  sessionId  : String
  login      : String
  role       : String
  deviceId   : String
  issuedAt   : ℤ
  expiresAt  : ℤ
  issuer     : Json
  audience   : Json
  authMethod : String
  surface    : String
  deviceKind : String

def deviceKind (device : Device) : String :=
  if device.hidden then "local_client" else "human_phone"

-- What `_pair` returns
structure Pair where
  accessToken           : String
  accessTokenExpiresAt  : String
  refreshToken          : String
  refreshTokenExpiresAt : String
  deviceId              : String
  user                  : Json

structure Paired extends Pair where
  instanceId   : String
  surface      : String
  adminBaseUrl : String
  linkManifest : Json

-- Keys, cryptography and encodings. `encrypt` is `AESGCM.encrypt` on the JSON text of a pair, with the
-- nonce before it and in Base64, and `decrypt` is its inverse; both take the associated data.
structure Host (κ : Type) where
  signing   : String
  sha256    : String → String
  mac       : String → String → List UInt8
  encode    : List UInt8 → String
  decode    : String → Option (List UInt8)
  jsonText  : Json → List UInt8
  loads     : List UInt8 → Option Json
  encrypt   : String → String → Pair → κ
  decrypt   : String → κ → Option Pair
  timestamp : ℚ → String

structure World where
  ready      : Except Error Unit
  bootstrap  : Except Error Unit
  now        : ℚ
  owner      : Except Error Owner
  instanceId : Except Error String
  uuid       : String
  token      : String
  nonce      : String
  clientUser : Context → Except Error Json
  manifest   : String → Except Error Json

variable {κ : Type} (host : Host κ) (w : World)

def Host.hashRefresh (token : String) : String :=
  host.sha256 (host.signing ++ ":" ++ token)

-- The digest of `json.dumps({"deviceName": device_name}, sort_keys=True)`
def Host.requestDigest (deviceName : String) : String :=
  host.sha256 (String.ofList ("\x7b\"deviceName\": ".toList ++ quotedAscii deviceName ++ ['\x7d']))

-- `int(now)`
def World.seconds : ℤ :=
  if 0 ≤ w.now then ⌊w.now⌋ else ⌈w.now⌉

def jwtHeader : Json :=
  .dict [("alg", .str "HS256"), ("typ", .str "JWT")]

def audience (device : Device) : String :=
  if device.hidden then "v8-local" else "v8-client"

-- A transaction that stops with an error is rolled back.
abbrev Tx (κ : Type) := EStateM Error (Db κ)

def transaction {α : Type} (x : Tx κ α) (db : Db κ) : Except Error α × Db κ :=
  match x db with
  | .ok a db'  => (.ok a, db')
  | .error e _ => (.error e, db)

section Statements

def lift {α : Type} : Except Error α → Tx κ α
  | .ok a    => pure a
  | .error e => throw e

-- The primary key refuses a row.
def insertDevice (d : Device) : Tx κ Unit := do
  let db ← get
  if db.devices.any (·.id = d.id) then throw .raised
  else set { db with devices := db.devices ++ [d] }

def insertToken (r : RefreshToken) : Tx κ Unit := do
  let db ← get
  if db.tokens.any (·.tokenHash = r.tokenHash) then throw .raised
  else set { db with tokens := db.tokens ++ [r] }

def insertReplay (p : Replay κ) : Tx κ Unit := do
  let db ← get
  if db.replays.any (·.tokenHash = p.tokenHash) then throw .raised
  else set { db with replays := db.replays ++ [p] }

def Db.updateDevice (db : Db κ) (id : String) (f : Device → Device) : Db κ :=
  { db with devices := db.devices.map fun d => if d.id = id then f d else d }

def Db.consume (db : Db κ) (tokenHash : String) (now : ℚ) : Db κ :=
  { db with tokens := db.tokens.map fun r =>
      if r.tokenHash = tokenHash then { r with consumedAt := some now } else r }

def Db.device? (db : Db κ) (id : String) : Option Device :=
  db.devices.find? (·.id = id)

-- A token joined with its device
def Db.token? (db : Db κ) (tokenHash : String) : Option (RefreshToken × Device) :=
  (db.tokens.find? (·.tokenHash = tokenHash)).bind fun r => (db.device? r.deviceId).map (r, ·)

end Statements

-- `_access`
def access (owner : Owner) (deviceId : String) (aud : String) : Except Error (String × String) := do
  let iss ← w.instanceId
  let exp := w.seconds + accessTtl
  let claims : Json := .dict [("type", .str "client_access"), ("sub", .str owner.id), ("sid", .str owner.session),
    ("did", .str deviceId), ("iat", .int w.seconds), ("exp", .int exp), ("iss", .str iss), ("aud", .str aud)]
  let header := host.encode (host.jsonText jwtHeader)
  let payload := host.encode (host.jsonText claims)
  let signature := host.encode (host.mac host.signing (header ++ "." ++ payload))
  return (header ++ "." ++ payload ++ "." ++ signature, host.timestamp exp)

-- `_pair`
def pair (owner : Owner) (deviceId : String) (generation : ℕ) : Tx κ Pair := do
  insertToken {
    tokenHash  := host.hashRefresh w.token
    deviceId
    generation
    expiresAt  := w.now + refreshTtl
    consumedAt := none
  }
  modify (·.updateDevice deviceId fun d => { d with expiresAt := w.now + refreshTtl, lastUsedAt := some w.now })
  match (← get).device? deviceId with
  | none => throw .raised
  | some device =>
    let (accessToken, expiry) ← lift (access host w owner deviceId (audience device))
    let issuer ← lift w.instanceId
    let user ← lift (w.clientUser {
      subject    := owner.id
      sessionId  := owner.session
      login      := owner.login
      role       := owner.role
      deviceId
      issuedAt   := w.seconds
      expiresAt  := w.seconds + accessTtl
      issuer     := .str issuer
      audience   := .str (audience device)
      authMethod := "mobile_bearer"
      surface    := device.surface
      deviceKind := deviceKind device
    })
    return {
      accessToken
      accessTokenExpiresAt  := expiry
      refreshToken          := w.token
      refreshTokenExpiresAt := host.timestamp (w.now + refreshTtl)
      deviceId
      user
    }

def localSurfaces : List String := ["web", "cyber", "desktop_pet", "cli", "admin", "shell"]

-- The row of a device that is created at the time of the call
def World.newDevice (owner : Owner) (name surface : String) (hidden : Bool) : Device where
  id                := w.uuid
  userId            := owner.id
  familyId          := w.uuid
  sessionIdentifier := owner.session
  name              := take 200 name
  surface           := surface
  hidden            := hidden
  createdAt         := w.now
  expiresAt         := w.now + refreshTtl
  lastUsedAt        := some w.now
  revokedAt         := none
  legacyUntil       := 0

-- The device of a hidden session that is still in use
def Db.hiddenDevice? (db : Db κ) (userId surface : String) (now : ℚ) : Option Device :=
  db.devices.find? fun d =>
    d.userId = userId ∧ d.surface = surface ∧ d.hidden ∧ d.revokedAt = none ∧ now < d.expiresAt

-- `SELECT COALESCE(MAX(generation),0)+1`
def Db.nextGeneration (db : Db κ) (deviceId : String) : ℕ :=
  ((db.tokens.filter (·.deviceId = deviceId)).map (·.generation)).foldr max 0 + 1

-- `DELETE FROM client_refresh_tokens WHERE device_id=? AND expires_at<=?`
def Db.dropExpired (db : Db κ) (deviceId : String) (now : ℚ) : Db κ :=
  { db with tokens := db.tokens.filter fun r => ¬(r.deviceId = deviceId ∧ r.expiresAt ≤ now) }

def openSession (owner : Owner) (name surface : String) (hidden : Bool) : Tx κ Pair := do
  let db ← get
  match if hidden then db.hiddenDevice? owner.id surface w.now else none with
  | some existing =>
    let generation := db.nextGeneration existing.id
    set (db.dropExpired existing.id w.now)
    pair host w owner existing.id generation
  | none =>
    insertDevice (w.newDevice owner name surface hidden)
    pair host w owner w.uuid 0

def createSession (name surface : String) (hidden : Bool) (db : Db κ) : Except Error Pair × Db κ :=
  if (hidden ∧ surface ∉ localSurfaces) ∨ (¬hidden ∧ surface ≠ "phone") then
    (.error (.identity "unsupported_identity_surface" 400), db)
  else
    let before : Except Error Owner := do
      w.ready
      if hidden then w.bootstrap
      w.owner
    match before with
    | .error e  => (.error e, db)
    | .ok owner => transaction (openSession host w owner name surface hidden) db

-- `value or default`
def orElse (value default : String) : String :=
  if value ≠ "" then value else default

def takeTicket (owner : Owner) (code instanceId deviceName : String) : Tx κ Paired := do
  match (← get).tickets.find? (·.codeHash = host.sha256 code) with
  | none => throw (.identity "pairing_ticket_invalid" 400)
  | some row =>
    if row.revokedAt.any (· ≠ 0) then throw (.identity "pairing_ticket_invalid" 400)
    else if row.consumedAt.isSome then throw (.identity "pairing_ticket_consumed" 410)
    else if row.expiresAt ≤ w.now then throw (.identity "pairing_ticket_expired" 410)
    else if instanceId ≠ row.instanceId then throw (.identity "pairing_instance_mismatch" 400)
    else
      let own ← lift w.instanceId
      if instanceId ≠ own then throw (.identity "pairing_instance_mismatch" 400)
      else if row.surface ≠ "phone" ∨ row.ownerId ≠ owner.id then
        throw (.identity "pairing_owner_unavailable" 401)
      else
        modify fun db => { db with tickets := db.tickets.map fun t =>
          if t.id = row.id ∧ t.consumedAt = none then { t with consumedAt := some w.now } else t }
        insertDevice (w.newDevice owner (orElse (orElse deviceName row.deviceName) "V8 Phone") "phone" false)
        let p ← pair host w owner w.uuid 0
        let manifest ← lift (w.manifest row.baseUrl)
        return { p with instanceId, surface := "phone", adminBaseUrl := row.baseUrl, linkManifest := manifest }

def consumeTicket (code instanceId deviceName : String) (db : Db κ) : Except Error Paired × Db κ :=
  let before : Except Error Owner := do
    w.ready
    w.owner
  match before with
  | .error e  => (.error e, db)
  | .ok owner => transaction (takeTicket host w owner code instanceId deviceName) db

-- The token was already exchanged: the stored pair is returned to the same request, and any other
-- request revokes the device, for which the result is `none`.
def replayed (record : RefreshToken) (rotationId digest : String) : Tx κ (Option Pair) := do
  let stored := (← get).replays.find? (·.tokenHash = record.tokenHash)
  match stored.filter fun p => rotationId ≠ "" ∧ p.rotationId = rotationId ∧ p.requestDigest = digest with
  | some replay =>
    match host.decrypt (record.tokenHash ++ ":" ++ rotationId) replay.encryptedResult with
    | some p => return some p
    | none   => throw (.identity "refresh_recovery_unavailable" 503)
  | none =>
    modify (·.updateDevice record.deviceId fun d => { d with revokedAt := some w.now })
    return none

def exchange (owner : Owner) (record : RefreshToken) (rotationId deviceName : String) : Tx κ Pair := do
  modify (·.consume record.tokenHash w.now)
  if deviceName ≠ "" then
    modify (·.updateDevice record.deviceId fun d => { d with name := take 200 deviceName })
  let result ← pair host w owner record.deviceId (record.generation + 1)
  if rotationId ≠ "" then
    insertReplay {
      tokenHash       := record.tokenHash
      rotationId
      requestDigest   := host.requestDigest deviceName
      expiresAt       := w.now + replayTtl
      encryptedResult := host.encrypt w.nonce (record.tokenHash ++ ":" ++ rotationId) result
    }
  return result

def rotate (token rotationId deviceName : String) (phoneOnly : Bool) : Tx κ (Option Pair) := do
  modify fun db => { db with replays := db.replays.filter (w.now < ·.expiresAt) }
  match (← get).token? (host.hashRefresh token) with
  | none => throw (.identity "refresh_token_invalid" 401)
  | some (record, device) =>
    if device.revokedAt.isSome ∨ record.expiresAt ≤ w.now then
      throw (.identity "refresh_token_invalid" 401)
    else if phoneOnly ∧ (device.hidden ∨ device.surface ≠ "phone") then
      throw (.identity "phone_device_credential_required" 403)
    else
      let owner ← lift w.owner
      if owner.id ≠ device.userId then throw (.identity "refresh_token_invalid" 401)
      else if record.consumedAt.isSome then
        replayed host w record rotationId (host.requestDigest deviceName)
      else return some (← exchange host w owner record rotationId deviceName)

def refresh (token rotationId deviceName : String) (phoneOnly : Bool) (db : Db κ) : Except Error Pair × Db κ :=
  match w.ready with
  | .error e => (.error e, db)
  | .ok _    =>
    if token = "" ∨ 512 < token.length ∨ 128 < rotationId.length then
      (.error (.identity "refresh_token_invalid" 401), db)
    else
      match transaction (rotate host w token rotationId deviceName phoneOnly) db with
      | (.error e, db')       => (.error e, db')
      | (.ok (some p), db')   => (.ok p, db')
      -- The revocation is committed before the error is raised.
      | (.ok none, db')       => (.error (.identity "refresh_token_replayed" 401), db')

def revoke (subject deviceId : String) (db : Db κ) : Bool × Db κ :=
  let changed (d : Device) : Bool := d.id = deviceId ∧ d.userId = subject ∧ d.revokedAt = none
  if db.devices.any changed then
    (true, { db with
      devices := db.devices.map fun d => if changed d then { d with revokedAt := some w.now } else d
      replays := db.replays.filter fun p =>
        ¬db.tokens.any fun r => r.deviceId = deviceId ∧ r.tokenHash = p.tokenHash })
  else (false, db)

def logout (token : String) (phoneOnly : Bool) (db : Db κ) : Except Error Bool × Db κ :=
  match w.ready with
  | .error e => (.error e, db)
  | .ok _    =>
    match db.token? (host.hashRefresh token) with
    | none => (.ok false, db)
    | some (_, device) =>
      if phoneOnly ∧ (device.hidden ∨ device.surface ≠ "phone") then
        (.error (.identity "phone_device_credential_required" 403), db)
      else
        let (changed, db') := revoke w device.userId device.id db
        (.ok changed, db')

-- `claims[key]`
def claim (claims : Dict) (key : String) : Except Error Json :=
  match claims.lookup key with
  | some v => .ok v
  | none   => .error .value

-- What a JWT that the signing key signed claims
def readClaims (token : String) : Option Dict :=
  match token.toList.splitOn '.' with
  | [header, payload, signature] =>
    let header := String.ofList header
    let payload := String.ofList payload
    match (host.decode header).bind host.loads, (host.decode payload).bind host.loads with
    | some metadata, some (.dict claims) =>
      let expected := host.mac host.signing (header ++ "." ++ payload)
      if metadata.eq jwtHeader ∧ host.decode (String.ofList signature) = some expected then some claims
      else none
    | _, _ => none
  | _ => none

-- A row that is missing, or that is no longer in use
def Device.rejects (device : Device) (current : ℚ) (sub : Json) : Bool :=
  device.revokedAt.isSome || device.expiresAt ≤ current || !sub.eq (.str device.userId)

end ClientIdentity
