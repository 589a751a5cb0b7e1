import V8AgentOs.ClientIdentity.Invariant
import V8AgentOs.ClientIdentity.Steps
import V8AgentOs.Lib.Transition

namespace ClientIdentity

open Hoare (bind_ok)
open Python (Json Dict)

variable {κ : Type} {host : Host κ} {w : World} {db : Db κ} {token id aud : String} {claims : Dict}
  {context : Context} {current : ℚ} {now? : Option ℚ}

-- What an accepted access token was checked for
structure Accepted (host : Host κ) (db : Db κ) (token : String) (current : ℚ) (device : Device) :
    Prop where
  named   : ∃ claims id, readClaims host token = some claims ∧
    Executors.queryText (claims.get "did") = .ok (some id) ∧ db.device? id = some device
  revoked : device.revokedAt = none
  expires : current < device.expiresAt

-- The encodings that make up a JWT: the dot is none of Base64's characters.
structure Host.Encodes (host : Host κ) : Prop where
  decode : ∀ b, host.decode (host.encode b) = some b
  plain  : ∀ b, '.' ∉ (host.encode b).toList
  loads  : ∀ v, host.loads (host.jsonText v) = some v

-- The access token of a pair names the pair's device.
theorem readClaims_access {owner : Owner} {expiry : String} (he : host.Encodes)
    (h : access host w owner id aud = .ok (token, expiry)) :
    ∃ claims, readClaims host token = some claims ∧ claims.get "did" = .str id := by
  have ⟨iss, _, h⟩ := bind_ok h
  simp only [pure, Except.pure, Except.ok.injEq, Prod.mk.injEq] at h
  have ⟨ht, _⟩ := h
  subst ht
  have split (a b c : List UInt8) :
      (host.encode a ++ "." ++ host.encode b ++ "." ++ host.encode c).toList.splitOn '.' =
        [(host.encode a).toList, (host.encode b).toList, (host.encode c).toList] := by
    have joined : (host.encode a ++ "." ++ host.encode b ++ "." ++ host.encode c).toList =
        (host.encode a).toList ++ '.' :: ((host.encode b).toList ++ '.' :: (host.encode c).toList) := by
      simp [String.toList_append]
    rw [joined, List.splitOn_append_cons_self_of_not_mem (he.plain a),
      List.splitOn_append_cons_self_of_not_mem (he.plain b), List.splitOn_eq_singleton (he.plain c)]
  have header : jwtHeader.eq jwtHeader = true := by decide +kernel
  constructor
  constructor
  · unfold readClaims
    rw [split]
    simp only [String.ofList_toList, he.decode, Option.bind_some, he.loads, header, and_self, if_true]
    rfl
  · rfl

end ClientIdentity

namespace ClientIdentity

open Hoare (Triple)
open Python (Json)

inductive Op
  | createSession (name surface : String) (hidden : Bool)
  | consumeTicket (code instanceId deviceName : String)
  | refresh (token rotationId deviceName : String) (phoneOnly : Bool)
  | revoke (subject deviceId : String)
  | logout (token : String) (phoneOnly : Bool)
  -- `create_ticket` and `revoke_ticket`: the table of tickets becomes any other.
  | elsewhere (tickets : List Ticket)

inductive Reply
  | pair (p : Pair)
  | paired (p : Paired)
  | changed (b : Bool)
  | error (e : Error)
  | done

def Reply.pair? : Reply → Option Pair
  | pair p   => some p
  | paired p => some p.toPair
  | _        => none

variable {κ : Type}

def answer {α : Type} (f : α → Reply) : Except Error α × Db κ → Reply × Db κ
  | (.ok a, db)    => (f a, db)
  | (.error e, db) => (.error e, db)

def Op.run (host : Host κ) (w : World) (db : Db κ) : Op → Reply × Db κ
  | createSession name surface hidden =>
    answer .pair (ClientIdentity.createSession host w name surface hidden db)
  | consumeTicket code instanceId deviceName =>
    answer .paired (ClientIdentity.consumeTicket host w code instanceId deviceName db)
  | refresh token rotationId deviceName phoneOnly =>
    answer .pair (ClientIdentity.refresh host w token rotationId deviceName phoneOnly db)
  | revoke subject deviceId =>
    let (b, db') := ClientIdentity.revoke w subject deviceId db
    (.changed b, db')
  | logout token phoneOnly => answer .changed (ClientIdentity.logout host w token phoneOnly db)
  | elsewhere tickets => (.done, { db with tickets })

-- A row of the legacy file that `initialize` imports
structure LegacyRow where
  id                : String
  tokenHash         : String
  sessionIdentifier : String
  deviceName        : String
  surface           : String
  hidden            : Bool
  createdEpoch      : ℚ
  expiresEpoch      : ℚ
  lastUsedEpoch     : Option ℚ

def LegacyRow.device (owner : Owner) (now : ℚ) (row : LegacyRow) : Device where
  id                := row.id
  userId            := owner.id
  familyId          := row.id
  sessionIdentifier := row.sessionIdentifier
  name              := orElse row.deviceName "V8 client"
  surface           := orElse row.surface "phone"
  hidden            := row.hidden
  createdAt         := row.createdEpoch
  expiresAt         := row.expiresEpoch
  lastUsedAt        := row.lastUsedEpoch
  revokedAt         := none
  legacyUntil       := min row.expiresEpoch (now + 86400)

def LegacyRow.token (row : LegacyRow) : RefreshToken where
  tokenHash  := row.tokenHash
  deviceId   := row.id
  generation := 0
  expiresAt  := row.expiresEpoch
  consumedAt := none

-- The database after `initialize`. Primary keys refuse an import with duplicates.
def imported (owner : Owner) (now : ℚ) (rows : List LegacyRow) : Db κ where
  devices := rows.map (·.device owner now)
  tokens  := rows.map (·.token)
  tickets := []
  replays := []

structure Event where
  op    : Op
  world : World
  reply : Reply

-- The database, and the hashes of the refresh tokens that there ever were
structure State (κ : Type) where
  db    : Db κ
  drawn : List String

-- Each call is one transaction, with any clock. The random source never repeats a token.
def system (host : Host κ) : Transition (State κ) Event where
  init s := ∃ owner now rows, (rows.map LegacyRow.id).Nodup ∧ (rows.map LegacyRow.tokenHash).Nodup ∧
    s = ⟨imported owner now rows, rows.map (·.tokenHash)⟩
  step s e t := host.hashRefresh e.world.token ∉ s.drawn ∧
    e.op.run host e.world s.db = (e.reply, t.db) ∧
    t.drawn = host.hashRefresh e.world.token :: s.drawn

-- The exchange of a token for a new pair, and not for one that was stored
def Event.exchanged (host : Host κ) (e : Event) : Option String :=
  match e.op, e.reply with
  | .refresh token _ _ _, .pair p => if p.refreshToken = e.world.token then some (host.hashRefresh token) else none
  | _, _ => none

variable {host : Host κ} {e : Event} {db db' : Db κ} {s t : State κ}

section Calls

variable {α : Type} {w : World} {reply : Reply} {name surface token rotationId deviceName : String}
  {hidden phoneOnly : Bool} {Q : α → Db κ → Prop} {E : Db κ → Prop}

-- What a call does when it answers with a value, and when it is refused
def Ends (Q : α → Db κ → Prop) (E : Db κ → Prop) : Except Error α × Db κ → Prop
  | (.ok a, db)    => Q a db
  | (.error _, db) => E db

theorem transaction_ends {x : Tx κ α} (h : Does db x Q) : Ends Q (· = db) (transaction x db) := by
  cases hx : transaction x db
  case mk r db' =>
    cases r
    case error => exact transaction_error hx
    case ok    => exact h.transaction hx

theorem answer_ends {f : α → Reply} {x : Except Error α × Db κ} (hx : Ends Q E x) (h : answer f x = (reply, db')) :
    (∃ a, reply = f a ∧ Q a db') ∨ ∃ e, reply = .error e ∧ E db' := by
  have ⟨r, t⟩ := x
  cases r
  case ok a    => cases h; exact .inl ⟨a, rfl, hx⟩
  case error e => cases h; exact .inr ⟨e, rfl, hx⟩

theorem createSession_ends :
    Ends (Opens host w db) (· = db) (createSession host w name surface hidden db) := by
  unfold createSession
  split
  case isTrue  => rfl
  case isFalse =>
    dsimp only
    split
    case h_1 => rfl
    case h_2 => exact transaction_ends openSession_does

theorem consumeTicket_ends {code instanceId : String} :
    Ends (fun r t => ∃ tickets, Opens host w { db with tickets } r.toPair t) (· = db)
      (consumeTicket host w code instanceId deviceName db) := by
  unfold consumeTicket
  dsimp only
  split
  case h_1 => rfl
  case h_2 => exact transaction_ends takeTicket_does

-- A refused refresh may have revoked the device.
theorem refresh_ends :
    Ends (fun p => Rotates host w token rotationId deviceName db (some p))
      (fun t => t = db ∨ Rotates host w token rotationId deviceName db none t)
      (refresh host w token rotationId deviceName phoneOnly db) := by
  unfold refresh
  split
  case h_1 => exact .inl rfl
  case h_2 =>
    split
    case isTrue  => exact .inl rfl
    case isFalse =>
      have hd : Ends (Rotates host w token rotationId deviceName db) (· = db)
          (transaction (rotate host w token rotationId deviceName phoneOnly) db) :=
        transaction_ends rotate_does
      split
      case h_1 ht => rw [ht] at hd; exact .inl hd
      case h_2 ht => rw [ht] at hd; exact hd
      case h_3 ht => rw [ht] at hd; exact .inr hd

-- Some devices are revoked.
def Revokes (w : World) (db db' : Db κ) : Prop :=
  ∃ c : Device → Bool,
    db'.devices = db.devices.map (fun d => if c d then { d with revokedAt := some w.now } else d) ∧
    db'.tokens = db.tokens ∧ ∀ p ∈ db'.replays, p ∈ db.replays

theorem Revokes.refl : Revokes w db db :=
  ⟨fun _ => false, by simp, rfl, fun _ => id⟩

theorem updateDevice_revokes (id : String) :
    Revokes w db ((db.dropReplays w.now).updateDevice id fun d => { d with revokedAt := some w.now }) := by
  refine ⟨fun d => d.id = id, ?_, rfl, fun p hp => (List.mem_filter.mp hp).left⟩
  simp [Db.updateDevice, Db.dropReplays]

theorem revoke_revokes {subject deviceId : String} : Revokes w db (revoke w subject deviceId db).2 := by
  unfold revoke
  dsimp only
  split
  case isTrue  => exact ⟨_, rfl, rfl, fun p hp => (List.mem_filter.mp hp).left⟩
  case isFalse => exact .refl

theorem logout_ends :
    Ends (fun _ => Revokes w db) (Revokes w db) (logout host w token phoneOnly db) := by
  unfold logout
  split
  case h_1 => exact Revokes.refl
  case h_2 =>
    split
    case h_1 => exact Revokes.refl
    case h_2 =>
      split
      case isTrue  => exact Revokes.refl
      case isFalse => exact revoke_revokes

end Calls

-- Everything that a call can do
inductive Effect (host : Host κ) (e : Event) (db : Db κ) : Db κ → Prop
  | revoked {db' : Db κ} : e.reply.pair? = none → Revokes e.world db db' → Effect host e db db'
  | opened {db' : Db κ} {tickets : List Ticket} {p : Pair} :
    e.reply.pair? = some p → (∀ token rot name phone, e.op ≠ .refresh token rot name phone) →
    Opens host e.world { db with tickets } p db' → Effect host e db db'
  | rotated {token rotationId deviceName : String} {phoneOnly : Bool} {p : Pair} {db' : Db κ} :
    e.op = .refresh token rotationId deviceName phoneOnly → e.reply = .pair p →
    Rotates host e.world token rotationId deviceName db (some p) db' → Effect host e db db'

theorem Effect.error {op : Op} {w : World} {error : Error} (h : db' = db) :
    Effect host ⟨op, w, .error error⟩ db db' :=
  .revoked rfl (h ▸ .refl)

theorem run_effect {op : Op} {w : World} {reply : Reply} (hr : op.run host w db = (reply, db')) :
    Effect host ⟨op, w, reply⟩ db db' := by
  cases op
  case createSession =>
    cases answer_ends createSession_ends hr
    case inl h =>
      have ⟨_, hp, ho⟩ := h
      subst hp
      exact .opened rfl nofun ho
    case inr h =>
      have ⟨_, hp, hd⟩ := h
      exact hp ▸ .error hd
  case consumeTicket =>
    cases answer_ends consumeTicket_ends hr
    case inl h =>
      have ⟨_, hp, _, ho⟩ := h
      subst hp
      exact .opened rfl nofun ho
    case inr h =>
      have ⟨_, hp, hd⟩ := h
      exact hp ▸ .error hd
  case refresh =>
    cases answer_ends refresh_ends hr
    case inl h =>
      have ⟨_, hp, ho⟩ := h
      subst hp
      exact .rotated rfl rfl ho
    case inr h =>
      have ⟨_, hp, h⟩ := h
      cases h
      case inl hd => exact hp ▸ .error hd
      case inr hd =>
        cases hd
        case reused r _ _ _ =>
          subst hp
          exact .revoked rfl (updateDevice_revokes r.deviceId)
  case revoke =>
    cases hr
    exact .revoked rfl revoke_revokes
  case logout =>
    cases answer_ends logout_ends hr
    case inl h =>
      have ⟨_, hp, hd⟩ := h
      exact .revoked (hp ▸ rfl) hd
    case inr h =>
      have ⟨_, hp, hd⟩ := h
      exact .revoked (hp ▸ rfl) hd
  case elsewhere =>
    cases hr
    exact .revoked rfl ⟨fun _ => false, by simp, rfl, fun _ => id⟩

theorem step_effect (h : (system host).step s e t) : Effect host e s.db t.db :=
  run_effect h.right.left

end ClientIdentity
