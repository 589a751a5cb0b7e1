import V8AgentOs.ClientIdentity.Service
import V8AgentOs.Lib.Triple

namespace ClientIdentity

open Hoare (Triple)

variable {κ α β : Type} {host : Host κ} {w : World} {db db' : Db κ} {owner : Owner} {p : Pair}
  {id token rotationId deviceName name surface : String} {generation : ℕ} {record : RefreshToken}
  {device : Device} {phoneOnly hidden : Bool}

-- What a program makes of a database, if it does not stop
abbrev Does (db : Db κ) (x : Tx κ α) (Q : α → Db κ → Prop) : Prop :=
  Triple (· = db) x Q fun _ _ => True

namespace Does

variable {x : Tx κ α} {Q : α → Db κ → Prop} {R : β → Db κ → Prop}

theorem lift {e : Except Error α} {f : α → Tx κ β} (h : ∀ a, e = .ok a → Does db (f a) R) :
    Does db (lift e >>= f) R := by
  cases e
  case error => exact .intro fun _ _ => trivial
  case ok a  => exact h a rfl

-- A transaction that ends has the effect of its program.
theorem transaction (h : Does db x Q) {a : α} (hx : transaction x db = (.ok a, db')) : Q a db' := by
  unfold ClientIdentity.transaction at hx
  split at hx
  case h_1 a' t ht =>
    have h := h.ok rfl ht
    cases hx
    exact h
  case h_2 => cases hx

end Does

theorem transaction_error {x : Tx κ α} {e : Error} (hx : transaction x db = (.error e, db')) : db' = db := by
  unfold transaction at hx
  split at hx
  case h_1 => cases hx
  case h_2 => cases hx; rfl

theorem insertDevice_does :
    Does db (insertDevice device) fun _ t =>
      (∀ d ∈ db.devices, d.id ≠ device.id) ∧ t = { db with devices := db.devices ++ [device] } := by
  apply Triple.read
  split
  case isTrue     => exact .stop
  case isFalse hn => exact .modify fun _ _ => ⟨by simpa using hn, rfl⟩

theorem insertToken_does :
    Does db (insertToken record) fun _ t =>
      (∀ r ∈ db.tokens, r.tokenHash ≠ record.tokenHash) ∧ t = { db with tokens := db.tokens ++ [record] } := by
  apply Triple.read
  split
  case isTrue     => exact .stop
  case isFalse hn => exact .modify fun _ _ => ⟨by simpa using hn, rfl⟩

theorem insertReplay_does {replay : Replay κ} :
    Does db (insertReplay replay) fun _ t => t = { db with replays := db.replays ++ [replay] } := by
  apply Triple.read
  split
  case isTrue  => exact .stop
  case isFalse => exact .modify fun _ _ => rfl

-- The row of a token that is issued
def issuedToken (host : Host κ) (w : World) (id : String) (generation : ℕ) : RefreshToken where
  tokenHash  := host.hashRefresh w.token
  deviceId   := id
  generation := generation
  expiresAt  := w.now + refreshTtl
  consumedAt := none

-- A pair is issued: the device gets one more token.
structure Issues (host : Host κ) (w : World) (id : String) (generation : ℕ) (db : Db κ) (p : Pair)
    (db' : Db κ) : Prop where
  device  : ∃ d ∈ db.devices, d.id = id
  devices : db'.devices = (db.updateDevice id fun d =>
    { d with expiresAt := w.now + refreshTtl, lastUsedAt := some w.now }).devices
  tokens  : db'.tokens = db.tokens ++ [issuedToken host w id generation]
  tickets : db'.tickets = db.tickets
  replays : db'.replays = db.replays
  token   : p.refreshToken = w.token
  owner   : p.deviceId = id
  access  : ∃ owner aud, access host w owner id aud = .ok (p.accessToken, p.accessTokenExpiresAt)

theorem pair_does : Does db (pair host w owner id generation) (Issues host w id generation db) := by
  apply Triple.chain insertToken_does
  intro _ t ht
  have ht := ht.right
  subst ht
  apply Triple.update
  apply Triple.read
  split
  case h_1 => exact .stop
  case h_2 d hd =>
    refine Does.lift fun access ha => Does.lift fun _ _ => Does.lift fun _ _ => .done ?_
    constructor
    case device =>
      have hm := List.mem_of_find?_eq_some hd
      have he := List.find?_some hd
      have ⟨c, hc, hcd⟩ := List.mem_map.mp hm
      refine ⟨c, hc, ?_⟩
      split at hcd
      case isTrue h  => exact h
      case isFalse   => simpa [hcd] using he
    case devices => rfl
    case tokens  => rfl
    case tickets => rfl
    case replays => rfl
    case token   => rfl
    case owner   => rfl
    case access  => exact ⟨owner, _, ha⟩

-- A session is opened: for a new device, or for the hidden device that is still in use.
inductive Opens (host : Host κ) (w : World) (db : Db κ) (p : Pair) (db' : Db κ) : Prop
  | new {d : Device} :
    d.id = w.uuid → (∀ c ∈ db.devices, c.id ≠ d.id) → d.revokedAt = none →
    Issues host w d.id 0 { db with devices := db.devices ++ [d] } p db' → Opens host w db p db'
  | renewed {d : Device} {generation : ℕ} :
    d ∈ db.devices → d.hidden → d.revokedAt = none →
    Issues host w d.id generation (db.dropExpired d.id w.now) p db' → Opens host w db p db'

theorem openSession_does :
    Does db (openSession host w owner name surface hidden) (Opens host w db) := by
  apply Triple.read
  split
  case h_1 d hd =>
    split at hd
    case isFalse => cases hd
    case isTrue =>
      have hm := List.mem_of_find?_eq_some hd
      have hp := List.find?_some hd
      simp only [decide_eq_true_eq] at hp
      apply Triple.write
      exact pair_does.conseq (fun _ h => h) (fun _ _ h => .renewed hm hp.2.2.1 hp.2.2.2.1 h) fun _ _ h => h
  case h_2 =>
    apply Triple.chain insertDevice_does
    intro _ t ht
    have ⟨hn, ht⟩ := ht
    subst ht
    exact pair_does.conseq (fun _ h => h) (fun _ _ h => .new rfl hn rfl h) fun _ _ h => h

theorem takeTicket_does {code instanceId : String} :
    Does db (takeTicket host w owner code instanceId deviceName) fun r t =>
      ∃ tickets, Opens host w { db with tickets } r.toPair t := by
  apply Triple.read
  split
  case h_1 => exact .stop
  case h_2 row _ =>
    apply Triple.ite (fun _ => .stop) fun _ => ?_
    apply Triple.ite (fun _ => .stop) fun _ => ?_
    apply Triple.ite (fun _ => .stop) fun _ => ?_
    apply Triple.ite (fun _ => .stop) fun _ => ?_
    apply Does.lift
    intro own _
    apply Triple.ite (fun _ => .stop) fun _ => ?_
    apply Triple.ite (fun _ => .stop) fun _ => ?_
    apply Triple.update
    apply Triple.chain insertDevice_does
    intro _ t ht
    have ⟨hn, ht⟩ := ht
    subst ht
    apply Triple.chain pair_does
    intro p t ht
    apply Does.lift
    intro _ _
    exact .done ⟨_, .new rfl hn rfl ht⟩

def Db.dropReplays (db : Db κ) (now : ℚ) : Db κ :=
  { db with replays := db.replays.filter (now < ·.expiresAt) }

-- The stored result that a request may ask for again
structure Replay.Answers (host : Host κ) (hash rotationId deviceName : String) (replay : Replay κ) :
    Prop where
  tokenHash     : replay.tokenHash = hash
  rotated       : rotationId ≠ ""
  rotationId    : replay.rotationId = rotationId
  requestDigest : replay.requestDigest = host.requestDigest deviceName

def storedReplay (host : Host κ) (w : World) (hash rotationId deviceName : String) (p : Pair) : Replay κ where
  tokenHash       := hash
  rotationId      := rotationId
  requestDigest   := host.requestDigest deviceName
  expiresAt       := w.now + replayTtl
  encryptedResult := host.encrypt w.nonce (hash ++ ":" ++ rotationId) p

-- A token that may be used: neither expired nor of a revoked device
structure Db.Usable (db : Db κ) (hash : String) (now : ℚ) (record : RefreshToken) (device : Device) :
    Prop where
  found   : db.token? hash = some (record, device)
  revoked : device.revokedAt = none
  expires : now < record.expiresAt

-- The record is consumed, and the device may be renamed.
structure Consumes (w : World) (db : Db κ) (record : RefreshToken) (mid : Db κ) : Prop where
  devices : ∃ name : Device → String, mid.devices = (db.updateDevice record.deviceId fun d =>
    { d with name := name d }).devices
  tokens  : mid.tokens = (db.consume record.tokenHash w.now).tokens
  tickets : mid.tickets = db.tickets
  replays : mid.replays = db.replays

inductive Rotates (host : Host κ) (w : World) (token rotationId deviceName : String) (db : Db κ) :
    Option Pair → Db κ → Prop
  | stored {r : RefreshToken} {d : Device} {replay : Replay κ} {q : Pair} :
    db.Usable (host.hashRefresh token) w.now r d → r.consumedAt.isSome →
    replay ∈ db.replays → w.now < replay.expiresAt → replay.Answers host r.tokenHash rotationId deviceName →
    host.decrypt (r.tokenHash ++ ":" ++ rotationId) replay.encryptedResult = some q →
    Rotates host w token rotationId deviceName db (some q) (db.dropReplays w.now)
  | reused {r : RefreshToken} {d : Device} :
    db.Usable (host.hashRefresh token) w.now r d → r.consumedAt.isSome →
    Rotates host w token rotationId deviceName db none
      ((db.dropReplays w.now).updateDevice r.deviceId fun d => { d with revokedAt := some w.now })
  | exchanged {r : RefreshToken} {d : Device} {q : Pair} {mid after : Db κ} {new : List (Replay κ)} :
    db.Usable (host.hashRefresh token) w.now r d → r.consumedAt = none →
    Consumes w (db.dropReplays w.now) r mid →
    Issues host w r.deviceId (r.generation + 1) mid q after →
    (∀ replay ∈ new, rotationId ≠ "" ∧ replay = storedReplay host w r.tokenHash rotationId deviceName q) →
    Rotates host w token rotationId deviceName db (some q) { after with replays := after.replays ++ new }

theorem replayed_does (hu : db.Usable (host.hashRefresh token) w.now record device)
    (hc : record.consumedAt.isSome) :
    Does (db.dropReplays w.now) (replayed host w record rotationId (host.requestDigest deviceName))
      (Rotates host w token rotationId deviceName db) := by
  apply Triple.read
  dsimp only
  split
  case h_1 replay hr =>
    have ⟨hf, hm⟩ := Option.filter_eq_some_iff.mp hr
    have hmem := List.mem_filter.mp (List.mem_of_find?_eq_some hf)
    have he := List.find?_some hf
    simp only [decide_eq_true_eq] at hm he hmem
    split
    case h_2 => exact .stop
    case h_1 q hq =>
      exact .done (.stored hu hc hmem.left hmem.right ⟨he, hm.1, hm.2.1, hm.2.2⟩ hq)
  case h_2 =>
    apply Triple.update
    exact .done (.reused hu hc)

theorem exchange_does (hu : db.Usable (host.hashRefresh token) w.now record device)
    (hc : record.consumedAt = none) :
    Does (db.dropReplays w.now) (exchange host w owner record rotationId deviceName) fun q =>
      Rotates host w token rotationId deviceName db (some q) := by
  apply Triple.update
  have rest {mid : Db κ} (hm : Consumes w (db.dropReplays w.now) record mid) :
      Does mid (do
        let result ← pair host w owner record.deviceId (record.generation + 1)
        if rotationId ≠ "" then
          insertReplay (storedReplay host w record.tokenHash rotationId deviceName result)
        return result) fun q => Rotates host w token rotationId deviceName db (some q) := by
    apply Triple.chain pair_does
    intro q after ha
    dsimp only
    split
    case isTrue hr =>
      apply Triple.chain insertReplay_does
      intro _ t ht
      subst ht
      have hn : ∀ replay ∈ [storedReplay host w record.tokenHash rotationId deviceName q],
          rotationId ≠ "" ∧ replay = storedReplay host w record.tokenHash rotationId deviceName q :=
        fun _ h => ⟨hr, List.mem_singleton.mp h⟩
      exact .done (.exchanged hu hc hm ha hn)
    case isFalse =>
      have hn : ∀ replay ∈ ([] : List (Replay κ)),
          rotationId ≠ "" ∧ replay = storedReplay host w record.tokenHash rotationId deviceName q :=
        fun _ h => absurd h List.not_mem_nil
      have := Rotates.exchanged hu hc hm ha hn
      exact .done (by simpa using this)
  dsimp only
  split
  case isTrue =>
    apply Triple.update
    exact rest ⟨⟨fun _ => Python.take 200 deviceName, rfl⟩, rfl, rfl, rfl⟩
  case isFalse =>
    exact rest ⟨⟨(·.name), by simp [Db.updateDevice, Db.consume]⟩, rfl, rfl, rfl⟩

theorem rotate_does :
    Does db (rotate host w token rotationId deviceName phoneOnly)
      (Rotates host w token rotationId deviceName db) := by
  apply Triple.update
  apply Triple.read
  split
  case h_1 => exact .stop
  case h_2 record device hf =>
    refine .ite (fun _ => .stop) fun hv => ?_
    refine .ite (fun _ => .stop) fun _ => ?_
    apply Does.lift
    intro owner _
    refine .ite (fun _ => .stop) fun _ => ?_
    have hu : db.Usable (host.hashRefresh token) w.now record device := by
      simp only [not_or, not_le] at hv
      exact ⟨hf, Option.not_isSome_iff_eq_none.mp hv.left, hv.right⟩
    refine .ite (fun hc => replayed_does hu hc) fun hc => ?_
    exact .chain (exchange_does hu (by simpa using hc)) fun _ _ h => .done h

theorem Db.token?_some (h : db.token? id = some (record, device)) :
    record ∈ db.tokens ∧ record.tokenHash = id ∧ device ∈ db.devices ∧ device.id = record.deviceId := by
  have ⟨r, hr, hd⟩ := Option.bind_eq_some_iff.mp h
  have ⟨d, hd, he⟩ := Option.map_eq_some_iff.mp hd
  cases he
  have hid := List.find?_some hr
  have hdid := List.find?_some hd
  simp only [decide_eq_true_eq] at hid hdid
  exact ⟨List.mem_of_find?_eq_some hr, hid, List.mem_of_find?_eq_some hd, hdid⟩

-- What a request may not lack, apart from its token's being unused
structure Passes (host : Host κ) (w : World) (token rotationId : String) (phoneOnly : Bool)
    (device : Device) : Prop where
  ready    : w.ready = .ok ()
  token    : token ≠ "" ∧ token.length ≤ 512
  rotation : rotationId.length ≤ 128
  phone    : phoneOnly → device.hidden = false ∧ device.surface = "phone"
  owner    : ∃ owner, w.owner = .ok owner ∧ owner.id = device.userId

end ClientIdentity
