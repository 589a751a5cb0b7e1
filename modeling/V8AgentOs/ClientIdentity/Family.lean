import V8AgentOs.ClientIdentity.Rotation
import V8AgentOs.Lib.Rows

namespace ClientIdentity

open Python (Json Dict)

variable {κ : Type} {host : Host κ} {e : Event} {db db' : Db κ} {s t : State κ} {es : List Event}
  {id hash token rotationId deviceName : String} {phoneOnly : Bool} {p : Pair} {replay : Replay κ}

-- A device whose rows are all revoked
def Db.Revoked (db : Db κ) (id : String) : Prop :=
  (∃ d ∈ db.devices, d.id = id) ∧ ∀ d ∈ db.devices, d.id = id → d.revokedAt.isSome

theorem Db.Revoked.mapDevices {f : Device → Device} (h : db.Revoked id) (hd : db'.devices = db.devices.map f)
    (hf : ∀ d, (f d).id = d.id ∧ (d.revokedAt.isSome → (f d).revokedAt.isSome)) : db'.Revoked id := by
  have ⟨⟨d, hm, he⟩, hr⟩ := h
  unfold Db.Revoked
  rw [hd]
  constructor
  · exact ⟨f d, List.mem_map_of_mem hm, (hf d).left.trans he⟩
  · intro d' hm' he'
    have ⟨c, hc, hcd⟩ := List.mem_map.mp hm'
    subst hcd
    exact (hf c).right (hr c hc ((hf c).left.symm.trans he'))

theorem Db.Revoked.updateDevice {x : String} {f : Device → Device} (h : db.Revoked id)
    (hd : db'.devices = (db.updateDevice x f).devices)
    (hf : ∀ d, (f d).id = d.id ∧ (d.revokedAt.isSome → (f d).revokedAt.isSome)) : db'.Revoked id := by
  refine h.mapDevices hd fun d => ?_
  split
  case isTrue  => exact hf d
  case isFalse => exact ⟨rfl, fun h => h⟩

theorem Db.Revoked.insertDevice {d : Device} (h : db.Revoked id) (hn : ∀ c ∈ db.devices, c.id ≠ d.id) :
    Db.Revoked { db with devices := db.devices ++ [d] } id := by
  have ⟨⟨c, hc, he⟩, hr⟩ := h
  refine ⟨⟨c, List.mem_append_left _ hc, he⟩, fun d' hd' he' => ?_⟩
  cases List.mem_append.mp hd'
  case inl hd' => exact hr d' hd' he'
  case inr hd' =>
    cases List.mem_singleton.mp hd'
    exact absurd (he.trans he'.symm) (hn c hc)

theorem Issues.revoked {w : World} {x : String} {generation : ℕ} (hi : Issues host w x generation db p db')
    (h : db.Revoked id) : db'.Revoked id :=
  h.updateDevice hi.devices fun _ => ⟨rfl, fun h => h⟩

-- The tokens of a device: those that were imported, and those that were issued in the run.
def Belongs (host : Host κ) (s₀ : State κ) (es : List Event) (hash id : String) : Prop :=
  (∃ r ∈ s₀.db.tokens, r.tokenHash = hash ∧ r.deviceId = id) ∨
  ∃ e ∈ es, ∃ p, e.reply.pair? = some p ∧ host.hashRefresh p.refreshToken = hash ∧ p.deviceId = id

-- A token keeps its device.
def Owns (host : Host κ) (s₀ : State κ) (es : List Event) (s : State κ) : Prop :=
  ∀ hash id, Belongs host s₀ es hash id →
    hash ∈ s.drawn ∧ ∀ r ∈ s.db.tokens, r.tokenHash = hash → r.deviceId = id

-- What holds of the calls so far and the state
structure Tracks (host : Host κ) (s₀ : State κ) (es : List Event) (s : State κ) : Prop where
  good      : Good host s
  explained : Explained host es s
  owns      : Owns host s₀ es s

theorem Good.revoked {d : Device} (hg : Good host s) (hd : d ∈ s.db.devices) (hr : d.revokedAt.isSome) :
    s.db.Revoked d.id :=
  ⟨⟨d, hd, rfl⟩, fun _ hc he => hg.device_eq hc hd he ▸ hr⟩

-- A host whose sealed results are triples, and whose hashes are the texts themselves
def plainHost : Host (String × String × Pair) where
  signing            := "key"
  sha256 text        := text
  mac _ message      := Python.utf8 message.toList
  encode _           := ""
  decode _           := none
  jsonText _         := []
  loads _            := none
  encrypt nonce a p  := (nonce, a, p)
  decrypt a c        := if c.2.1 = a then some c.2.2 else none
  timestamp _        := ""

-- The call of an operation, and the state after it
def call (s : State (String × String × Pair)) (op : Op) (w : World) : Event × State (String × String × Pair) :=
  let (reply, db) := op.run plainHost w s.db
  (⟨op, w, reply⟩, ⟨db, plainHost.hashRefresh w.token :: s.drawn⟩)

def calls (s : State (String × String × Pair)) : List (Op × World) → List Event × State (String × String × Pair)
  | []           => ([], s)
  | (op, w) :: l =>
    let (e, t) := call s op w
    let (es, u) := calls t l
    (e :: es, u)

end ClientIdentity
