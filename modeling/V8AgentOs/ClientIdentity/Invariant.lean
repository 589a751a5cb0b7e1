import Mathlib.Data.List.Nodup
import V8AgentOs.ClientIdentity.Steps

namespace ClientIdentity

variable {κ : Type} {host : Host κ} {w : World} {db db' mid : Db κ} {id hash : String} {p : Pair}
  {generation : ℕ} {drawn : List String} {device : Device} {record : RefreshToken}

-- A device that the list of devices shows
def Db.Shown (db : Db κ) (id : String) : Prop :=
  ∃ d ∈ db.devices, d.id = id ∧ d.hidden = false

theorem Db.Shown.of_map {f : Device → Device} (hs : db'.Shown id) (hd : db'.devices = db.devices.map f)
    (hf : ∀ d, (f d).id = d.id ∧ (f d).hidden = d.hidden) : db.Shown id := by
  have ⟨d, hm, hid, hh⟩ := hs
  rw [hd] at hm
  have ⟨c, hc, he⟩ := List.mem_map.mp hm
  exact ⟨c, hc, by rw [← hid, ← he, (hf c).left], by rw [← hh, ← he, (hf c).right]⟩

theorem updateDevice_keeps {f : Device → Device} (hf : ∀ d, (f d).id = d.id ∧ (f d).hidden = d.hidden)
    (d : Device) : (if d.id = id then f d else d).id = d.id ∧ (if d.id = id then f d else d).hidden = d.hidden := by
  split
  case isTrue  => exact hf d
  case isFalse => exact ⟨rfl, rfl⟩

-- What holds of the tables. `drawn` are the hashes of all tokens that there ever were.
structure Inv (drawn : List String) (db : Db κ) : Prop where
  ids    : (db.devices.map (·.id)).Nodup
  hashes : (db.tokens.map (·.tokenHash)).Nodup
  owned  : ∀ r ∈ db.tokens, ∃ d ∈ db.devices, d.id = r.deviceId
  drawn  : ∀ r ∈ db.tokens, r.tokenHash ∈ drawn
  single : ∀ r ∈ db.tokens, ∀ r' ∈ db.tokens, r.consumedAt = none → r'.consumedAt = none →
    r.deviceId = r'.deviceId → db.Shown r.deviceId → r = r'

-- Every unconsumed token of the device, if it is shown, was consumed.
def Db.Vacant (db : Db κ) (id : String) : Prop :=
  db.Shown id → ∀ r ∈ db.tokens, r.deviceId = id → r.consumedAt.isSome

namespace Inv

theorem mono {drawn' : List String} (h : Inv drawn db) (hd : ∀ x ∈ drawn, x ∈ drawn') : Inv drawn' db :=
  ⟨h.ids, h.hashes, h.owned, fun r hr => hd _ (h.drawn r hr), h.single⟩

theorem device_eq {d d' : Device} (h : Inv drawn db) (hd : d ∈ db.devices) (hd' : d' ∈ db.devices)
    (he : d.id = d'.id) : d = d' :=
  List.inj_on_of_nodup_map h.ids hd hd' he

-- Devices are rewritten, but not hidden or shown.
theorem mapDevices {f : Device → Device} (h : Inv drawn db) (hd : db'.devices = db.devices.map f)
    (ht : db'.tokens = db.tokens) (hf : ∀ d, (f d).id = d.id ∧ (f d).hidden = d.hidden) : Inv drawn db' := by
  constructor
  case ids =>
    have : (fun d => (f d).id) = (·.id) := funext fun d => (hf d).left
    simpa [hd, Function.comp_def, this] using h.ids
  case hashes => exact ht ▸ h.hashes
  case drawn  => exact ht ▸ h.drawn
  case owned =>
    intro r hr
    have ⟨d, hm, he⟩ := h.owned r (ht ▸ hr)
    exact ⟨f d, hd ▸ List.mem_map_of_mem hm, (hf d).left.trans he⟩
  case single =>
    intro r hr r' hr' hc hc' he hs
    exact h.single r (ht ▸ hr) r' (ht ▸ hr') hc hc' he (hs.of_map hd hf)

theorem updateDevice {f : Device → Device} (h : Inv drawn db) (hd : db'.devices = (db.updateDevice id f).devices)
    (ht : db'.tokens = db.tokens) (hf : ∀ d, (f d).id = d.id ∧ (f d).hidden = d.hidden) : Inv drawn db' :=
  h.mapDevices hd ht (updateDevice_keeps hf)

theorem insertDevice (h : Inv drawn db) (hn : ∀ d ∈ db.devices, d.id ≠ device.id) :
    Inv drawn { db with devices := db.devices ++ [device] } := by
  constructor
  case hashes => exact h.hashes
  case drawn  => exact h.drawn
  case ids =>
    rw [List.map_append]
    refine List.Nodup.append h.ids (List.nodup_singleton _) ?_
    intro x hx hx'
    have ⟨d, hd, he⟩ := List.mem_map.mp hx
    exact hn d hd (he.trans (List.mem_singleton.mp hx'))
  case owned =>
    intro r hr
    have ⟨d, hd, he⟩ := h.owned r hr
    exact ⟨d, List.mem_append_left _ hd, he⟩
  case single =>
    intro r hr r' hr' hc hc' he hs
    apply h.single r hr r' hr' hc hc' he
    have ⟨d, hd, hid, hh⟩ := hs
    cases List.mem_append.mp hd
    case inl hd => exact ⟨d, hd, hid, hh⟩
    case inr hd =>
      -- No token can belong to the new device yet.
      have ⟨c, hc, hce⟩ := h.owned r hr
      exact absurd (hce.trans (hid.symm.trans (List.mem_singleton.mp hd ▸ rfl))) (hn c hc)

-- Tokens are removed, or consumed.
theorem narrow (h : Inv drawn db) (hd : db'.devices = db.devices)
    (hh : (db'.tokens.map (·.tokenHash)).Nodup)
    (ht : ∀ r' ∈ db'.tokens, ∃ r ∈ db.tokens, r'.tokenHash = r.tokenHash ∧ r'.deviceId = r.deviceId ∧
      (r'.consumedAt = none → r' = r)) : Inv drawn db' := by
  constructor
  case ids    => exact hd ▸ h.ids
  case hashes => exact hh
  case owned =>
    intro r' hr'
    have ⟨r, hr, _, he, _⟩ := ht r' hr'
    exact hd ▸ he ▸ h.owned r hr
  case drawn =>
    intro r' hr'
    have ⟨r, hr, he, _⟩ := ht r' hr'
    exact he ▸ h.drawn r hr
  case single =>
    intro r hr r' hr' hc hc' he hs
    have ⟨x, hx, _, _, hxe⟩ := ht r hr
    have ⟨x', hx', _, _, hxe'⟩ := ht r' hr'
    cases hxe hc
    cases hxe' hc'
    exact h.single r hx r' hx' hc hc' he (by unfold Db.Shown at hs ⊢; exact hd ▸ hs)

theorem dropExpired {now : ℚ} (h : Inv drawn db) : Inv drawn (db.dropExpired id now) := by
  refine h.narrow rfl (h.hashes.sublist (List.filter_sublist.map _)) ?_
  intro r hr
  exact ⟨r, (List.mem_filter.mp hr).left, rfl, rfl, fun _ => rfl⟩

theorem consume_tokens {now : ℚ} : (db.consume hash now).tokens =
    db.tokens.map fun r => if r.tokenHash = hash then { r with consumedAt := some now } else r :=
  rfl

theorem consume {now : ℚ} (h : Inv drawn db) : Inv drawn (db.consume hash now) := by
  refine h.narrow rfl ?_ ?_
  · have same : (db.consume hash now).tokens.map (·.tokenHash) = db.tokens.map (·.tokenHash) := by
      rw [consume_tokens, List.map_map]
      apply List.map_congr_left
      intro r _
      dsimp only [Function.comp]
      split <;> rfl
    exact same ▸ h.hashes
  · intro r' hr'
    have ⟨r, hr, he⟩ := List.mem_map.mp hr'
    refine ⟨r, hr, ?_⟩
    subst he
    split
    case isTrue  => exact ⟨rfl, rfl, nofun⟩
    case isFalse => exact ⟨rfl, rfl, fun _ => rfl⟩

theorem insertToken {drawn' : List String} (h : Inv drawn db) (hd : ∃ d ∈ db.devices, d.id = record.deviceId)
    (hn : record.tokenHash ∉ drawn) (hm : ∀ x ∈ drawn, x ∈ drawn') (hi : record.tokenHash ∈ drawn')
    (hv : db.Vacant record.deviceId) : Inv drawn' { db with tokens := db.tokens ++ [record] } := by
  constructor
  case ids => exact h.ids
  case hashes =>
    rw [List.map_append]
    refine List.Nodup.append h.hashes (List.nodup_singleton _) ?_
    intro x hx hx'
    have ⟨r, hr, he⟩ := List.mem_map.mp hx
    have hx' : x = record.tokenHash := List.mem_singleton.mp hx'
    exact hn (hx' ▸ he ▸ h.drawn r hr)
  case owned =>
    intro r hr
    cases List.mem_append.mp hr
    case inl hr => exact h.owned r hr
    case inr hr => exact List.mem_singleton.mp hr ▸ hd
  case drawn =>
    intro r hr
    cases List.mem_append.mp hr
    case inl hr => exact hm _ (h.drawn r hr)
    case inr hr => exact List.mem_singleton.mp hr ▸ hi
  case single =>
    -- An old token of the device is consumed.
    have old {r} (hr : r ∈ db.tokens) (hc : r.consumedAt = none) (he : r.deviceId = record.deviceId)
        (hs : db.Shown record.deviceId) : False := by
      have := hv hs r hr he
      simp [hc] at this
    intro r hr r' hr' hc hc' he hs
    cases List.mem_append.mp hr
    case inl hr =>
      cases List.mem_append.mp hr'
      case inl hr' => exact h.single r hr r' hr' hc hc' he hs
      case inr hr' =>
        cases List.mem_singleton.mp hr'
        exact (old hr hc he (he ▸ hs)).elim
    case inr hr =>
      cases List.mem_singleton.mp hr
      cases List.mem_append.mp hr'
      case inl hr' => exact (old hr' hc' he.symm hs).elim
      case inr hr' => exact (List.mem_singleton.mp hr').symm

theorem issue (h : Inv drawn db) (hi : Issues host w id generation db p db')
    (hn : host.hashRefresh w.token ∉ drawn) (hv : db.Vacant id) :
    Inv (host.hashRefresh w.token :: drawn) db' := by
  have hm : Inv (host.hashRefresh w.token :: drawn)
      { db with tokens := db.tokens ++ [issuedToken host w id generation] } :=
    h.insertToken hi.device hn (fun _ => List.mem_cons_of_mem _) List.mem_cons_self hv
  exact hm.updateDevice hi.devices hi.tokens fun _ => ⟨rfl, rfl⟩

theorem opens (h : Inv drawn db) (ho : Opens host w db p db') (hn : host.hashRefresh w.token ∉ drawn) :
    Inv (host.hashRefresh w.token :: drawn) db' := by
  cases ho
  case new d _ hf _ hi =>
    refine (h.insertDevice hf).issue hi hn ?_
    -- A new device has no token.
    intro _ r hr he
    have ⟨c, hc, hce⟩ := h.owned r hr
    exact absurd (hce.trans he) (hf c hc)
  case renewed d _ hd hh _ hi =>
    refine h.dropExpired.issue hi hn ?_
    intro hs
    have ⟨c, hc, he, hhc⟩ := hs
    cases h.device_eq hc hd he
    simp [hh] at hhc

theorem exchange {now : ℚ} (h : Inv drawn db) (hu : db.Usable hash now record device)
    (hc : record.consumedAt = none) (hm : Consumes w db record mid)
    (hi : Issues host w record.deviceId generation mid p db') (hn : host.hashRefresh w.token ∉ drawn) :
    Inv (host.hashRefresh w.token :: drawn) db' := by
  have ⟨name, hd⟩ := hm.devices
  have hcons : Inv drawn (db.consume record.tokenHash w.now) := h.consume
  have hmid : Inv drawn mid := hcons.updateDevice hd hm.tokens fun _ => ⟨rfl, rfl⟩
  refine hmid.issue hi hn ?_
  intro hs r' hr' he
  rw [hm.tokens] at hr'
  have ⟨r, hr, hre⟩ := List.mem_map.mp hr'
  split at hre
  case isTrue  => exact hre ▸ rfl
  case isFalse hne =>
    subst hre
    by_contra hr
    have hshown := hs.of_map hd (updateDevice_keeps fun _ => ⟨rfl, rfl⟩)
    have ⟨hrec, _⟩ := Db.token?_some hu.found
    have := h.single _ ‹_› record hrec (by simpa using hr) hc he (he ▸ hshown)
    exact hne (this ▸ rfl)

end Inv
end ClientIdentity
