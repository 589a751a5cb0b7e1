import V8AgentOs.ClientIdentity.Run

namespace ClientIdentity

open Python (Json Dict)

variable {κ : Type} {host : Host κ} {e : Event} {db db' : Db κ} {s t : State κ} {es : List Event}
  {id hash token rotationId deviceName : String} {phoneOnly : Bool} {p : Pair} {replay : Replay κ}

-- Sealing a pair loses nothing.
def Host.Seals (host : Host κ) : Prop :=
  ∀ nonce associated p, host.decrypt associated (host.encrypt nonce associated p) = some p

-- The pair that a stored result holds
def Replay.Holds (host : Host κ) (replay : Replay κ) (p : Pair) : Prop :=
  host.decrypt (replay.tokenHash ++ ":" ++ replay.rotationId) replay.encryptedResult = some p

structure Good (host : Host κ) (s : State κ) : Prop extends Inv s.drawn s.db where
  stored : ∀ replay ∈ s.db.replays, ∀ p, replay.Holds host p → host.hashRefresh p.refreshToken ∈ s.drawn

theorem Inv.congr {drawn : List String} (h : Inv drawn db) (hd : db'.devices = db.devices)
    (ht : db'.tokens = db.tokens) : Inv drawn db' :=
  h.mapDevices (by simpa using hd) ht fun _ => ⟨rfl, rfl⟩

theorem Inv.dropReplays {drawn : List String} {now : ℚ} (h : Inv drawn db) : Inv drawn (db.dropReplays now) :=
  h.congr rfl rfl

theorem inv_effect {drawn : List String} (h : Inv drawn db) (he : Effect host e db db')
    (hn : host.hashRefresh e.world.token ∉ drawn) : Inv (host.hashRefresh e.world.token :: drawn) db' := by
  cases he
  case revoked hr =>
    have ⟨c, hd, ht, _⟩ := hr
    refine (h.mono fun _ => List.mem_cons_of_mem _).mapDevices hd ht fun d => ?_
    split <;> exact ⟨rfl, rfl⟩
  case opened tickets _ _ _ ho =>
    have ht : Inv drawn { db with tickets } := h.congr rfl rfl
    exact ht.opens ho hn
  case rotated _ _ hr =>
    cases hr
    case stored => exact h.dropReplays.mono fun _ => List.mem_cons_of_mem _
    case exchanged r d mid after new hu hc hm hi _ =>
      exact (h.dropReplays.exchange ⟨hu.found, hu.revoked, hu.expires⟩ hc hm hi hn).congr rfl rfl

-- A stored result is an old one, or the one of the exchange.
theorem stored_effect (he : Effect host e db db') (h : replay ∈ db'.replays) :
    replay ∈ db.replays ∨ ∃ token rotationId deviceName phoneOnly p,
      e.op = .refresh token rotationId deviceName phoneOnly ∧ e.reply = .pair p ∧
      p.refreshToken = e.world.token ∧ rotationId ≠ "" ∧
      replay = storedReplay host e.world (host.hashRefresh token) rotationId deviceName p := by
  cases he
  case revoked hr =>
    have ⟨_, _, _, hs⟩ := hr
    exact .inl (hs _ h)
  case opened ho =>
    cases ho
    case new hi     => exact .inl (hi.replays ▸ h)
    case renewed hi => exact .inl (hi.replays ▸ h)
  case rotated token rotationId deviceName phoneOnly p ho hp hr =>
    cases hr
    case stored => exact .inl (List.mem_filter.mp h).left
    case exchanged r d mid after new hu hc hm hi hs =>
      cases List.mem_append.mp h
      case inl h =>
        rw [hi.replays, hm.replays] at h
        exact .inl (List.mem_filter.mp h).left
      case inr h =>
        have ⟨hne, hs⟩ := hs replay h
        have ⟨_, hash, _⟩ := Db.token?_some hu.found
        exact .inr ⟨token, rotationId, deviceName, phoneOnly, p, ho, hp, hi.token, hne, hash ▸ hs⟩

theorem holds_stored (hs : host.Seals) {w : World} {q : Pair}
    (h : (storedReplay host w hash rotationId deviceName q).Holds host p) : p = q :=
  (Option.some.inj ((hs _ _ _).symm.trans h)).symm

theorem step_good (hs : host.Seals) (hg : Good host s) (h : (system host).step s e t) : Good host t := by
  have ⟨hn, _, hd⟩ := h
  have he := step_effect h
  refine ⟨hd ▸ inv_effect hg.toInv he hn, fun replay hm p hp => ?_⟩
  rw [hd]
  cases stored_effect he hm
  case inl hm => exact List.mem_cons_of_mem _ (hg.stored replay hm p hp)
  case inr hm =>
    have ⟨_, _, _, _, q, _, _, hq, _, hr⟩ := hm
    subst hr
    rw [holds_stored hs hp, hq]
    exact List.mem_cons_self

theorem init_good (h : (system host).init s) : Good host s := by
  have ⟨owner, now, rows, hids, hhashes, hs⟩ := h
  subst hs
  constructor
  case stored => exact fun _ hm => absurd hm List.not_mem_nil
  case toInv =>
    constructor
    case ids    => simpa [imported, Function.comp_def, LegacyRow.device] using hids
    case hashes => simpa [imported, Function.comp_def, LegacyRow.token] using hhashes
    case owned =>
      intro r hr
      have ⟨row, hrow, he⟩ := List.mem_map.mp hr
      exact ⟨_, List.mem_map_of_mem hrow, by rw [← he]; rfl⟩
    case drawn =>
      intro r hr
      have ⟨row, hrow, he⟩ := List.mem_map.mp hr
      exact he ▸ List.mem_map_of_mem hrow
    case single =>
      intro r hr r' hr' _ _ he _
      have ⟨row, hrow, hx⟩ := List.mem_map.mp hr
      have ⟨row', hrow', hx'⟩ := List.mem_map.mp hr'
      subst hx hx'
      rw [List.inj_on_of_nodup_map hids hrow hrow' he]

theorem run_good (hs : host.Seals) (h₀ : (system host).init s) (hr : (system host).Run s es t) : Good host t :=
  hr.preserves (fun _ _ _ => step_good hs) (init_good h₀)

theorem Consumes.origin {w : World} {mid : Db κ} {record r' : RefreshToken} (h : Consumes w db record mid)
    (hr' : r' ∈ mid.tokens) : ∃ r ∈ db.tokens, r'.tokenHash = r.tokenHash ∧ r'.deviceId = r.deviceId ∧
      (r.consumedAt.isSome → r'.consumedAt.isSome) ∧ (r'.tokenHash = record.tokenHash → r'.consumedAt.isSome) := by
  rw [h.tokens] at hr'
  have ⟨r, hr, he⟩ := List.mem_map.mp hr'
  refine ⟨r, hr, ?_⟩
  subst he
  split
  case isTrue     => exact ⟨rfl, rfl, fun _ => rfl, fun _ => rfl⟩
  case isFalse hn => exact ⟨rfl, rfl, id, fun he => absurd he hn⟩

-- Where the tokens come from: they are old ones, or the one of the pair that is returned.
theorem token_effect {r' : RefreshToken} (he : Effect host e db db') (hr' : r' ∈ db'.tokens) :
    (∃ r ∈ db.tokens, r'.tokenHash = r.tokenHash ∧ r'.deviceId = r.deviceId ∧
      (r.consumedAt.isSome → r'.consumedAt.isSome)) ∨
    (r'.tokenHash = host.hashRefresh e.world.token ∧ ∃ p, e.reply.pair? = some p ∧ r'.deviceId = p.deviceId) := by
  have issued {id : String} {generation : ℕ} {mid after : Db κ} {p : Pair}
      (hi : Issues host e.world id generation mid p after) (hp : e.reply.pair? = some p) (hr' : r' ∈ after.tokens) :
      r' ∈ mid.tokens ∨
        (r'.tokenHash = host.hashRefresh e.world.token ∧ ∃ p, e.reply.pair? = some p ∧ r'.deviceId = p.deviceId) := by
    rw [hi.tokens] at hr'
    cases List.mem_append.mp hr'
    case inl hr' => exact .inl hr'
    case inr hr' =>
      cases List.mem_singleton.mp hr'
      exact .inr ⟨rfl, p, hp, hi.owner.symm⟩
  cases he
  case revoked hr =>
    have ⟨_, _, ht, _⟩ := hr
    exact .inl ⟨r', ht ▸ hr', rfl, rfl, id⟩
  case opened hp _ ho =>
    cases ho
    case new hi => exact (issued hi hp hr').imp_left fun h => ⟨r', h, rfl, rfl, id⟩
    case renewed hi => exact (issued hi hp hr').imp_left fun h => ⟨r', (List.mem_filter.mp h).left, rfl, rfl, id⟩
  case rotated _ hp hr =>
    cases hr
    case stored => exact .inl ⟨r', hr', rfl, rfl, id⟩
    case exchanged hm hi _ =>
      refine (issued hi (by rw [hp]; rfl) hr').imp_left fun h => ?_
      have ⟨r, hr, hh, hd, hc, _⟩ := hm.origin h
      exact ⟨r, hr, hh, hd, hc⟩

section AtMostOnce

-- A token that was drawn and is not to be exchanged any more
def Spent (s : State κ) (hash : String) : Prop :=
  hash ∈ s.drawn ∧ ∀ r ∈ s.db.tokens, r.tokenHash = hash → r.consumedAt.isSome

theorem spent_step (h : (system host).step s e t) (hs : Spent s hash) : Spent t hash := by
  have ⟨hn, _, hd⟩ := h
  refine ⟨hd ▸ List.mem_cons_of_mem _ hs.left, fun r' hr' hh => ?_⟩
  cases token_effect (step_effect h) hr'
  case inl ho =>
    have ⟨r, hr, he, _, hc⟩ := ho
    exact hc (hs.right r hr (he ▸ hh))
  case inr hi =>
    have : hash = host.hashRefresh e.world.token := hh.symm.trans hi.left
    exact absurd (this ▸ hs.left) hn

end AtMostOnce

section Recovery

-- The exchange whose result is stored
structure Event.Stores (host : Host κ) (e : Event) (replay : Replay κ) : Prop where
  exchanged : e.exchanged host = some replay.tokenHash
  rotated   : ∃ token rotationId deviceName phoneOnly p,
    e.op = .refresh token rotationId deviceName phoneOnly ∧ e.reply = .pair p ∧ rotationId ≠ "" ∧
    replay = storedReplay host e.world (host.hashRefresh token) rotationId deviceName p

-- Every stored result is that of an exchange.
def Explained (host : Host κ) (es : List Event) (s : State κ) : Prop :=
  ∀ replay ∈ s.db.replays, ∃ e ∈ es, e.Stores host replay

end Recovery

end ClientIdentity
