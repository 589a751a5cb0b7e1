import Mathlib.Data.List.Nodup
import V8AgentOs.ProviderCircuit.Service

namespace ProviderCircuit

namespace Database

variable {db : Database} {p q id : String} {a : Attempt} {c : Circuit}

@[simp]
theorem setCircuit_self : (db.setCircuit p c).circuits p = some c := by
  simp [setCircuit]

theorem setCircuit_other (h : q ≠ p) : (db.setCircuit p c).circuits q = db.circuits q := by
  simp [setCircuit, h]

@[simp]
theorem setCircuit_attempts : (db.setCircuit p c).attempts = db.attempts :=
  rfl

@[simp]
theorem settleAttempt_circuits : (db.settleAttempt id st now code).circuits = db.circuits :=
  rfl

@[simp]
theorem expireProbe_circuits : (db.expireProbe pid now).circuits = db.circuits :=
  rfl

@[simp]
theorem insertAttempt_circuits : (db.insertAttempt a).circuits = db.circuits :=
  rfl

@[simp]
theorem insertAttempt_attempts : (db.insertAttempt a).attempts = db.attempts ++ [a] :=
  rfl

@[simp]
theorem ensureCircuit_attempts : (db.ensureCircuit p now).attempts = db.attempts := by
  unfold ensureCircuit; split <;> rfl

theorem attempt?_some (h : db.attempt? id = some a) : a ∈ db.attempts ∧ a.id = id :=
  ⟨List.mem_of_find?_eq_some h, by simpa using List.find?_some h⟩

theorem attempt?_none (h : db.attempt? id = none) : ∀ a ∈ db.attempts, a.id ≠ id := by
  simpa [attempt?] using h

-- The circuit of a provider as `_view` reads it: a provider without a row has a closed circuit of
-- generation 0.
def state (db : Database) (p : String) : CircuitState :=
  (db.circuits p).elim .closed (·.state)

def generation (db : Database) (p : String) : ℕ :=
  (db.circuits p).elim 0 (·.generation)

theorem state_of_circuit (h : db.circuits p = some c) : db.state p = c.state := by
  simp [state, h]

theorem generation_of_circuit (h : db.circuits p = some c) : db.generation p = c.generation := by
  simp [generation, h]

theorem ensureCircuit_of_some (h : db.circuits p = some c) : db.ensureCircuit p now = db := by
  simp [ensureCircuit, h]

theorem ensureCircuit_of_none (h : db.circuits p = none) :
    db.ensureCircuit p now = db.setCircuit p (.fresh now) := by
  simp [ensureCircuit, h]

theorem exists_ensureCircuit (db : Database) (p : String) (now : ℚ) :
    ∃ c, (db.ensureCircuit p now).circuits p = some c ∧
      (db.circuits p = some c ∨ (db.circuits p = none ∧ c = .fresh now)) := by
  cases h : db.circuits p
  case none   => exact ⟨_, by simp [ensureCircuit_of_none h], .inr ⟨rfl, rfl⟩⟩
  case some c => exact ⟨c, by simp [ensureCircuit_of_some h, h], .inl rfl⟩

end Database

-- Everything a successful `acquire` can do.
inductive Acquires (db : Database) (now : ℚ) (p : String) (g : Governance) (id : String) :
    Permit → Database → Prop
  | known {prior c} :
    db.attempt? id = some prior → prior.providerId = p → prior.state = .pending →
    (db.ensureCircuit p now).circuits p = some c → prior.generation = c.generation →
    (prior.isProbe → c.probeId = some id ∧ now < c.probeExpires) →
    Acquires db now p g id ⟨id, p, prior.generation, prior.isProbe⟩ db
  | regular {c} :
    db.attempt? id = none → (db.ensureCircuit p now).circuits p = some c → c.state = .closed →
    Acquires db now p g id ⟨id, p, c.generation, false⟩
      ((db.ensureCircuit p now).insertAttempt
        ⟨id, p, c.generation, false, .pending, now, none, none⟩)
  | probe {c} :
    db.attempt? id = none → db.circuits p = some c → c.state ≠ .closed →
    ¬(c.state = .halfOpen ∧ now < c.probeExpires) →
    Acquires db now p g id ⟨id, p, c.generation + 1, true⟩
      (((db.expireProbe c.probeId now).setCircuit p
        ⟨.halfOpen, c.generation + 1, c.openUntil, some id, some (now + g.leaseSeconds), now⟩).insertAttempt
          ⟨id, p, c.generation + 1, true, .pending, now, none, none⟩)

-- Everything a successful settlement can do to the attempt its permit names.
inductive Settles (db : Database) (now : ℚ) (outcome : Outcome) (g : Governance)
    (code : Option String) (call : Attempt) : Bool → Database → Prop
  | done :
    call.state ≠ .pending → Settles db now outcome g code call false db
  | stale {c} :
    call.state = .pending → db.circuits call.providerId = some c → ¬isCurrent c call now →
    Settles db now outcome g code call false (db.settleAttempt call.id .stale now code)
  | probe {c} :
    call.state = .pending → db.circuits call.providerId = some c → isCurrent c call now →
    call.isProbe →
    Settles db now outcome g code call true
      ((db.settleAttempt call.id outcome.state now code).setCircuit call.providerId
        (c.settleProbe outcome now g.cooldown))
  | trip {c} :
    call.state = .pending → db.circuits call.providerId = some c → isCurrent c call now →
    ¬call.isProbe → outcome = .failure →
    g.trips ((db.settleAttempt call.id outcome.state now code).samples call.providerId
      call.generation (now - g.windowSeconds)) →
    Settles db now outcome g code call true
      ((db.settleAttempt call.id outcome.state now code).setCircuit call.providerId
        (c.trip now g.cooldown))
  | sample {c} :
    call.state = .pending → db.circuits call.providerId = some c → isCurrent c call now →
    ¬call.isProbe →
    Settles db now outcome g code call true (db.settleAttempt call.id outcome.state now code)

variable {db db' : Database} {p id uuid : String} {attemptId : Option String} {now : ℚ}
  {g : Governance} {c : Circuit} {prior call : Attempt} {permit : Permit} {explicit result : Bool}
  {outcome : Outcome} {code : Option String}

theorem view_refuses_iff :
    (!(view c now).circuitAllowsAttempt && (!explicit || (view c now).probeInFlight)) = true ↔
      c.state ≠ .closed ∧ ((c.state = .halfOpen ∧ now < c.probeExpires) ∨
        (explicit = false ∧ now < c.opensAt)) := by
  by_cases hb : c.state = .halfOpen ∧ now < c.probeExpires <;> cases explicit <;>
    simp [view, hb]

theorem reacquire_ok
    (hp : db.attempt? id = some prior) (hc : (db.ensureCircuit p now).circuits p = some c)
    (h : reacquire db now p c prior = .ok (permit, db')) : Acquires db now p g id permit db' := by
  simp only [reacquire] at h
  split at h
  case isTrue => contradiction
  case isFalse hi =>
    split at h
    case isTrue => contradiction
    case isFalse hs =>
      simp only [Except.ok.injEq, Prod.mk.injEq] at h
      obtain ⟨rfl, rfl⟩ := h
      have hid := (Database.attempt?_some hp).right
      simp only [ne_eq, not_or, not_not, Bool.not_eq_true', decide_eq_false_iff_not] at hi hs
      rw [hid] at hs ⊢
      refine .known hp hi hs.left hc hs.right.left fun hpr => ?_
      simpa [hpr] using hs.right.right

theorem grant_acquires
    (hn : db.attempt? id = none) (hc : (db.ensureCircuit p now).circuits p = some c)
    (ha : ¬(c.state ≠ .closed ∧ c.state = .halfOpen ∧ now < c.probeExpires)) :
    Acquires db now p g id (grant (db.ensureCircuit p now) now p c g id).fst
      (grant (db.ensureCircuit p now) now p c g id).snd := by
  by_cases hs : c.state = .closed
  case pos => simpa [grant, hs] using Acquires.regular (g := g) hn hc hs
  case neg =>
    -- A circuit that is not closed has a row, so `INSERT OR IGNORE` wrote nothing.
    have ⟨c', hc', hdb⟩ := db.exists_ensureCircuit p now
    obtain rfl : c' = c := by simpa [hc] using hc'.symm
    cases hdb
    case inr h => exact absurd (h.right ▸ rfl) hs
    case inl h =>
      rw [Database.ensureCircuit_of_some h]
      simpa [grant, hs] using Acquires.probe (g := g) hn h hs (ha ⟨hs, ·⟩)

theorem acquire_ok
    (h : acquire db now p g attemptId uuid explicit = .ok (permit, db')) :
    Acquires db now p g (permitId attemptId uuid) permit db' := by
  have ⟨c, hc, _⟩ := db.exists_ensureCircuit p now
  simp only [acquire, hc] at h
  split at h
  case isTrue => contradiction
  case isFalse =>
    split at h
    case h_1 hp => exact reacquire_ok hp hc h
    case h_2 hn =>
      split at h
      case isTrue => contradiction
      case isFalse ha =>
        rw [view_refuses_iff] at ha
        simp only [Except.ok.injEq] at h
        have := grant_acquires (g := g) hn hc fun ⟨hs, hb⟩ => ha ⟨hs, .inl hb⟩
        rwa [h] at this

theorem settle_ok (h : settle db now permit outcome g code = .ok (result, db')) :
    ∃ call, db.attempt? permit.permitId = some call ∧ call.providerId = permit.providerId ∧
      call.generation = permit.generation ∧ Settles db now outcome g code call result db' := by
  simp only [settle] at h
  split at h
  case h_1 => contradiction
  case h_2 call hc =>
    split at h
    case isTrue => contradiction
    case isFalse hm =>
      simp only [ne_eq, not_or, not_not] at hm
      refine ⟨call, hc, hm.left, hm.right, ?_⟩
      split at h
      case isTrue hs =>
        simp only [Except.ok.injEq, Prod.mk.injEq] at h
        obtain ⟨rfl, rfl⟩ := h
        exact .done hs
      case isFalse hs =>
        simp only [ne_eq, not_not] at hs
        split at h
        case h_1 => contradiction
        case h_2 c hp =>
          by_cases hcur : isCurrent c call now <;> simp only [hcur] at h
          case neg =>
            simp only [Bool.false_eq_true, Bool.not_false, if_true, if_false, Except.ok.injEq,
              Prod.mk.injEq] at h
            obtain ⟨rfl, rfl⟩ := h
            exact .stale hs hp hcur
          case pos =>
            simp only [if_true, Bool.not_true, Bool.false_eq_true, if_false] at h
            split at h
            case isTrue hpr =>
              simp only [Except.ok.injEq, Prod.mk.injEq] at h
              obtain ⟨rfl, rfl⟩ := h
              exact .probe hs hp hcur hpr
            case isFalse hpr =>
              split at h <;> simp only [Except.ok.injEq, Prod.mk.injEq] at h <;>
                obtain ⟨rfl, rfl⟩ := h
              case isTrue ht  => exact .trip hs hp hcur hpr ht.left ht.right
              case isFalse    => exact .sample hs hp hcur hpr

end ProviderCircuit

namespace ProviderCircuit

-- How an attempt relates to the circuit of its provider. Its generation is never ahead of the
-- circuit. A regular attempt is from an older generation whenever the circuit is not closed, and
-- the only probe of the current generation is the one that holds the half-open circuit.
structure Fits (c : Circuit) (a : Attempt) : Prop where
  le      : a.generation ≤ c.generation
  regular : ¬a.isProbe → c.state ≠ .closed → a.generation < c.generation
  probe   : a.isProbe → a.generation = c.generation → c.state = .halfOpen ∧ c.probeId = some a.id

-- What every transaction keeps.
structure Database.Wf (db : Database) : Prop where
  nodup : (db.attempts.map (·.id)).Nodup
  fits  : ∀ a ∈ db.attempts, ∃ c, db.circuits a.providerId = some c ∧ Fits c a

-- An attempt keeps its identity, and once it is settled nothing about it changes.
structure Attempt.Advances (a b : Attempt) : Prop where
  id         : b.id = a.id
  providerId : b.providerId = a.providerId
  generation : b.generation = a.generation
  isProbe    : b.isProbe = a.isProbe
  settled    : a.state ≠ .pending → b = a

variable {db db' : Database} {p q id uuid : String} {attemptId : Option String} {now : ℚ}
  {g : Governance} {c c' : Circuit} {a b call : Attempt} {permit : Permit}
  {explicit result : Bool} {outcome : Outcome} {st : AttemptState} {code : Option String}

namespace Fits

theorem of_lt (h : a.generation < c.generation) : Fits c a where
  le := h.le
  regular _ _ := h
  probe _ he := absurd he h.ne

theorem next (h : Fits c a) (hg : c'.generation = c.generation + 1) : Fits c' a :=
  .of_lt (hg ▸ Nat.lt_succ_of_le h.le)

theorem advances (h : Fits c a) (ha : a.Advances b) : Fits c b where
  le := ha.generation ▸ h.le
  regular := by rw [ha.isProbe, ha.generation]; exact h.regular
  probe := by rw [ha.isProbe, ha.generation, ha.id]; exact h.probe

end Fits

namespace Attempt.Advances

theorem refl (a : Attempt) : a.Advances a :=
  ⟨rfl, rfl, rfl, rfl, fun _ => rfl⟩

theorem trans {a b d : Attempt} (h₁ : a.Advances b) (h₂ : b.Advances d) : a.Advances d where
  id         := h₂.id.trans h₁.id
  providerId := h₂.providerId.trans h₁.providerId
  generation := h₂.generation.trans h₁.generation
  isProbe    := h₂.isProbe.trans h₁.isProbe
  settled h  := by
    have hb := h₁.settled h
    exact (h₂.settled (hb ▸ h)).trans hb

end Attempt.Advances

namespace Database

-- The attempts of `db` are still there in `db'`, each advanced.
def Keeps (db db' : Database) : Prop :=
  ∀ a ∈ db.attempts, ∃ b ∈ db'.attempts, a.Advances b

theorem Keeps.refl (db : Database) : db.Keeps db :=
  fun a ha => ⟨a, ha, .refl a⟩

theorem Keeps.trans {db₁ db₂ db₃ : Database} (h₁ : db₁.Keeps db₂) (h₂ : db₂.Keeps db₃) :
    db₁.Keeps db₃ := by
  intro a ha
  have ⟨b, hb, hab⟩ := h₁ a ha
  have ⟨c, hc, hbc⟩ := h₂ b hb
  exact ⟨c, hc, hab.trans hbc⟩

theorem Wf.eq_of_id (h : db.Wf) (ha : a ∈ db.attempts) (hb : b ∈ db.attempts) (hi : a.id = b.id) :
    a = b :=
  List.inj_on_of_nodup_map h.nodup ha hb hi

theorem Wf.attempt?_eq (h : db.Wf) (ha : a ∈ db.attempts) : db.attempt? a.id = some a := by
  cases hf : db.attempt? a.id
  case none   => exact absurd rfl (attempt?_none hf a ha)
  case some b =>
    have ⟨hb, hi⟩ := attempt?_some hf
    rw [h.eq_of_id hb ha hi]

theorem Wf.fits_of (h : db.Wf) (ha : a ∈ db.attempts) (hc : db.circuits a.providerId = some c) :
    Fits c a := by
  have ⟨c', hc', hf⟩ := h.fits a ha
  obtain rfl : c' = c := by simpa [hc] using hc'.symm
  exact hf

-- Both updates of the attempts table rewrite rows in place.
theorem Wf.map_attempts {f : Attempt → Attempt} (h : db.Wf)
    (hf : ∀ a ∈ db.attempts, a.Advances (f a)) :
    Wf { db with attempts := db.attempts.map f } ∧
      db.Keeps { db with attempts := db.attempts.map f } where
  left := {
    nodup := by
      have : db.attempts.map ((·.id) ∘ f) = db.attempts.map (·.id) :=
        List.map_congr_left fun a ha => (hf a ha).id
      simpa [List.map_map, this] using h.nodup
    fits b hb := by
      have ⟨a, ha, hab⟩ := List.mem_map.mp hb
      have ⟨c, hc, hfit⟩ := h.fits a ha
      subst hab
      exact ⟨c, (hf a ha).providerId ▸ hc, hfit.advances (hf a ha)⟩ }
  right a ha := ⟨f a, List.mem_map_of_mem ha, hf a ha⟩

theorem Wf.settleAttempt (h : db.Wf) (ha : call ∈ db.attempts) (hp : call.state = .pending)
    (st : AttemptState) (now : ℚ) (code : Option String) :
    (db.settleAttempt call.id st now code).Wf ∧ db.Keeps (db.settleAttempt call.id st now code) := by
  refine h.map_attempts fun b hb => ?_
  split
  case isTrue hi =>
    obtain rfl := h.eq_of_id hb ha hi
    exact ⟨rfl, rfl, rfl, rfl, absurd hp⟩
  case isFalse => exact .refl b

theorem Wf.expireProbe (h : db.Wf) (pid : Option String) (now : ℚ) :
    (db.expireProbe pid now).Wf ∧ db.Keeps (db.expireProbe pid now) := by
  refine h.map_attempts fun b _ => ?_
  split
  case isTrue hi => exact ⟨rfl, rfl, rfl, rfl, absurd hi.right⟩
  case isFalse   => exact .refl b

-- Writing a circuit of the next generation leaves every attempt so far behind.
theorem Wf.setCircuit (h : db.Wf) (c' : Circuit) (hc : db.circuits p = some c)
    (hg : c'.generation = c.generation + 1) : (db.setCircuit p c').Wf where
  nodup := h.nodup
  fits a ha := by
    have ⟨c₁, hc₁, hf⟩ := h.fits a ha
    by_cases hp : a.providerId = p
    case pos =>
      subst hp
      obtain rfl : c₁ = c := by simpa [hc] using hc₁.symm
      exact ⟨c', setCircuit_self, hf.next hg⟩
    case neg => exact ⟨c₁, (setCircuit_other hp).trans hc₁, hf⟩

theorem Wf.ensureCircuit (h : db.Wf) (p : String) (now : ℚ) : (db.ensureCircuit p now).Wf := by
  cases hc : db.circuits p
  case some => rwa [ensureCircuit_of_some hc]
  case none =>
    rw [ensureCircuit_of_none hc]
    refine ⟨h.nodup, fun a ha => ?_⟩
    have ⟨c, hc', hf⟩ := h.fits a ha
    have hp : a.providerId ≠ p := by rintro rfl; simp [hc] at hc'
    exact ⟨c, (setCircuit_other hp).trans hc', hf⟩

theorem Wf.insertAttempt (h : db.Wf) (hn : db.attempt? a.id = none)
    (hc : db.circuits a.providerId = some c) (hf : Fits c a) :
    (db.insertAttempt a).Wf ∧ db.Keeps (db.insertAttempt a) where
  left := {
    nodup := by
      have := attempt?_none hn
      simp only [insertAttempt_attempts, List.map_append, List.map_cons, List.map_nil]
      refine List.Nodup.append h.nodup (List.nodup_singleton _) ?_
      simpa [List.disjoint_singleton] using this
    fits b hb := by
      cases List.mem_append.mp hb
      case inl hb => exact h.fits b hb
      case inr hb => exact ⟨c, by simp_all⟩ }
  right b hb := ⟨b, List.mem_append_left _ hb, .refl b⟩

theorem Wf.empty : Database.empty.Wf where
  nodup := by simp [Database.empty]
  fits  := by simp [Database.empty]

end Database
end ProviderCircuit
