import V8AgentOs.ProviderCircuit.Run

namespace ProviderCircuit

-- A pending probe of the circuit's current generation whose lease has not run out.
def LiveProbe (db : Database) (p : String) (now : ℚ) (a : Attempt) : Prop :=
  a ∈ db.attempts ∧ a.providerId = p ∧ a.isProbe ∧ a.state = .pending ∧
  ∃ c ∈ db.circuits p, a.generation = c.generation ∧ now < c.probeExpires

-- A permit for an attempt that the database did not know before the call.
def Event.GrantsNew (e : Event) (db : Database) (permit : Permit) : Prop :=
  e.reply = .granted permit ∧ db.attempt? permit.permitId = none

variable {db db' : Database} {p id uuid : String} {attemptId : Option String} {now : ℚ}
  {g : Governance} {c : Circuit} {a b attempt : Attempt} {permit : Permit} {call : Call}
  {explicit result success : Bool} {outcome : Outcome} {code : Option String} {reply : Reply}
  {s t : State} {e : Event} {es : List Event}

theorem Reachable.exec (h : system.Reachable s) (now : ℚ) (call : Call) (hn : s.clock ≤ now) :
    system.Reachable ⟨(exec s.db now call).snd, now⟩ :=
  .step (e := ⟨now, call, (ProviderCircuit.exec s.db now call).fst⟩) h ⟨hn, rfl, rfl⟩

namespace LiveProbe

theorem holds_circuit (hw : db.Wf) (h : LiveProbe db p now a) :
    ∃ c, db.circuits p = some c ∧ c.state = .halfOpen ∧ c.probeId = some a.id ∧
      a.generation = c.generation ∧ now < c.probeExpires := by
  obtain ⟨hm, rfl, hp, _, c, hc, hg, hl⟩ := h
  have ⟨hs, hi⟩ := (hw.fits_of hm hc).probe hp hg
  exact ⟨c, hc, hs, hi, hg, hl⟩

theorem unique (hw : db.Wf) (ha : LiveProbe db p now a) (hb : LiveProbe db p now b) : a = b := by
  have ⟨c, hc, _, hi, _⟩ := ha.holds_circuit hw
  have ⟨c', hc', _, hi', _⟩ := hb.holds_circuit hw
  obtain rfl : c = c' := by simpa [hc] using hc'
  exact hw.eq_of_id ha.left hb.left (by simpa [hi] using hi')

theorem excludes (hw : db.Wf) (ha : LiveProbe db p now a)
    (h : Acquires db now p g id permit db') : id = a.id := by
  have ⟨c, hc, hs, hi, hg, hl⟩ := ha.holds_circuit hw
  cases h
  case known prior c' hp hprov _ hc' hgen hpr =>
    obtain rfl := Database.circuit_of_ensureCircuit hc' hc
    have ⟨hm, hid⟩ := Database.attempt?_some hp
    subst hprov
    cases hprobe : prior.isProbe
    case true => simpa [hi] using (hpr hprobe).left.symm
    case false =>
      -- A regular attempt of the current generation would need a closed circuit.
      have := (hw.fits_of hm hc).regular (by simp [hprobe]) (by simp [hs])
      omega
  case regular hc' hs' =>
    obtain rfl := Database.circuit_of_ensureCircuit hc' hc
    simp [hs] at hs'
  case probe c' _ hc' _ hb =>
    obtain rfl : c' = c := by simpa [hc] using hc'.symm
    exact absurd ⟨hs, hl⟩ hb

end LiveProbe

theorem Acquires.new_permit (h : Acquires db now p g id permit db')
    (hn : db.attempt? permit.permitId = none) :
    (db.state p ≠ .closed → permit.probe) ∧
    (permit.probe → db.generation p < db'.generation p) := by
  cases h
  case known hp _ _ _ _ _ => simp [hp] at hn
  case regular c _ hc hs =>
    have : db.phase p = ⟨c.state, c.generation⟩ :=
      Database.phase_ensureCircuit.symm.trans (Database.phase_of_circuit hc)
    have : db.state p = .closed := (congrArg Phase.state this).trans hs
    simp [this]
  case probe c _ hc _ _ =>
    refine ⟨fun _ => rfl, fun _ => ?_⟩
    rw [Database.generation_of_circuit hc, Database.generation_of_circuit (c := ⟨.halfOpen,
      c.generation + 1, c.openUntil, some id, some (now + g.leaseSeconds), now⟩) (by simp)]
    exact Nat.lt_succ_self _

theorem Commits.generation_lt_of_state_ne (hw : db.Wf) (h : Commits db now call reply db')
    (hs : db.state p ≠ db'.state p) : db.generation p < db'.generation p := by
  cases h.refines hw p
  case inl h => exact absurd (congrArg Phase.state h).symm hs
  case inr h => exact h.generation_eq.ge

theorem grants_new (h : system.step s e t) (hg : e.GrantsNew s.db permit) :
    (s.db.state permit.providerId ≠ .closed → permit.probe) ∧
    (permit.probe → s.db.generation permit.providerId < t.db.generation permit.providerId) := by
  have hc := step_commits h
  rw [hg.left] at hc
  cases he : e.call <;> rw [he] at hc <;> cases hc
  case acquire.acquire h =>
    have : permit.providerId = _ := h.providerId_eq
    exact this ▸ h.new_permit hg.right

-- Single-probe exclusion, over every state that any interleaving of calls reaches.
theorem single_probe (h : system.Reachable s) :
    (∀ p now a b, LiveProbe s.db p now a → LiveProbe s.db p now b → a = b) ∧
    (∀ p now a, LiveProbe s.db p now a → ∀ g attemptId uuid explicit permit db',
      acquire s.db now p g attemptId uuid explicit = .ok (permit, db') → permit.permitId = a.id) ∧
    (∀ e t, system.step s e t → ∀ permit, e.GrantsNew s.db permit →
      (s.db.state permit.providerId ≠ .closed → permit.probe) ∧
      (permit.probe → s.db.generation permit.providerId < t.db.generation permit.providerId)) ∧
    (∀ e t, system.step s e t → ∀ p, s.db.state p ≠ t.db.state p →
      s.db.generation p < t.db.generation p) ∧
    (∀ es t, system.Run s es t → ∀ p, s.db.generation p ≤ t.db.generation p) := by
  have hw := reachable_wf h
  refine ⟨fun _ _ _ _ ha hb => ha.unique hw hb, ?_, fun _ _ hs _ => grants_new hs, ?_, ?_⟩
  · intro p now a ha g attemptId uuid explicit permit db' hq
    have hq := acquire_ok hq
    exact hq.permitId_eq.trans (ha.excludes hw hq)
  · intro e t hs p
    exact (step_commits hs).generation_lt_of_state_ne hw
  · intro es t r p
    exact run_generation_le hw r p

-- A provider whose first attempt failed, and whose probe "b" has been admitted after the cooldown.
def probing : Database :=
  let acquired := (exec .empty 0 (.acquire "p" {} (some "a") "" false)).snd
  let tripped := (exec acquired 1
    (.finish ⟨"a", "p", 0, false⟩ false { providerFailureThreshold := some 1 } none)).snd
  (exec tripped 100 (.acquire "p" {} (some "b") "" false)).snd

theorem probing_reachable : system.Reachable ⟨probing, 100⟩ := by
  have h₀ : system.Reachable ⟨.empty, 0⟩ := .init rfl
  have h₁ := Reachable.exec h₀ 0 (.acquire "p" {} (some "a") "" false) le_rfl
  have h₂ := Reachable.exec h₁ 1 (.finish ⟨"a", "p", 0, false⟩ false
    { providerFailureThreshold := some 1 } none) (by decide)
  exact Reachable.exec h₂ 100 (.acquire "p" {} (some "b") "" false) (by decide)

theorem probing_live : LiveProbe probing "p" 101
    ⟨"b", "p", 2, true, .pending, 100, none, none⟩ := by
  refine ⟨by decide +kernel, rfl, rfl, rfl, ?_⟩
  exact ⟨⟨.halfOpen, 2, some 61, some "b", some 220, 100⟩, by decide +kernel, rfl, by decide⟩

theorem single_probe_probing :
    LiveProbe probing "p" 101 ⟨"b", "p", 2, true, .pending, 100, none, none⟩ ∧
    ∀ g attemptId uuid explicit permit db',
      acquire probing 101 "p" g attemptId uuid explicit = .ok (permit, db') →
      permit.permitId = "b" :=
  ⟨probing_live, (single_probe probing_reachable).right.left "p" 101 _ probing_live⟩

end ProviderCircuit

namespace ProviderCircuit

-- A permit that may no longer settle its circuit: it is settled already, or belongs to an older
-- generation, or is a probe whose lease has run out or went to another attempt.
def Fenced (db : Database) (now : ℚ) (a : Attempt) : Prop :=
  a.state ≠ .pending ∨ a.generation < db.generation a.providerId ∨
  (a.isProbe ∧ ∀ c ∈ db.circuits a.providerId, c.probeId ≠ some a.id ∨ c.probeExpires ≤ now)

variable {db db' : Database} {p id : String} {now : ℚ} {g : Governance} {c : Circuit}
  {a attempt : Attempt} {permit : Permit} {call : Call} {outcome : Outcome} {code : Option String}
  {reply : Reply} {s t : State} {e : Event} {es : List Event}

namespace Settles

end Settles

-- A circuit that is not closed is closed by the success of its live probe and by nothing else.
theorem Commits.closes (h : Commits db now call reply db')
    (ho : db.state p ≠ .closed) (hc : db'.state p = .closed) :
    ∃ permit g code a, call = .finish permit true g code ∧ reply = .settled true ∧
      db.attempt? permit.permitId = some a ∧ LiveProbe db p now a := by
  have changed : db'.phase p ≠ db.phase p :=
    fun h => ho ((congrArg Phase.state h).symm.trans hc)
  cases h
  case refused => exact absurd rfl changed
  case acquire hq =>
    have ⟨_, h⟩ := (hq.phase_cases p).resolve_left changed
    exact absurd ((congrArg Phase.state h).symm.trans hc) nofun
  case settle permit outcome g code a result ha _ _ hcall hset =>
    obtain ⟨rfl, hpend, rfl, c, hcirc, hcur, h⟩ := (hset.phase_cases p).resolve_left changed
    cases h
    case inr h => exact absurd ((congrArg Phase.state h.right.right.right).symm.trans hc) nofun
    case inl h =>
      have ⟨hg, hcur⟩ := isCurrent_iff.mp hcur
      have ⟨_, hl⟩ : c.probeId = some a.id ∧ now < c.probeExpires := by simpa [h.left] using hcur
      have hout : outcome = .success := by
        by_contra hne
        exact absurd ((congrArg Phase.state h.right).symm.trans hc) (by simp [hne])
      cases hcall
      case release => contradiction
      case finish =>
        obtain rfl := finishOutcome_eq_success hout
        exact ⟨permit, g, code, a, rfl, rfl, ha,
          (Database.attempt?_some ha).left, rfl, h.left, hpend, c, hcirc, hg.symm, hl⟩

-- A closed circuit is opened by a current regular failure that fills the window, and by nothing
-- else. The samples are counted after the failure itself has been recorded.
theorem Commits.opens (hw : db.Wf) (h : Commits db now call reply db')
    (hc : db.state p = .closed) (ho : db'.state p ≠ .closed) :
    ∃ permit g code a, call = .finish permit false g code ∧ (∀ x ∈ code, x ∉ neutralErrors) ∧
      db.attempt? permit.permitId = some a ∧ a.providerId = p ∧ ¬a.isProbe ∧ a.state = .pending ∧
      a.generation = db.generation p ∧
      g.minimumSamples ≤ events (db'.samples p a.generation (now - g.windowSeconds)) ∧
      g.rate ≤ errors (db'.samples p a.generation (now - g.windowSeconds)) /
        events (db'.samples p a.generation (now - g.windowSeconds)) := by
  have changed : db'.phase p ≠ db.phase p := fun h => ho ((congrArg Phase.state h).trans hc)
  cases h
  case refused => exact absurd rfl changed
  case acquire hq => exact absurd hc ((hq.phase_cases p).resolve_left changed).left
  case settle permit outcome g code a result ha _ _ hcall hset =>
    obtain ⟨rfl, hpend, _, c, hcirc, hcur, h⟩ := (hset.phase_cases p).resolve_left changed
    have ⟨hg, hcur⟩ := isCurrent_iff.mp hcur
    cases h
    case inl h =>
      have := ((hw.fits_of (Database.attempt?_some ha).left hcirc).probe h.left hg.symm).left
      simp [Database.state_of_circuit hcirc, this] at hc
    case inr h =>
      obtain ⟨hpr, hout, htrip, _⟩ := h
      simp only [Governance.trips, Bool.decide_and, Bool.and_eq_true, decide_eq_true_eq] at htrip
      cases hcall
      case release => contradiction
      case finish =>
        obtain ⟨rfl, hn⟩ := finishOutcome_eq_failure hout
        exact ⟨permit, g, code, a, rfl, hn, ha, rfl, hpr, hpend,
          hg.symm.trans (Database.generation_of_circuit hcirc).symm, htrip.left, htrip.right⟩

-- No permanent lock-out. Whatever a crashed probe, an early explicit probe or a released one left
-- behind (in a reachable database or in any other), a new attempt is admitted from the time at
-- which both the lease and the cooldown of the circuit are over.
theorem no_lockout (db : Database) (p : String) (hp : ¬Python.isBlank p.toList) :
    ∃ T, ∀ now ≥ T, ∀ g attemptId uuid explicit,
      db.attempt? (permitId attemptId uuid) = none →
      ∃ permit db', acquire db now p g attemptId uuid explicit = .ok (permit, db') ∧
        permit.permitId = permitId attemptId uuid := by
  refine ⟨(db.circuits p).elim 0 fun c => max c.probeExpires c.opensAt, ?_⟩
  intro now hn g attemptId uuid explicit ha
  have ⟨c, hc, hdb⟩ := db.exists_ensureCircuit p now
  have admitted : ¬(!(view c now).circuitAllowsAttempt && (!explicit || (view c now).probeInFlight))
      := by
    rw [view_refuses_iff]
    rintro ⟨hs, hb⟩
    cases hdb
    case inr h => exact hs (h.right ▸ rfl)
    case inl h =>
      have ⟨hl, ho⟩ : c.probeExpires ≤ now ∧ c.opensAt ≤ now := by simpa [h] using hn
      cases hb
      case inl hb => exact absurd hb.right (not_lt.mpr hl)
      case inr hb => exact absurd hb.right (not_lt.mpr ho)
  have hok : acquire db now p g attemptId uuid explicit =
      .ok (grant (db.ensureCircuit p now) now p c g (permitId attemptId uuid)) := by
    simp only [acquire, if_neg hp, ha, hc, if_neg admitted]
  exact ⟨_, _, hok, (acquire_ok hok).permitId_eq⟩

theorem no_lockout_probing : ∃ T, ∀ now ≥ T, ∀ g attemptId uuid explicit,
    probing.attempt? (permitId attemptId uuid) = none →
    ∃ permit db', acquire probing now "p" g attemptId uuid explicit = .ok (permit, db') ∧
      permit.permitId = permitId attemptId uuid :=
  no_lockout probing "p" (by decide)

end ProviderCircuit
