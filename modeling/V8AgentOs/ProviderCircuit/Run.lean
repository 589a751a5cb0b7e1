import V8AgentOs.Lib.Transition
import V8AgentOs.ProviderCircuit.Invariant

namespace ProviderCircuit

-- The abstract circuit: a state that is numbered by its generation. Every transition opens a new
-- generation, so a generation names one visit of one state.
structure Phase where
  state      : CircuitState
  generation : ℕ

inductive Phase.Next : Phase → Phase → Prop
  | probe {s n} : s ≠ .closed → Next ⟨s, n⟩ ⟨.halfOpen, n + 1⟩
  | close {n}   : Next ⟨.halfOpen, n⟩ ⟨.closed, n + 1⟩
  | reopen {n}  : Next ⟨.halfOpen, n⟩ ⟨.opened, n + 1⟩
  | trip {n}    : Next ⟨.closed, n⟩ ⟨.opened, n + 1⟩

theorem Phase.Next.generation_eq {x y : Phase} (h : x.Next y) :
    y.generation = x.generation + 1 := by
  cases h <;> rfl

-- One call of the service, by any caller with any arguments.
inductive Call
  | acquire (providerId : String) (governance : Governance) (attemptId : Option String)
      (uuid : String) (explicitProbe : Bool)
  | finish (permit : Permit) (success : Bool) (governance : Governance) (errorCode : Option String)
  | release (permit : Permit) (reason : Option String)

inductive Reply
  | granted (permit : Permit)
  | settled (result : Bool)
  | refused (error : Error)
  deriving DecidableEq

-- A call is one transaction: it either commits its changes or leaves the database as it was.
def exec (db : Database) (now : ℚ) : Call → Reply × Database
  | .acquire p g attemptId uuid explicit =>
    match acquire db now p g attemptId uuid explicit with
    | .ok (permit, db') => (.granted permit, db')
    | .error e          => (.refused e, db)
  | .finish permit success g code =>
    match finish db now permit success g code with
    | .ok (result, db') => (.settled result, db')
    | .error e          => (.refused e, db)
  | .release permit reason =>
    match release db now permit reason with
    | .ok (result, db') => (.settled result, db')
    | .error e          => (.refused e, db)

structure State where
  db    : Database
  clock : ℚ

structure Event where
  now   : ℚ
  call  : Call
  reply : Reply

-- All interleavings of calls, under a clock that never goes back.
def system : Transition State Event where
  init s := s.db = .empty
  step s e t := s.clock ≤ e.now ∧ t.clock = e.now ∧ exec s.db e.now e.call = (e.reply, t.db)

-- The outcome with which a call settles its permit, and the settings it uses.
inductive Call.Settlement : Call → Permit → Outcome → Governance → Option String → Prop
  | finish {permit success g code} :
    Settlement (.finish permit success g code) permit (finishOutcome success code) g code
  | release {permit reason} : Settlement (.release permit reason) permit .released {} reason

-- What a committed call did.
inductive Commits (db : Database) (now : ℚ) : Call → Reply → Database → Prop
  | acquire {p g attemptId uuid explicit permit db'} :
    Acquires db now p g (permitId attemptId uuid) permit db' →
    Commits db now (.acquire p g attemptId uuid explicit) (.granted permit) db'
  | settle {call permit outcome g code attempt result db'} :
    Call.Settlement call permit outcome g code →
    db.attempt? permit.permitId = some attempt → attempt.providerId = permit.providerId →
    attempt.generation = permit.generation →
    Settles db now outcome g code attempt result db' →
    Commits db now call (.settled result) db'
  | refused {call error} : Commits db now call (.refused error) db

variable {db db' : Database} {p q id uuid : String} {attemptId : Option String} {now : ℚ}
  {g : Governance} {c c' : Circuit} {a b attempt : Attempt} {permit : Permit} {call : Call}
  {explicit result : Bool} {outcome : Outcome} {code : Option String} {reply : Reply}
  {s t : State} {e : Event} {es : List Event}

theorem exec_commits (h : exec db now call = (reply, db')) : Commits db now call reply db' := by
  cases call <;> simp only [exec] at h
  case acquire =>
    split at h <;> cases h
    case h_1.refl hok => exact .acquire (acquire_ok hok)
    case h_2.refl     => exact .refused
  case finish =>
    split at h <;> cases h
    case h_2.refl => exact .refused
    case h_1.refl hok =>
      have ⟨_, ha, hp, hg, hs⟩ := settle_ok hok
      exact .settle .finish ha hp hg hs
  case release =>
    split at h <;> cases h
    case h_2.refl => exact .refused
    case h_1.refl hok =>
      have ⟨_, ha, hp, hg, hs⟩ := settle_ok hok
      exact .settle .release ha hp hg hs

theorem finishOutcome_eq_success (h : finishOutcome success code = .success) : success = true := by
  by_contra hs
  rw [finishOutcome, if_neg hs] at h
  split at h <;> contradiction

theorem finishOutcome_eq_failure (h : finishOutcome success code = .failure) :
    success = false ∧ ∀ x ∈ code, x ∉ neutralErrors := by
  simp only [finishOutcome] at h
  split at h
  case isTrue => contradiction
  case isFalse hs =>
    split at h
    case isTrue => contradiction
    case isFalse hn => exact ⟨by simpa using hs, by simpa using hn⟩

theorem isCurrent_iff : isCurrent c a now = true ↔ c.generation = a.generation ∧
    ((¬a.isProbe ∧ c.state = .closed) ∨
     (a.isProbe ∧ c.probeId = some a.id ∧ now < c.probeExpires)) := by
  simp [isCurrent]

def Database.phase (db : Database) (p : String) : Phase :=
  ⟨db.state p, db.generation p⟩

theorem Database.phase_of_circuit (h : db.circuits p = some c) :
    db.phase p = ⟨c.state, c.generation⟩ := by
  simp [phase, state_of_circuit h, generation_of_circuit h]

theorem Database.phase_congr (h : db.circuits p = db'.circuits p) : db'.phase p = db.phase p := by
  simp [phase, state, generation, h]

theorem Database.phase_ensureCircuit : (db.ensureCircuit p now).phase q = db.phase q := by
  cases hc : db.circuits p
  case some => rw [ensureCircuit_of_some hc]
  case none =>
    by_cases hq : q = p
    case neg => exact phase_congr (by rw [ensureCircuit_of_none hc, setCircuit_other hq])
    case pos =>
      subst hq
      rw [ensureCircuit_of_none hc, phase_of_circuit setCircuit_self]
      simp [phase, state, generation, hc, Circuit.fresh]

theorem Database.circuit_of_ensureCircuit (h : (db.ensureCircuit p now).circuits p = some c)
    (hf : db.circuits p = some c') : c = c' := by
  simpa [ensureCircuit_of_some hf, hf] using h.symm

namespace Acquires

theorem permitId_eq (h : Acquires db now p g id permit db') : permit.permitId = id := by
  cases h <;> rfl

theorem providerId_eq (h : Acquires db now p g id permit db') : permit.providerId = p := by
  cases h <;> rfl

theorem wf (hw : db.Wf) (h : Acquires db now p g id permit db') : db'.Wf ∧ db.Keeps db' := by
  cases h
  case known => exact ⟨hw, .refl db⟩
  case regular c hn hc hs =>
    have hf : Fits c ⟨id, p, c.generation, false, .pending, now, none, none⟩ :=
      ⟨le_rfl, fun _ h => absurd hs h, fun h => by simp at h⟩
    obtain ⟨h₁, h₂⟩ := (hw.ensureCircuit p now).insertAttempt
      (by simpa [Database.attempt?] using hn) hc hf
    exact ⟨h₁, by simpa [Database.Keeps] using h₂⟩
  case probe c hn hc hs hb =>
    obtain ⟨h₁, k₁⟩ := hw.expireProbe c.probeId now
    have h₂ := h₁.setCircuit ⟨.halfOpen, c.generation + 1, c.openUntil, some id,
      some (now + g.leaseSeconds), now⟩ hc rfl
    have hn' : ((db.expireProbe c.probeId now).setCircuit p ⟨.halfOpen, c.generation + 1,
        c.openUntil, some id, some (now + g.leaseSeconds), now⟩).attempt? id = none := by
      refine List.find?_eq_none.mpr fun b hb => ?_
      obtain ⟨a, ha, hab⟩ := List.mem_map.mp hb
      have := Database.attempt?_none hn a ha
      subst hab
      split <;> simpa using this
    obtain ⟨h₃, k₃⟩ := h₂.insertAttempt (a := ⟨id, p, c.generation + 1, true, .pending, now, none, none⟩)
      hn' Database.setCircuit_self ⟨le_rfl, fun h => absurd rfl h, fun _ _ => ⟨rfl, rfl⟩⟩
    exact ⟨h₃, k₁.trans k₃⟩

-- What admission does to a circuit: nothing, or it starts a probe.
theorem phase_cases (h : Acquires db now p g id permit db') (q : String) :
    db'.phase q = db.phase q ∨
    (db.state q ≠ .closed ∧ db'.phase q = ⟨.halfOpen, db.generation q + 1⟩) := by
  cases h
  case known => exact .inl rfl
  case regular => exact .inl Database.phase_ensureCircuit
  case probe c _ hc hs _ =>
    by_cases hq : q = p
    case neg => exact .inl (Database.phase_congr (by simp [Database.setCircuit_other hq]))
    case pos =>
      subst hq
      rw [Database.state_of_circuit hc, Database.generation_of_circuit hc,
        Database.phase_of_circuit (c := ⟨.halfOpen, c.generation + 1, c.openUntil, some id,
          some (now + g.leaseSeconds), now⟩) (by simp)]
      exact .inr ⟨hs, rfl⟩

theorem refines (h : Acquires db now p g id permit db') (q : String) :
    db'.phase q = db.phase q ∨ (db.phase q).Next (db'.phase q) := by
  cases h.phase_cases q
  case inl h => exact .inl h
  case inr h => exact .inr (h.right ▸ .probe h.left)

end Acquires

namespace Settles

theorem wf (hw : db.Wf) (ha : db.attempt? id = some attempt)
    (h : Settles db now outcome g code attempt result db') : db'.Wf ∧ db.Keeps db' := by
  have hm := (Database.attempt?_some ha).left
  cases h
  case done => exact ⟨hw, .refl db⟩
  case stale hp _ _  => exact hw.settleAttempt hm hp .stale now code
  case sample hp _ _ _ => exact hw.settleAttempt hm hp outcome.state now code
  case probe c hp hc _ _ =>
    have ⟨h₁, k₁⟩ := hw.settleAttempt hm hp outcome.state now code
    exact ⟨h₁.setCircuit _ hc rfl, k₁⟩
  case trip c hp hc _ _ _ _ =>
    have ⟨h₁, k₁⟩ := hw.settleAttempt hm hp outcome.state now code
    exact ⟨h₁.setCircuit _ hc rfl, k₁⟩

-- What a settlement does to a circuit: nothing, or it settles its current probe, or it trips on a
-- failure of a current regular attempt.
theorem phase_cases (h : Settles db now outcome g code attempt result db') (q : String) :
    db'.phase q = db.phase q ∨
    (q = attempt.providerId ∧ attempt.state = .pending ∧ result = true ∧
      ∃ c, db.circuits q = some c ∧ isCurrent c attempt now ∧
      ((attempt.isProbe ∧
        db'.phase q = ⟨if outcome = .success then .closed else .opened, c.generation + 1⟩) ∨
       (¬attempt.isProbe ∧ outcome = .failure ∧
        g.trips (db'.samples q attempt.generation (now - g.windowSeconds)) ∧
        db'.phase q = ⟨.opened, c.generation + 1⟩))) := by
  by_cases hq : q = attempt.providerId
  case neg =>
    left
    cases h <;> exact Database.phase_congr (by simp [Database.setCircuit_other hq])
  case pos =>
    subst hq
    cases h
    case done   => exact .inl rfl
    case stale  => exact .inl (Database.phase_congr rfl)
    case sample => exact .inl (Database.phase_congr rfl)
    case probe c hp hc hcur hpr =>
      exact .inr ⟨rfl, hp, rfl, c, hc, hcur,
        .inl ⟨hpr, Database.phase_of_circuit Database.setCircuit_self⟩⟩
    case trip c hp hc hcur hpr ho ht =>
      exact .inr ⟨rfl, hp, rfl, c, hc, hcur,
        .inr ⟨hpr, ho, ht, Database.phase_of_circuit Database.setCircuit_self⟩⟩

-- Only the probe that holds a half-open circuit can close or reopen it.
theorem refines (hw : db.Wf) (ha : db.attempt? id = some attempt)
    (h : Settles db now outcome g code attempt result db') (q : String) :
    db'.phase q = db.phase q ∨ (db.phase q).Next (db'.phase q) := by
  have hm := (Database.attempt?_some ha).left
  cases h.phase_cases q
  case inl h => exact .inl h
  case inr h =>
    obtain ⟨rfl, _, _, c, hc, hcur, h⟩ := h
    have ⟨hg, hcur⟩ := isCurrent_iff.mp hcur
    right
    rw [Database.phase_of_circuit hc]
    cases h
    case inl h =>
      rw [h.right, ((hw.fits_of hm hc).probe h.left hg.symm).left]
      split
      · exact .close
      · exact .reopen
    case inr h =>
      have hs : c.state = .closed := by simpa [h.left] using hcur
      rw [h.right.right.right, hs]
      exact .trip

end Settles

namespace Commits

theorem wf (hw : db.Wf) : (Commits db now call reply db') → db'.Wf ∧ db.Keeps db'
  | .acquire h         => h.wf hw
  | .settle _ ha _ _ h => h.wf hw ha
  | .refused           => ⟨hw, .refl db⟩

theorem refines (hw : db.Wf) (q : String) :
    (Commits db now call reply db') → db'.phase q = db.phase q ∨ (db.phase q).Next (db'.phase q)
  | .acquire h         => h.refines q
  | .settle _ ha _ _ h => h.refines hw ha q
  | .refused           => .inl rfl

end Commits

theorem step_commits (h : system.step s e t) : Commits s.db e.now e.call e.reply t.db :=
  exec_commits h.right.right

theorem step_wf (hw : s.db.Wf) (h : system.step s e t) : t.db.Wf :=
  ((step_commits h).wf hw).left

theorem reachable_wf (h : system.Reachable s) : s.db.Wf :=
  h.invariant (I := (·.db.Wf)) (fun s (h₀ : s.db = .empty) => h₀ ▸ .empty) fun _ _ _ => step_wf

theorem run_wf (hw : s.db.Wf) (r : system.Run s es t) : t.db.Wf :=
  r.preserves (I := (·.db.Wf)) (fun _ _ _ => step_wf) hw

-- Over a whole run the generation of a circuit never decreases.
theorem run_generation_le (hw : s.db.Wf) (r : system.Run s es t) (p : String) :
    s.db.generation p ≤ t.db.generation p := by
  refine r.relates (I := (·.db.Wf)) (R := fun s t => s.db.generation p ≤ t.db.generation p)
    (fun _ _ _ => step_wf) (fun _ => le_rfl) (fun _ _ _ => le_trans) (fun s e t hw h => ?_) hw
  cases Commits.refines hw p (step_commits h)
  case inl h => exact (congrArg Phase.generation h).ge
  case inr h => exact (Nat.le_succ _).trans h.generation_eq.ge

-- Over a whole run a settled attempt keeps its row.
theorem run_settled (hw : s.db.Wf) (r : system.Run s es t) (ha : a ∈ s.db.attempts)
    (hs : a.state ≠ .pending) : a ∈ t.db.attempts := by
  have h := r.relates (I := (·.db.Wf)) (R := fun s t => s.db.Keeps t.db)
    (fun _ _ _ => step_wf) (fun _ => .refl _) (fun _ _ _ => .trans)
    (fun s e t hw h => ((step_commits h).wf hw).right) hw
  have ⟨b, hb, hab⟩ := h a ha
  exact hab.settled hs ▸ hb

end ProviderCircuit
