import V8AgentOs.Automation.Effects

namespace Automation

open Runs (Time)

variable {lower : String → String} {s₀ s t u v : State} {e g : Event} {es es' es₁ es₂ before : List Event}
  {key : String} {r : Receipt} {c : Claim} {clock : Clock} {ok : State → Event → Prop}

theorem run_det (h : (system lower).Run s es t) (h' : (system lower).Run s es u) : t = u := by
  induction h generalizing u
  case refl =>
    cases h'
    rfl
  case trans hs _ hi =>
    cases h'
    case trans hs' h' =>
      apply hi
      have hdb := (Prod.mk.inj (hs.right.left.symm.trans hs'.right.left)).right
      have hclock := hs.right.right.trans hs'.right.right.symm
      rename_i t₁ _ _ _ t₂
      cases t₁
      cases t₂
      cases hdb
      cases hclock
      exact h'

-- The claim of a key that was granted last
def latestGrant (key : String) (es : List Event) : Option (Claim × Clock) :=
  Transition.latest (·.grant key) es

-- The delivery was in no state of the run executing.
def NeverExecuting (lower : String → String) (s₀ : State) (before : List Event) (id : String) : Prop :=
  ∀ p q v, before = p ++ q → (system lower).Run s₀ p v → phaseOf v id ≠ some .executing

-- Why a receipt became a failed one: the owner of the latest claim said so, an operator did, or it belongs
-- to a delivery whose action was not started.
inductive Cause (lower : String → String) (s₀ : State) (before : List Event) (u : State) (f : Event)
    (r : Receipt) : Prop
  | owner (c : Claim) (t : Clock) (hc : f.call.settles = some (r.idempotencyKey, c.owner, .failed))
      (hl : latestGrant r.idempotencyKey before = some (c, t))
  | reconciliation (h : f.call.reconciles = some r.idempotencyKey)
  | recovery (now : Time) (limit : ℤ) (d : Delivery) (h : r.Released f u.db now limit d)
      (hn : NeverExecuting lower s₀ before d.deliveryId)

-- After the events `before`, the event `f` moves the receipt of a key to failed.
def MovedToFailed (lower : String → String) (s₀ : State) (before : List Event) (f : Event) (key : String) : Prop :=
  ∃ u v r r', (system lower).Run s₀ before u ∧ (system lower).step u f v ∧ u.db.receipts.get? key = some r ∧
    r.state ≠ .failed ∧ v.db.receipts.get? key = some r' ∧ r'.state = .failed ∧ Cause lower s₀ before u f r

-- A claimed receipt is held by the latest claim.
def Held (es : List Event) (s : State) : Prop :=
  ∀ key r, s.db.receipts.get? key = some r → r.state = .claimed →
    ∃ c t, latestGrant key es = some (c, t) ∧ r.ownerId = some c.owner ∧ r.leaseExpiresAt = some (c.lease t)

theorem Held.step (h : Held es s) (hs : (system lower).step s e t) : Held (es ++ [e]) t := by
  intro key r' hr' hstate
  have he := step_effects hs
  rw [latestGrant, Transition.latest_concat]
  cases hr : s.db.receipts.get? key
  case none =>
    cases he.made key r' hr hr'
    case inl hg =>
      have ⟨c, t, hg, _, ho, hl⟩ := hg
      exact ⟨c, t, by rw [hg]; rfl, ho, hl⟩
    case inr hg =>
      rw [hstate] at hg
      cases hg.right
  case some r =>
    have ⟨r₂, hr₂, hm⟩ := he.kept key r hr
    cases hr₂.symm.trans hr'
    have hkey := Table.key_of_get? hr
    cases hg : e.grant key
    case some p =>
      have ⟨_, _, ho, hl⟩ := hm.granted p.1 p.2 (by rw [hkey, hg])
      exact ⟨p.1, p.2, rfl, ho, hl⟩
    case none =>
      have hg : e.grant r.idempotencyKey = none := by rw [hkey, hg]
      have hsame : r' = r := by
        cases hst : r.state
        case completed => exact hm.completed hst
        case failed    => exact hm.failed hst hg
        case indeterminate =>
          cases hm.indeterminate hst
          case inl h => exact h
          case inr h => simp [hstate] at h
        case claimed =>
          cases hm.claimed hst hg
          case inl h => exact h
          case inr h => simp [hstate] at h
      subst hsame
      exact h key r' hr hstate

theorem held_of_run (h₀ : (system lower).init s₀) (r : (system lower).Run s₀ es s) : Held es s := by
  have h : Held [] s₀ := by
    intro key r hr
    have hm := Table.mem_of_get? hr
    rw [h₀.left] at hm
    cases hm
  exact r.from_start h fun _ _ _ _ h hs => h.step hs

-- A delivery that is recovered as not started never was executing, in a run that blocks no executing delivery.
theorem neverExecuting (hok : ∀ s e, ok s e → ¬e.call.Blocks s.db) (r : ((system lower).restrict ok).Run s₀ es s)
    {d : Delivery} (hd : s.db.deliveries.get? d.deliveryId = some d) (hp : d.phase = .claimed ∨ d.phase = .admitted) :
    NeverExecuting lower s₀ es d.deliveryId := by
  intro p q v he hv hphase
  have ⟨w, hw, hrest⟩ := (he ▸ r).of_append
  cases run_det hv hw.of_restrict
  have ⟨⟨ph, hph, hstarted⟩, _⟩ := started_stays hok hrest hphase rfl
  have : ph = d.phase := by simpa [phaseOf, hd] using hph.symm
  subst this
  cases hp
  case inl h => simp [h, Phase.started, Phase.settled] at hstarted
  case inr h => simp [h, Phase.started, Phase.settled] at hstarted

-- What a granted claim leaves behind: its receipt was moved to failed since, or it is not to be claimed again
-- before the lease is over.
def Spent (lower : String → String) (s₀ : State) (key : String) (es : List Event) (s : State) : Prop :=
  ∀ es₁ g es₂ c t, es = es₁ ++ g :: es₂ → g.grant key = some (c, t) →
    (∃ a f b, es₂ = a ++ f :: b ∧ MovedToFailed lower s₀ (es₁ ++ g :: a) f key) ∨
    ∃ r, s.db.receipts.get? key = some r ∧ (r.state = .completed ∨ r.state = .indeterminate ∨
      r.state = .claimed ∧ ∃ l, r.leaseExpiresAt = some l ∧ (l = c.lease t ∨ c.lease t ≤ s.clock))

theorem clock_mono (hs : (system lower).step s e t) : s.clock ≤ t.clock := by
  have ⟨h, _, hclock⟩ := hs
  rw [hclock]
  cases he : e.call.time
  case none     => exact le_refl _
  case some now => exact h now (by rw [he]; rfl)

-- The receipt of a granted claim
theorem granted_row (hs : (system lower).step s e t) (hg : e.grant key = some (c, clock)) :
    ∃ r', t.db.receipts.get? key = some r' ∧ r'.state = .claimed ∧ r'.leaseExpiresAt = some (c.lease clock) := by
  have he := step_effects hs
  cases hr : s.db.receipts.get? key
  case some r =>
    have ⟨r', hr', hm⟩ := he.kept key r hr
    have ⟨_, hst, _, hl⟩ := hm.granted c clock (by rw [Table.key_of_get? hr, hg])
    exact ⟨r', hr', hst, hl⟩
  case none =>
    cases hr' : t.db.receipts.get? key
    case none =>
      rw [he.absent key hr hr'] at hg
      cases hg
    case some r' =>
      cases he.made key r' hr hr'
      case inl h =>
        have ⟨c', t', hg', hst, _, hl⟩ := h
        cases hg'.symm.trans hg
        exact ⟨r', rfl, hst, hl⟩
      case inr h =>
        rw [h.left] at hg
        cases hg

-- A claim is granted at the time at which it is made.
theorem grant_clock (hs : (system lower).step s e t) (hg : e.grant key = some (c, clock)) :
    t.clock = clock.now ∧ s.clock ≤ clock.now := by
  have hcall : e.call = .claimReceipt c clock := by
    unfold Event.grant at hg
    split at hg
    case h_1 =>
      split at hg
      case isTrue =>
        cases hg
        assumption
      case isFalse => cases hg
    case h_2 => cases hg
  have ⟨h, _, hclock⟩ := hs
  rw [hcall] at h hclock
  exact ⟨hclock, h clock.now rfl⟩

theorem Spent.step (hok : ∀ s e, ok s e → ¬e.call.Blocks s.db) (h₀ : (system lower).init s₀)
    (r : ((system lower).restrict ok).Run s₀ es s) (h : Spent lower s₀ key es s)
    (hs : ((system lower).restrict ok).step s e t) : Spent lower s₀ key (es ++ [e]) t := by
  intro es₁ g es₂ c clock he hg
  cases Transition.split_concat he
  case inl hlast =>
    have ⟨_, _, heq⟩ := hlast
    subst heq
    have ⟨r', hr', hst, hl⟩ := granted_row hs.right hg
    exact .inr ⟨r', hr', .inr (.inr ⟨hst, _, hl, .inl rfl⟩)⟩
  case inr hprev =>
    have ⟨es₃, hes₂, hes⟩ := hprev
    subst hes₂
    cases h es₁ g es₃ c clock hes hg
    case inl hf =>
      have ⟨a, f, b, hes₃, hm⟩ := hf
      exact .inl ⟨a, f, b ++ [e], by simp [hes₃], hm⟩
    case inr hrow =>
      have ⟨rw, hr, hstate⟩ := hrow
      have ⟨r', hr', hm⟩ := (step_effects hs.right).kept key rw hr
      have hkey := Table.key_of_get? hr
      -- The receipt is moved to failed by this event.
      have hfails (hne : rw.state ≠ .failed) (hst : r'.state = .failed) (hcause : Cause lower s₀ es s e rw) :
          ∃ a f b, es₃ ++ [e] = a ++ f :: b ∧ MovedToFailed lower s₀ (es₁ ++ g :: a) f key :=
        ⟨es₃, e, [], rfl, s, t, rw, r', hes ▸ r.of_restrict, hs.right, hr, hne, hr', hst, hes ▸ hcause⟩
      cases hstate
      case inl hst => exact .inr ⟨r', hr', .inl (by rw [hm.completed hst, hst])⟩
      case inr hstate =>
        cases hstate
        case inl hst =>
          cases hm.indeterminate hst
          case inl heq => exact .inr ⟨r', hr', .inr (.inl (heq ▸ hst))⟩
          case inr hrec =>
            have ⟨hcall, hend⟩ := hrec
            cases hend
            case inl hc => exact .inr ⟨r', hr', .inl hc⟩
            case inr hf => exact .inl (hfails (by simp [hst]) hf (.reconciliation hcall))
        case inr hclaimed =>
          have ⟨hst, l, hl, hlease⟩ := hclaimed
          have hlate : l = c.lease clock ∨ c.lease clock ≤ t.clock := by
            cases hlease
            case inl h => exact .inl h
            case inr h => exact .inr (le_trans h (clock_mono hs.right))
          cases hg' : e.grant key
          case some p =>
            have ⟨hbefore, hst', _, hl'⟩ := hm.granted p.1 p.2 (by rw [hkey, hg'])
            have hexpired : l ≤ p.2.now := by
              cases hbefore
              case inl h => simp [hst] at h
              case inr h => simpa [Receipt.expired, hl] using h.right.left
            have hclock := (grant_clock hs.right hg').left
            refine .inr ⟨r', hr', .inr (.inr ⟨hst', _, hl', .inr ?_⟩)⟩
            cases hlate
            case inl h => rw [← h, hclock]; exact hexpired
            case inr h => exact h
          case none =>
            cases hm.claimed hst (by rw [hkey, hg'])
            case inl heq => exact .inr ⟨r', hr', .inr (.inr ⟨heq ▸ hst, l, heq ▸ hl, hlate⟩)⟩
            case inr hmoved =>
              cases hmoved
              case inl hc => exact .inr ⟨r', hr', .inl hc⟩
              case inr hmoved =>
                cases hmoved
                case inl hi => exact .inr ⟨r', hr', .inr (.inl hi)⟩
                case inr hf =>
                  refine .inl (hfails (by simp [hst]) hf.left ?_)
                  cases hf.right
                  case released now limit d hd =>
                    exact .recovery now limit d hd (neverExecuting hok r hd.found hd.phase)
                  case owner owner hc ho =>
                    have ⟨c', t', hl', ho', _⟩ := held_of_run h₀ r.of_restrict key rw hr hst
                    rw [ho] at ho'
                    cases ho'
                    exact .owner c' t' hc (by rw [hkey, hl'])

theorem spent_of_run (key : String) (hok : ∀ s e, ok s e → ¬e.call.Blocks s.db) (h₀ : (system lower).init s₀)
    (r : ((system lower).restrict ok).Run s₀ es s) : Spent lower s₀ key es s := by
  have hrun : ((system lower).restrict ok).Run s₀ es s ∧ Spent lower s₀ key es s := by
    apply r.from_start (H := fun es s => ((system lower).restrict ok).Run s₀ es s ∧ Spent lower s₀ key es s)
    case h  => exact ⟨.refl, fun es₁ g es₂ c t he => by simp at he⟩
    case hH => exact fun _ _ _ _ h hs => ⟨h.left.append (.single hs), h.right.step hok h₀ h.left hs⟩
  exact hrun.right

-- An owner whose report is refused changes nothing.
theorem refused_unchanged {owner : String} {state : ReceiptState} (hs : (system lower).step s e t)
    (hc : e.call.settles = some (key, owner, state)) (ha : e.accepted = false) : t.db = s.db := by
  cases e
  case mk call accepted =>
    have hrun : call.run lower s.db = (accepted, t.db) := hs.right.left
    have ha : accepted = false := ha
    subst ha
    have hsame {p : Receipt → Bool} {f : Receipt → Receipt} {hf : ∀ r, (f r).idempotencyKey = r.idempotencyKey}
        (h : s.db.withReceipts (s.db.receipts.any p, s.db.receipts.update p f hf) = (false, t.db)) : t.db = s.db := by
      have ⟨hany, hdb⟩ := Prod.mk.inj h
      rw [← hdb, Table.update_of_not_any hany]
    cases call
    case completeReceipt => exact hsame hrun
    case failReceipt     => exact hsame hrun
    case markReceipt     => exact hsame hrun
    all_goals cases hc

theorem completed_stays {row : Receipt} (hrun : (system lower).Run s es u)
    (hrow : s.db.receipts.get? key = some row) (hst : row.state = .completed) :
    u.db.receipts.get? key = some row ∧ ∀ e ∈ es, e.grant key = none := by
  induction hrun
  case refl => exact ⟨hrow, by simp⟩
  case trans e es hs _ hi =>
    have ⟨row', hrow', hm⟩ := (step_effects hs).kept key row hrow
    rw [hm.completed hst] at hrow'
    have ⟨hu, hall⟩ := hi hrow'
    refine ⟨hu, fun e' he' => ?_⟩
    cases List.mem_cons.mp he'
    case inr he' => exact hall e' he'
    case inl he' =>
      subst he'
      cases hg : Event.grant key e'
      case none => rfl
      case some p =>
        have ⟨hbefore, _⟩ := hm.granted p.1 p.2 (by rw [Table.key_of_get? hrow, hg])
        simp [hst] at hbefore

-- The steps that block no executing delivery
def Unblocked (s : State) (e : Event) : Prop :=
  ¬e.call.Blocks s.db

-- In a run that blocks no executing delivery: between two granted claims of a key its receipt was moved to
-- failed, by the owner of the latest claim, by an operator or because its delivery was never executing, or
-- the second claim is replay safe and the lease of the first one is over; a completed receipt stays as it is
-- and is not granted again; an uncertain one is left by a reconciliation only; and the report of anybody but
-- the owner of the latest claim is refused and changes nothing.
theorem effect_once (h₀ : (system lower).init s₀) (r : ((system lower).restrict Unblocked).Run s₀ es s)
    (key : String) :
    (∀ es₁ g es₂ g' es₃ c t c' t', es = es₁ ++ g :: (es₂ ++ g' :: es₃) → g.grant key = some (c, t) →
      g'.grant key = some (c', t') →
      (∃ a f b, es₂ = a ++ f :: b ∧ MovedToFailed lower s₀ (es₁ ++ g :: a) f key) ∨
        c'.replaySafe ∧ c.lease t ≤ t'.now) ∧
    (∀ row es' u, s.db.receipts.get? key = some row → row.state = .completed → (system lower).Run s es' u →
      u.db.receipts.get? key = some row ∧ ∀ e ∈ es', e.grant key = none) ∧
    (∀ row e t, s.db.receipts.get? key = some row → row.state = .indeterminate → (system lower).step s e t →
      t.db.receipts.get? key = some row ∨ e.call.reconciles = some key) ∧
    ∀ e t owner state, (system lower).step s e t → e.call.settles = some (key, owner, state) →
      (∀ c clock, latestGrant key es = some (c, clock) → c.owner ≠ owner) → e.accepted = false ∧ t.db = s.db := by
  refine ⟨?between, ?completed, ?indeterminate, ?fenced⟩
  case between =>
    intro es₁ g es₂ g' es₃ c t c' t' he hg hg'
    have he : es = (es₁ ++ g :: es₂) ++ g' :: es₃ := by simp [he]
    have ⟨s₂, r₂, r₃⟩ := (he ▸ r).of_append
    cases r₃
    case trans hs _ =>
      cases spent_of_run key (fun _ _ h => h) h₀ r₂ es₁ g es₂ c t rfl hg
      case inl h => exact .inl h
      case inr h =>
        have ⟨row, hrow, hstate⟩ := h
        have ⟨row', _, hm⟩ := (step_effects hs.right).kept key row hrow
        have ⟨hbefore, _⟩ := hm.granted c' t' (by rw [Table.key_of_get? hrow, hg'])
        cases hbefore
        case inl hf => simp [hf] at hstate
        case inr hc =>
          have ⟨hst, hexp, hsafe⟩ := hc
          simp only [hst, reduceCtorEq, false_or, true_and] at hstate
          have ⟨l, hl, hlease⟩ := hstate
          have hexp : l ≤ t'.now := by simpa [Receipt.expired, hl] using hexp
          refine .inr ⟨hsafe, ?_⟩
          cases hlease
          case inl h => exact h ▸ hexp
          case inr h => exact le_trans h (grant_clock hs.right hg').right
  case completed => exact fun row es' u hrow hst hrun => completed_stays hrun hrow hst
  case indeterminate =>
    intro row e t hrow hst hs
    have ⟨row', hrow', hm⟩ := (step_effects hs).kept key row hrow
    cases hm.indeterminate hst
    case inl h => exact .inl (h ▸ hrow')
    case inr h => exact .inr (Table.key_of_get? hrow ▸ h.left)
  case fenced =>
    intro e t owner state hs hc hne
    have ha : e.accepted = false := by
      have he := step_effects hs
      cases hrow : s.db.receipts.get? key
      case none => exact he.ignored key hrow owner state hc
      case some row =>
        have ⟨_, _, hm⟩ := he.kept key row hrow
        cases hacc : e.accepted
        case false => rfl
        case true =>
          have ⟨hst, ho⟩ := hm.fenced owner state (by rw [Table.key_of_get? hrow, hc]) hacc
          have ⟨c, clock, hl, ho', _⟩ := held_of_run h₀ r.of_restrict key row hrow hst
          rw [ho] at ho'
          cases ho'
          exact absurd rfl (hne c clock hl)
    exact ⟨ha, refused_unchanged hs hc ha⟩

section Sample

def sampleClaim (owner : String) : Claim where
  sessionId          := "session"
  runId              := some "automation-1"
  idempotencyKey     := "key"
  effectKind         := "automation.trigger_execution"
  stepKey            := "automation.execute.agent"
  targetIdentity     := "memory_agent"
  payloadFingerprint := "fingerprint"
  ownerId            := owner
  metadata           := []

def sampleAdmitted : List Call :=
  [.enqueue sampleSource [sampleEntry] 0, .claim "delivery" "worker" 30 "" (moment 1),
    .admitted "delivery" "worker" (moment 2)]

def sampleFirst : Call :=
  .claimReceipt (sampleClaim "first") (moment 3)

-- The action of the delivery is started, and waits for an approval.
def sampleBegun : List Call :=
  [.linkReceipt "delivery" "worker" "key" (moment 3), .executing "delivery" "worker" true "key" (moment 3)]

def sampleStarted : State :=
  sampleState.performAll sampleLower (sampleAdmitted ++ sampleFirst :: sampleBegun)

def sampleReviewed : Finished where
  ownerId   := "worker"
  status    := "review_required"
  error     := none
  item      := (sampleStarted.db.deliveries.get? "delivery").getD (sampleEntry.row sampleSource 0)
  runStatus := none
  receipt   := sampleStarted.db.receipts.get? "key"

def sampleLost : List Call :=
  [.finished sampleReviewed (moment 4), .admitted "delivery" "worker" (moment 5)]

def sampleRecover : Call :=
  .reconcileDeliveries 40000 100

def sampleSecond : Call :=
  .claimReceipt (sampleClaim "second") (moment 40001)

def sampleCalls : List Call :=
  sampleAdmitted ++ sampleFirst :: (sampleBegun ++ sampleLost ++ [sampleRecover]) ++ [sampleSecond]

theorem sampleCalls_run : (system sampleLower).Run sampleState (sampleCalls.map (⟨·, true⟩))
    (sampleState.performAll sampleLower sampleCalls) :=
  accepted_run (by decide +kernel) (by decide +kernel)

theorem sampleStarted_run : (system sampleLower).Run sampleState
    ((sampleAdmitted ++ sampleFirst :: sampleBegun).map (⟨·, true⟩)) sampleStarted :=
  accepted_run (by decide +kernel) (by decide +kernel)

theorem sampleLost_run : (system sampleLower).Run sampleState
    ((sampleAdmitted ++ sampleFirst :: (sampleBegun ++ sampleLost)).map (⟨·, true⟩))
    (sampleState.performAll sampleLower (sampleAdmitted ++ sampleFirst :: (sampleBegun ++ sampleLost))) :=
  accepted_run (by decide +kernel) (by decide +kernel)

theorem sampleLost_deliveries :
    (sampleState.performAll sampleLower
      (sampleAdmitted ++ sampleFirst :: (sampleBegun ++ sampleLost))).db.deliveries.rows.map (·.deliveryId) =
        ["delivery"] := by decide +kernel

theorem grant_of_key (h : c.key = key) : Event.grant key ⟨.claimReceipt c clock, true⟩ = some (c, clock) := by
  simp [Event.grant, h]

-- The recovery comes after everything else between the two claims.
theorem recover_last {a b : List Call} {now : Time} {limit : ℤ}
    (h : sampleBegun ++ sampleLost ++ [sampleRecover] = a ++ .reconcileDeliveries now limit :: b) :
    a = sampleBegun ++ sampleLost := by
  cases Transition.split_concat h
  case inl hlast => exact hlast.right.left.symm
  case inr hprev =>
    have ⟨_, _, hl⟩ := hprev
    have hm : Call.reconcileDeliveries now limit ∈ sampleBegun ++ sampleLost := by simp [hl]
    simp [sampleBegun, sampleLost] at hm

-- A receipt whose delivery was executing is claimed again.
theorem effect_twice :
    ¬∀ (lower : String → String) (s₀ s : State) (es : List Event) (key : String), (system lower).init s₀ →
      (system lower).Run s₀ es s → ∀ es₁ g es₂ g' es₃ c t c' t', es = es₁ ++ g :: (es₂ ++ g' :: es₃) →
      g.grant key = some (c, t) → g'.grant key = some (c', t') →
      (∃ a f b, es₂ = a ++ f :: b ∧ MovedToFailed lower s₀ (es₁ ++ g :: a) f key) ∨
        c'.replaySafe ∧ c.lease t ≤ t'.now := by
  intro h
  have hf := h sampleLower sampleState _ _ "key" ⟨rfl, rfl⟩ sampleCalls_run (sampleAdmitted.map (⟨·, true⟩))
    ⟨sampleFirst, true⟩ ((sampleBegun ++ sampleLost ++ [sampleRecover]).map (⟨·, true⟩)) ⟨sampleSecond, true⟩ []
    _ _ _ _ (by simp [sampleCalls]) (grant_of_key (by decide +kernel)) (grant_of_key (by decide +kernel))
  cases hf
  case inr hr => exact absurd hr.left (by decide)
  case inl hf =>
    have ⟨a, f, b, hsplit, hm⟩ := hf
    have ⟨a', l, hcalls, ha, hl⟩ := List.map_eq_append_iff.mp hsplit
    have ⟨f', b', hl', hf', hb⟩ := List.map_eq_cons_iff.mp hl
    subst ha hf' hb hl'
    have hmem : f' ∈ sampleBegun ++ sampleLost ++ [sampleRecover] := by simp [hcalls]
    have ⟨u, _, r, _, hu, _, _, _, _, _, hcause⟩ := hm
    cases hcause
    case owner c t hc _ =>
      have hn : ∀ f ∈ sampleBegun ++ sampleLost ++ [sampleRecover], f.settles = none :=
        List.forall_iff_forall_mem.mp ⟨rfl, rfl, rfl, rfl, rfl⟩
      rw [hn f' hmem] at hc
      cases hc
    case reconciliation hc =>
      have hn : ∀ f ∈ sampleBegun ++ sampleLost ++ [sampleRecover], f.reconciles = none :=
        List.forall_iff_forall_mem.mp ⟨rfl, rfl, rfl, rfl, rfl⟩
      rw [hn f' hmem] at hc
      cases hc
    case recovery now limit d hr hn =>
      have hcall : f' = .reconcileDeliveries now limit := hr.call
      subst hcall
      have ha := recover_last hcalls
      subst ha
      have hbefore : (sampleAdmitted.map (⟨·, true⟩) ++ ⟨sampleFirst, true⟩ ::
          (sampleBegun ++ sampleLost).map (⟨·, true⟩) : List Event) =
          (sampleAdmitted ++ sampleFirst :: (sampleBegun ++ sampleLost)).map (⟨·, true⟩) := by simp
      cases run_det (hbefore ▸ hu) sampleLost_run
      have hid : d.deliveryId ∈ ["delivery"] :=
        sampleLost_deliveries ▸ List.mem_map.mpr ⟨d, Table.mem_of_get? hr.found, rfl⟩
      have hexec : phaseOf sampleStarted "delivery" = some .executing := by decide +kernel
      apply hn ((sampleAdmitted ++ sampleFirst :: sampleBegun).map (⟨·, true⟩)) (sampleLost.map (⟨·, true⟩)) _
        (by simp) sampleStarted_run
      rw [List.mem_singleton.mp hid, hexec]

def sampleTakeover : Call :=
  .claimReceipt { sampleClaim "second" with replaySafe := true } (moment 400000)

-- The first claim of a key, and the one that takes it over once its lease is over
theorem effect_once_takeover : (sampleClaim "first").lease (moment 3) ≤ 400000 := by
  have ht : onTime sampleState.clock [sampleFirst, sampleTakeover] := by decide
  have hok : ∀ c ∈ [sampleFirst, sampleTakeover], ∀ s b, Unblocked s ⟨c, b⟩ :=
    List.forall_iff_forall_mem.mp ⟨fun _ _ => id, fun _ _ => id⟩
  have ha : sampleState.accepts sampleLower [sampleFirst, sampleTakeover] := by decide +kernel
  have r : ((system sampleLower).restrict Unblocked).Run sampleState _ _ := performAll_run Unblocked ht hok
  rw [events_of_accepts ha] at r
  have h := (effect_once ⟨rfl, rfl⟩ r "key").left [] ⟨sampleFirst, true⟩ [] ⟨sampleTakeover, true⟩ [] _ _ _ _ rfl
    (grant_of_key (by decide +kernel)) (grant_of_key (by decide +kernel))
  cases h
  case inr h => exact h.right
  case inl h =>
    have ⟨a, f, b, he, _⟩ := h
    simp at he

end Sample
end Automation
