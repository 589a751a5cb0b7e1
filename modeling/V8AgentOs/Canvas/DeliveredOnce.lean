import V8AgentOs.Canvas.Deliveries
import V8AgentOs.Canvas.Undo

-- What a transaction of a review or of a delivery can do, and what holds of every run of them.
namespace Canvas.Reviews

-- The head of the output's result has the revision.
def Current (db : Ledger) (outputVersionId : String) (revision : ℕ) : Prop :=
  ∃ output, db.outputs outputVersionId = some output ∧ (db.head output.result).revision = revision

-- The output that a call names, and the revision that it expects
def Event.expects (r : Rules) (s : Desk) : Event → Option (String × ℕ)
  | .review request                => (r.cleanId request.outputVersionId).map (·, request.expectedRevision)
  | .open call                     => some (call.outputVersionId, call.expectedRevision)
  | .claim leaseId
  | .acknowledge leaseId           => (s.calls.get? leaseId).map fun c => (c.outputVersionId, c.expectedRevision)
  | .record _ | .raise .. | .recordFailure _ => none

-- What an event does to the tables
inductive Effect (r : Rules) (m : Moment) (s : Desk) : Event → Ledger → Prop
  | same {e} : Effect r m s e s.ledger
  | recorded {output} (hnew : s.ledger.outputs output.outputVersionId = none) : Effect r m s (.record output)
    { s.ledger with outputs := Function.update s.ledger.outputs output.outputVersionId (some output) }
  | decided {request id output verdict} (hid : r.cleanId request.outputVersionId = some id)
    (houtput : s.ledger.outputs id = some output)
    (hrevision : (s.ledger.head output.result).revision = request.expectedRevision)
    (hself : ∀ review, s.ledger.reviews.get? id = some review → review.status ≠ .delivered)
    (hprior : verdict.selectedForDelivery →
      ∀ prior, s.ledger.priorSelected output = some prior → prior.status ≠ .delivered) :
    Effect r m s (.review request) (s.ledger.write m.now output verdict)
  | claimed {leaseId call attempt} (hcall : s.calls.get? leaseId = some call) : Effect r m s (.claim leaseId)
    (s.ledger.rewrite call.claims (call.claimed attempt) fun _ => call.id_claimed)
  | acknowledged {leaseId call} (hcall : s.calls.get? leaseId = some call) : Effect r m s (.acknowledge leaseId)
    (s.ledger.rewrite call.acknowledges (Call.delivered m.now) fun _ => Call.id_delivered)
  | failed {leaseId call errorDetailCode} (hcall : s.calls.get? leaseId = some call) :
    Effect r m s (.recordFailure leaseId)
    (s.ledger.rewrite call.holds (Call.failed errorDetailCode) fun _ => Call.id_failed)

section Step

variable {r : Rules} {m : Moment} {s s' : Desk} {e : Event} {db db' : Ledger} {call : Call} {stage : Stage}
  {request : Request} {row : Row} {sessionId id leaseId errorDetailCode : String}

theorem revision_eq (hs : Sound db) (h : db.select sessionId id = some row) :
    row.revision = (db.head row.output.result).revision := by
  obtain ⟨houtput, hreview, hhead⟩ := Ledger.of_select h
  cases hh : db.heads row.output.result
  case some head => simp [Row.revision, Ledger.head, hhead, hh]
  case none =>
    cases hr : db.reviews.get? id
    case none => simp [Row.revision, Ledger.head, hhead, hreview, hh, hr]
    case some review =>
      obtain ⟨output, houtput', -, hsome⟩ := hs.place id review hr
      rw [houtput] at houtput'
      cases houtput'
      rw [hh] at hsome
      cases hsome

theorem current_of_select (hs : Sound db) (h : db.select sessionId id = some row) : Current db id row.revision :=
  ⟨row.output, (Ledger.of_select h).left, (revision_eq hs h).symm⟩

theorem reviewed (hs : Sound db) (h : reviewOutput r m db request = some db') :
    ∃ id, r.cleanId request.outputVersionId = some id ∧ Current db id request.expectedRevision ∧
      (db' = db ∨ ∃ output verdict, db.outputs id = some output ∧
        (db.head output.result).revision = request.expectedRevision ∧
        (∀ review, db.reviews.get? id = some review → review.status ≠ .delivered) ∧
        (verdict.selectedForDelivery → ∀ prior, db.priorSelected output = some prior → prior.status ≠ .delivered) ∧
        db' = db.write m.now output verdict) := by
  simp only [reviewOutput, Option.bind_eq_bind, Option.bind_eq_some_iff] at h
  obtain ⟨id, hid, decision, -, row, hrow, h⟩ := h
  obtain ⟨houtput, hreview, -⟩ := Ledger.of_select hrow
  refine ⟨id, hid, ?_⟩
  split at h
  case isTrue => cases h
  split at h
  case isTrue => cases h
  case isFalse hguard =>
    have hexpected : row.revision = request.expectedRevision := by simpa using (not_or.mp hguard).right
    refine ⟨hexpected ▸ current_of_select hs hrow, ?_⟩
    split at h
    case isTrue => cases h; exact .inl rfl
    split at h
    case isTrue => cases h
    case isFalse hfree =>
      split at h
      case isTrue => cases h
      case isFalse hhead =>
        split at h
        case isTrue => cases h
        case isFalse hprior =>
          split at h
          case isTrue => cases h
          case isFalse =>
            cases h
            refine .inr ⟨row.output, _, houtput, not_not.mp hhead, fun review hget hd => ?_, fun hv prior hp hd => ?_,
              rfl⟩
            case _ => exact hfree (.inl (by simp [Row.status, hreview, hget, hd]))
            case _ => exact hprior ⟨hv, by simp [hp, hd]⟩

theorem claimed (hs : Sound db) (h : call.claim m db = some (db', stage)) :
    Current db call.outputVersionId call.expectedRevision ∧ stage ≠ .claiming ∧ (db' = db ∨
      ∃ attempt, db' = db.rewrite call.claims (call.claimed attempt) fun _ => call.id_claimed) := by
  simp only [Call.claim, Option.bind_eq_bind, Option.bind_eq_some_iff] at h
  obtain ⟨row, hrow, h⟩ := h
  split at h
  case isTrue => cases h
  case isFalse hguard =>
    have hdeliverable : row.deliverable call.expectedRevision := by simpa using (not_or.mp hguard).right
    simp only [Row.deliverable, Bool.and_eq_true, decide_eq_true_eq] at hdeliverable
    refine ⟨hdeliverable.left.left ▸ current_of_select hs hrow, ?_⟩
    split at h
    case isTrue =>
      split at h
      case isTrue  => cases h; exact ⟨by simp, .inl rfl⟩
      case isFalse => cases h
    case isFalse =>
      split at h
      case isTrue => cases h
      split at h
      case isTrue  => cases h
      case isFalse => cases h; exact ⟨by simp, .inr ⟨_, rfl⟩⟩

theorem acknowledged (hs : Sound db) (h : call.acknowledge m db = some db') :
    Current db call.outputVersionId call.expectedRevision ∧
      db' = db.rewrite call.acknowledges (Call.delivered m.now) fun _ => Call.id_delivered := by
  simp only [Call.acknowledge, Option.bind_eq_bind, Option.bind_eq_some_iff] at h
  obtain ⟨row, hrow, h⟩ := h
  split at h
  case isTrue => cases h
  case isFalse hguard =>
    have hexpected : row.revision = call.expectedRevision := by simpa using (not_or.mp hguard).right
    split at h
    case isTrue  => cases h
    case isFalse => cases h; exact ⟨hexpected ▸ current_of_select hs hrow, rfl⟩

theorem failed (h : call.recordFailure db errorDetailCode = some db') :
    db' = db.rewrite call.holds (Call.failed errorDetailCode) fun _ => Call.id_failed := by
  simp only [Call.recordFailure, Option.bind_eq_bind, Option.bind_eq_some_iff] at h
  obtain ⟨row, -, h⟩ := h
  split at h
  case isTrue  => cases h
  case isFalse => cases h; rfl

theorem call?_eq (h : s.call? leaseId stage = some call) : s.calls.get? leaseId = some call ∧ call.stage = stage := by
  simpa [Desk.call?, Option.filter_eq_some_iff] using h

@[simp] theorem ledger_move : (s.move leaseId stage).ledger = s.ledger := rfl

theorem effect (hs : Sound s.ledger) (h : s.perform? r m e = some s') : Effect r m s e s'.ledger ∧
    ∀ id revision, e.expects r s = some (id, revision) → Current s.ledger id revision := by
  cases e
  case record output =>
    simp only [Desk.perform?] at h
    split at h
    case isTrue => cases h
    case isFalse hnew => cases h; exact ⟨.recorded (by simpa using hnew), fun _ _ he => by cases he⟩
  case review request =>
    simp only [Desk.perform?, Option.bind_eq_bind, Option.bind_eq_some_iff] at h
    obtain ⟨db, hreview, h⟩ := h
    cases h
    obtain ⟨id, hid, hcurrent, hcase⟩ := reviewed hs hreview
    constructor
    case left =>
      cases hcase
      case inl hsame => exact hsame ▸ .same
      case inr hc =>
        obtain ⟨output, verdict, houtput, hrevision, hself, hprior, hdb⟩ := hc
        exact hdb ▸ .decided hid houtput hrevision hself hprior
    case right =>
      intro id' revision he
      simp only [Event.expects, hid, Option.map_some, Option.some.injEq, Prod.mk.injEq] at he
      obtain ⟨hi, hr⟩ := he
      exact hi ▸ hr ▸ hcurrent
  case «open» call =>
    simp only [Desk.perform?, Option.bind_eq_bind, Option.bind_eq_some_iff] at h
    obtain ⟨row, hrow, h⟩ := h
    split at h
    case isTrue => cases h
    case isFalse hguard =>
      obtain ⟨calls, -, h⟩ := Option.bind_eq_some_iff.mp h
      cases h
      have hdeliverable : row.deliverable call.expectedRevision := by simpa using (not_or.mp hguard).right
      simp only [Row.deliverable, Bool.and_eq_true, decide_eq_true_eq] at hdeliverable
      refine ⟨.same, fun id revision he => ?_⟩
      cases he
      exact hdeliverable.left.left ▸ current_of_select hs hrow
  case claim leaseId =>
    simp only [Desk.perform?, Option.bind_eq_bind, Option.bind_eq_some_iff] at h
    obtain ⟨call, hcall, ⟨db, stage⟩, hclaim, h⟩ := h
    cases h
    obtain ⟨hcall, -⟩ := call?_eq hcall
    obtain ⟨hcurrent, -, hcase⟩ := claimed hs hclaim
    constructor
    case left =>
      cases hcase
      case inl hsame => exact hsame ▸ .same
      case inr hc =>
        obtain ⟨attempt, hdb⟩ := hc
        exact hdb ▸ .claimed hcall
    case right =>
      intro id revision he
      simp only [Event.expects, hcall, Option.map_some, Option.some.injEq, Prod.mk.injEq] at he
      obtain ⟨hi, hr⟩ := he
      exact hi ▸ hr ▸ hcurrent
  case raise leaseId conflict part =>
    simp only [Desk.perform?, Option.bind_eq_bind, Option.bind_eq_some_iff] at h
    obtain ⟨call, -, h⟩ := h
    cases h
    exact ⟨.same, fun _ _ he => by cases he⟩
  case acknowledge leaseId =>
    simp only [Desk.perform?, Option.bind_eq_bind, Option.bind_eq_some_iff] at h
    obtain ⟨call, hcall, db, hacknowledge, h⟩ := h
    cases h
    obtain ⟨hcall, -⟩ := call?_eq hcall
    obtain ⟨hcurrent, hdb⟩ := acknowledged hs hacknowledge
    refine ⟨hdb ▸ .acknowledged hcall, fun id revision he => ?_⟩
    simp only [Event.expects, hcall, Option.map_some, Option.some.injEq, Prod.mk.injEq] at he
    obtain ⟨hi, hr⟩ := he
    exact hi ▸ hr ▸ hcurrent
  case recordFailure leaseId =>
    simp only [Desk.perform?, Option.bind_eq_bind, Option.bind_eq_some_iff] at h
    obtain ⟨call, hcall, h⟩ := h
    split at h
    case h_2 => cases h
    case h_1 =>
      obtain ⟨db, hfailure, h⟩ := Option.bind_eq_some_iff.mp h
      cases h
      exact ⟨failed hfailure ▸ .failed hcall, fun _ _ he => by cases he⟩

-- A call stays, and one that has claimed has claimed for good.
structure Follows (call next : Call) : Prop where
  leaseId : next.leaseId = call.leaseId
  output  : next.outputVersionId = call.outputVersionId
  stage   : call.stage ≠ .claiming → next.stage ≠ .claiming

theorem Follows.refl (call : Call) : Follows call call :=
  ⟨rfl, rfl, id⟩

theorem follows_move {db : Ledger} (stage : Stage) (hstage : stage ≠ .claiming) (hcall : s.calls.get? id = some call) :
    ∃ next, ({ s with ledger := db }.move leaseId stage).calls.get? id = some next ∧ Follows call next ∧
      (id = leaseId → next.stage ≠ .claiming) := by
  have hid : call.leaseId = id := Table.key_of_get? (t := s.calls) hcall
  simp only [Desk.move, Table.get?_update, hcall, Option.map_some]
  by_cases h : id = leaseId
  case pos => exact ⟨{ call with stage }, by simp [hid, h], ⟨rfl, rfl, fun _ => hstage⟩, fun _ => hstage⟩
  case neg => exact ⟨call, by simp [hid, h], .refl call, fun hi => absurd hi h⟩

theorem follows (hs : Sound s.ledger) (h : s.perform? r m e = some s') (hcall : s.calls.get? id = some call) :
    ∃ next, s'.calls.get? id = some next ∧ Follows call next ∧ (e = .claim id → next.stage ≠ .claiming) := by
  cases e
  case record output =>
    simp only [Desk.perform?] at h
    split at h
    case isTrue  => cases h
    case isFalse => cases h; exact ⟨call, hcall, .refl call, fun he => by cases he⟩
  case review request =>
    simp only [Desk.perform?, Option.bind_eq_bind, Option.bind_eq_some_iff] at h
    obtain ⟨db, -, h⟩ := h
    cases h
    exact ⟨call, hcall, .refl call, fun he => by cases he⟩
  case «open» opened =>
    simp only [Desk.perform?, Option.bind_eq_bind, Option.bind_eq_some_iff] at h
    obtain ⟨row, -, h⟩ := h
    split at h
    case isTrue => cases h
    case isFalse =>
      obtain ⟨calls, hinsert, h⟩ := Option.bind_eq_some_iff.mp h
      cases h
      refine ⟨call, ?_, .refl call, fun he => by cases he⟩
      have hne : opened.leaseId ≠ id := by
        intro hi
        have hnone := Table.get?_none_of_insert hinsert
        have hnone : s.calls.get? opened.leaseId = none := hnone
        rw [hi, hcall] at hnone
        cases hnone
      rw [Table.get?_insert hinsert, if_neg hne, hcall]
  case claim leaseId =>
    simp only [Desk.perform?, Option.bind_eq_bind, Option.bind_eq_some_iff] at h
    obtain ⟨claiming, -, ⟨db, stage⟩, hclaim, h⟩ := h
    cases h
    obtain ⟨next, hnext, hfollows, hstage⟩ := follows_move stage (claimed hs hclaim).right.left hcall
    exact ⟨next, hnext, hfollows, fun he => hstage (by cases he; rfl)⟩
  case raise leaseId conflict part =>
    simp only [Desk.perform?, Option.bind_eq_bind, Option.bind_eq_some_iff] at h
    obtain ⟨_, -, h⟩ := h
    cases h
    obtain ⟨next, hnext, hfollows, -⟩ := follows_move (.failing _) Stage.noConfusion hcall
    exact ⟨next, hnext, hfollows, fun he => by cases he⟩
  case acknowledge leaseId =>
    simp only [Desk.perform?, Option.bind_eq_bind, Option.bind_eq_some_iff] at h
    obtain ⟨_, -, db, -, h⟩ := h
    cases h
    obtain ⟨next, hnext, hfollows, -⟩ := follows_move .over Stage.noConfusion hcall
    exact ⟨next, hnext, hfollows, fun he => by cases he⟩
  case recordFailure leaseId =>
    simp only [Desk.perform?, Option.bind_eq_bind, Option.bind_eq_some_iff] at h
    obtain ⟨failing, -, h⟩ := h
    split at h
    case h_2 => cases h
    case h_1 =>
      obtain ⟨db, -, h⟩ := Option.bind_eq_some_iff.mp h
      cases h
      obtain ⟨next, hnext, hfollows, -⟩ := follows_move .over Stage.noConfusion hcall
      exact ⟨next, hnext, hfollows, fun he => by cases he⟩

end Step

-- A lease stands while its delivery is pending, and belongs to a call that has claimed it. No two calls have one lease.
def Leased (s : Desk) : Prop :=
  ∀ id review leaseId, s.ledger.reviews.get? id = some review → review.leaseId = some leaseId →
    review.status = .pending ∧ ∃ call, s.calls.get? leaseId = some call ∧ call.outputVersionId = id ∧
      call.stage ≠ .claiming

section Invariants

variable {r : Rules} {m : Moment} {s s' : Desk} {e : Event}

-- The rows of a state keep their leases in the next one.
theorem Leased.kept (hl : Leased s) (hs : Sound s.ledger) (h : s.perform? r m e = some s') {id leaseId : String}
    {review : Review} (hget : s.ledger.reviews.get? id = some review) (hlease : review.leaseId = some leaseId) :
    review.status = .pending ∧ ∃ call, s'.calls.get? leaseId = some call ∧ call.outputVersionId = id ∧
      call.stage ≠ .claiming := by
  obtain ⟨hpending, call, hcall, houtput, hstage⟩ := hl id review leaseId hget hlease
  obtain ⟨next, hnext, hfollows, -⟩ := follows hs h hcall
  exact ⟨hpending, next, hnext, hfollows.output.trans houtput, hfollows.stage hstage⟩

theorem Leased.step (hl : Leased s) (hs : Sound s.ledger) (h : s.perform? r m e = some s') : Leased s' := by
  intro id review leaseId hget hlease
  have heffect := (effect hs h).left
  generalize hdb : s'.ledger = db at heffect hget
  cases heffect
  case same     => exact hl.kept hs h hget hlease
  case recorded => exact hl.kept hs h hget hlease
  case decided request id' output verdict hid houtput hrevision hself hprior =>
    have hi : output.outputVersionId = id' := hs.output id' output houtput
    by_cases hsame : id = output.outputVersionId
    case pos =>
      subst hsame
      obtain ⟨self, hself, -, -, -, hnone⟩ := Ledger.write_self m.now verdict hs (hi ▸ houtput)
      cases hself.symm.trans hget
      rw [hnone] at hlease
      cases hlease
    case neg =>
      obtain ⟨prior, hold, hcase⟩ := Sound.written_other hsame hget
      cases hcase
      case inl hc =>
        obtain ⟨-, hreview⟩ := hc
        subst hreview
        exact hl.kept hs h hold hlease
      case inr hc => rw [hc.right] at hlease; cases hlease
  case claimed leaseId' call attempt hcall =>
    obtain ⟨prior, hold, -, -, hcase⟩ := gentle_claim.before hget
    cases hcase
    case inl hsame => subst hsame; exact hl.kept hs h hold hlease
    case inr hc =>
      obtain ⟨hclaims, hreview⟩ := hc
      subst hreview
      simp only [Call.claims, Bool.and_eq_true, decide_eq_true_eq] at hclaims
      cases hlease
      have hleaseId : call.leaseId = leaseId' := Table.key_of_get? (t := s.calls) hcall
      obtain ⟨next, hnext, hfollows, hstage⟩ := follows hs h hcall
      have hid : call.outputVersionId = id := hclaims.left.left.left.symm.trans (Ledger.id_of_get? hold)
      exact ⟨rfl, next, hleaseId ▸ hnext, hfollows.output.trans hid, hstage rfl⟩
  case acknowledged call hcall =>
    obtain ⟨prior, hold, -, -, hcase⟩ := gentle_acknowledge.before hget
    cases hcase
    case inl hsame => subst hsame; exact hl.kept hs h hold hlease
    case inr hc    => rw [hc.right] at hlease; cases hlease
  case failed call errorDetailCode hcall =>
    obtain ⟨prior, hold, -, -, hcase⟩ := gentle_failure.before hget
    cases hcase
    case inl hsame => subst hsame; exact hl.kept hs h hold hlease
    case inr hc    => rw [hc.right] at hlease; cases hlease

theorem sound_step (hs : Sound s.ledger) (h : s.perform? r m e = some s') : Sound s'.ledger := by
  have heffect := (effect hs h).left
  generalize s'.ledger = db at heffect
  cases heffect
  case same => exact hs
  case recorded output hnew => exact hs.record hnew
  case decided request id output verdict hid houtput hrevision hself hprior => exact hs.write houtput hprior
  case claimed      => exact hs.rewrite gentle_claim
  case acknowledged => exact hs.rewrite gentle_acknowledge
  case failed       => exact hs.rewrite gentle_failure

-- Nothing that the head or the reviews of a result say changes.
structure Unreviewed (db db' : Ledger) (result : Result) : Prop where
  head    : db'.head result = db.head result
  verdict : ∀ id output, db.outputs id = some output → output.result = result → db'.verdictOf id = db.verdictOf id

-- What every event keeps to
structure Lawful (r : Rules) (s : Desk) (e : Event) (s' : Desk) : Prop where
  stale     : ∀ id revision, e.expects r s = some (id, revision) → ¬Current s.ledger id revision → s' = s
  -- A review of a version changes what is said of its result, and makes the next revision of it.
  revision  : ∀ result, Unreviewed s.ledger s'.ledger result ∨
    ∃ request id output, e = .review request ∧ r.cleanId request.outputVersionId = some id ∧
      s.ledger.outputs id = some output ∧ output.result = result ∧
      (s.ledger.head result).revision = request.expectedRevision ∧
      (s'.ledger.head result).revision = (s.ledger.head result).revision + 1
  holder    : ∀ leaseId id review, e = .acknowledge leaseId ∨ e = .recordFailure leaseId →
    s.ledger.reviews.get? id = some review → s'.ledger.reviews.get? id = some review ∨
      review.status = .pending ∧ review.leaseId = some leaseId
  delivered : ∀ id next, s'.ledger.reviews.get? id = some next → next.status = .delivered →
    s.ledger.reviews.get? id = some next ∨ ∃ leaseId review, e = .acknowledge leaseId ∧
      s.ledger.reviews.get? id = some review ∧ review.status = .pending ∧ review.leaseId = some leaseId
  final     : ∀ id review, s.ledger.reviews.get? id = some review → review.status = .delivered →
    s'.ledger.reviews.get? id = some review

theorem Unreviewed.of_rewrite {db : Ledger} {p : Review → Bool} {f : Review → Review}
    {hf : ∀ review, (f review).outputVersionId = review.outputVersionId} (hg : Gentle p f) (result : Result) :
    Unreviewed db (db.rewrite p f hf) result := by
  constructor
  case head => rfl
  case verdict =>
    intro id output _ _
    cases h : db.reviews.get? id
    case none => simp [Ledger.verdictOf, Ledger.get?_rewrite, h]
    case some review =>
      obtain ⟨next, hnext, hverdict, -⟩ := hg.after hf h
      simp [Ledger.verdictOf, h, hnext, hverdict]

theorem lawful_same : Lawful r s e s := by
  constructor
  case stale     => exact fun _ _ _ _ => rfl
  case revision  => exact fun _ => .inl ⟨rfl, fun _ _ _ _ => rfl⟩
  case holder    => exact fun _ _ _ _ h => .inl h
  case delivered => exact fun _ _ h _ => .inl h
  case final     => exact fun _ _ h _ => h

theorem holds_of_acknowledges {call : Call} {review : Review} (h : call.acknowledges review) :
    review.status = .pending ∧ review.leaseId = some call.leaseId := by
  simp only [Call.acknowledges, Bool.and_eq_true, decide_eq_true_eq] at h
  exact ⟨h.left.left.right, h.left.right⟩

namespace Effect

variable {db : Ledger} {id leaseId : String} {review : Review}

theorem revision (hs : Sound s.ledger) (h : Effect r m s e db) (result : Result) : Unreviewed s.ledger db result ∨
    ∃ request id output, e = .review request ∧ r.cleanId request.outputVersionId = some id ∧
      s.ledger.outputs id = some output ∧ output.result = result ∧
      (s.ledger.head result).revision = request.expectedRevision ∧
      (db.head result).revision = (s.ledger.head result).revision + 1 := by
  cases h
  case same         => exact .inl ⟨rfl, fun _ _ _ _ => rfl⟩
  case recorded     => exact .inl ⟨rfl, fun _ _ _ _ => rfl⟩
  case claimed      => exact .inl (.of_rewrite gentle_claim result)
  case acknowledged => exact .inl (.of_rewrite gentle_acknowledge result)
  case failed       => exact .inl (.of_rewrite gentle_failure result)
  case decided request id output verdict hid houtput hrevision hself hprior =>
    have hself := hs.output id output houtput
    subst hself
    by_cases hresult : result = output.result
    case pos =>
      subst hresult
      refine .inr ⟨request, _, output, rfl, hid, houtput, rfl, hrevision, ?_⟩
      rw [Ledger.head_write, if_pos rfl]
      rfl
    case neg =>
      refine .inl ⟨by rw [Ledger.head_write, if_neg hresult], fun id' other hother hr => ?_⟩
      rw [Ledger.verdictOf, Ledger.write_elsewhere hs houtput hother (hr ▸ hresult)]
      rfl

theorem final (hs : Sound s.ledger) (h : Effect r m s e db) (hget : s.ledger.reviews.get? id = some review)
    (hd : review.status = .delivered) : db.reviews.get? id = some review := by
  cases h
  case same     => exact hget
  case recorded => exact hget
  case decided request id' output verdict hid houtput hrevision hself hprior =>
    by_cases hsame : id = output.outputVersionId
    case neg => exact hs.delivered_write hget hsame hd hprior
    case pos =>
      have hi := hs.output id' output houtput
      rw [hsame, hi] at hget
      exact absurd hd (hself review hget)
  case claimed =>
    obtain ⟨next, hnext, -, -, hsame⟩ := gentle_claim.after (fun _ => Call.id_claimed _) hget
    exact hsame hd ▸ hnext
  case acknowledged =>
    obtain ⟨next, hnext, -, -, hsame⟩ := gentle_acknowledge.after (fun _ => Call.id_delivered) hget
    exact hsame hd ▸ hnext
  case failed =>
    obtain ⟨next, hnext, -, -, hsame⟩ := gentle_failure.after (fun _ => Call.id_failed) hget
    exact hsame hd ▸ hnext

-- A delivery is acknowledged or fails with its lease.
theorem holder (h : Effect r m s e db) (he : e = .acknowledge leaseId ∨ e = .recordFailure leaseId)
    (hget : s.ledger.reviews.get? id = some review) :
    db.reviews.get? id = some review ∨ review.status = .pending ∧ review.leaseId = some leaseId := by
  cases h
  case same     => exact .inl hget
  case recorded => exact .inl hget
  case decided  => exact absurd he (by simp)
  case claimed  => exact absurd he (by simp)
  case acknowledged leaseId' call hcall =>
    have hid : leaseId' = leaseId := by simpa using he
    have hlease : call.leaseId = leaseId' := Table.key_of_get? (t := s.calls) hcall
    rw [Ledger.get?_rewrite, hget, Option.map_some]
    cases hp : call.acknowledges review
    case false => exact .inl rfl
    case true  => exact .inr (hid ▸ hlease ▸ holds_of_acknowledges hp)
  case failed leaseId' call errorDetailCode hcall =>
    have hid : leaseId' = leaseId := by simpa using he
    have hlease : call.leaseId = leaseId' := Table.key_of_get? (t := s.calls) hcall
    rw [Ledger.get?_rewrite, hget, Option.map_some]
    cases hp : call.holds review
    case false => exact .inl rfl
    case true =>
      simp only [Call.holds, Bool.and_eq_true, decide_eq_true_eq] at hp
      exact .inr ⟨hp.left.right, hp.right.trans (by rw [hlease, hid])⟩

theorem delivered (hs : Sound s.ledger) (h : Effect r m s e db) {next : Review}
    (hnext : db.reviews.get? id = some next) (hd : next.status = .delivered) :
    s.ledger.reviews.get? id = some next ∨ ∃ leaseId review, e = .acknowledge leaseId ∧
      s.ledger.reviews.get? id = some review ∧ review.status = .pending ∧ review.leaseId = some leaseId := by
  cases h
  case same     => exact .inl hnext
  case recorded => exact .inl hnext
  case decided request id' output verdict hid houtput hrevision hself hprior =>
    by_cases hsame : id = output.outputVersionId
    case pos =>
      have hi := hs.output id' output houtput
      subst hi hsame
      obtain ⟨self, hself, -, -, hidle, -⟩ := Ledger.write_self m.now verdict hs houtput
      cases hself.symm.trans hnext
      rw [hidle] at hd
      cases hd
    case neg =>
      obtain ⟨prior, hold, hcase⟩ := Sound.written_other hsame hnext
      cases hcase
      case inl hc =>
        obtain ⟨-, hsame⟩ := hc
        subst hsame
        exact .inl hold
      case inr hc =>
        obtain ⟨hdes, hreview⟩ := hc
        subst hreview
        simp only [Ledger.deselects, Bool.and_eq_true, decide_eq_true_eq] at hdes
        have hother := Ledger.priorSelected_eq hs hold hdes.left.right hdes.right hsame
        have hnot := Ledger.not_promised_deselected
          (hprior hdes.left.left.left.left prior hother) (n := s.ledger.nextRevision output)
        rw [hd] at hnot
        cases hnot
  case claimed =>
    obtain ⟨prior, hold, -, -, hcase⟩ := gentle_claim.before hnext
    cases hcase
    case inl hsame => subst hsame; exact .inl hold
    case inr hc    => rw [hc.right] at hd; cases hd
  case acknowledged leaseId call hcall =>
    have hlease : call.leaseId = leaseId := Table.key_of_get? (t := s.calls) hcall
    obtain ⟨prior, hold, -, -, hcase⟩ := gentle_acknowledge.before hnext
    cases hcase
    case inl hsame => subst hsame; exact .inl hold
    case inr hc =>
      obtain ⟨hpending, hholds⟩ := holds_of_acknowledges hc.left
      exact .inr ⟨leaseId, prior, rfl, hold, hpending, hlease ▸ hholds⟩
  case failed =>
    obtain ⟨prior, hold, -, -, hcase⟩ := gentle_failure.before hnext
    cases hcase
    case inl hsame => subst hsame; exact .inl hold
    case inr hc    => rw [hc.right] at hd; cases hd

end Effect

theorem lawful (hs : Sound s.ledger) (h : s.perform? r m e = some s') : Lawful r s e s' := by
  obtain ⟨heffect, hcurrent⟩ := effect hs h
  constructor
  case stale     => exact fun id revision he hn => absurd (hcurrent id revision he) hn
  case revision  => exact heffect.revision hs
  case holder    => exact fun _ _ _ he hget => heffect.holder he hget
  case delivered => exact fun _ _ hnext hd => heffect.delivered hs hnext hd
  case final     => exact fun _ _ hget hd => heffect.final hs hget hd

theorem lawful_perform (hs : Sound s.ledger) : Lawful r s e (s.perform r m e) := by
  unfold Desk.perform
  cases h : s.perform? r m e
  case none    => exact lawful_same
  case some s' => exact lawful hs h

-- All orders of the reviews and of the parts of the deliveries, at any times
def desk (r : Rules) : Transition Desk (Moment × Event) where
  init s     := s = .empty
  step s e t := t = s.perform r e.1 e.2

variable {t : Desk} {es : List (Moment × Event)}

theorem sound_empty : Sound .empty := by
  constructor
  case output   => exact fun _ _ h => by cases h
  case place    => exact fun _ _ h => by cases h
  case promised => exact fun _ _ h => by cases h
  case named =>
    intro result id
    constructor
    case mp  => exact fun h => by cases h
    case mpr => exact fun ⟨_, h, _⟩ => by cases h

theorem kept_step (h : Sound s.ledger ∧ Leased s) (hstep : (desk r).step s (m, e) t) : Sound t.ledger ∧ Leased t := by
  have hstep : t = s.perform r m e := hstep
  unfold Desk.perform at hstep
  cases hs : s.perform? r m e
  case none =>
    rw [hs] at hstep
    exact hstep ▸ h
  case some s' =>
    rw [hs] at hstep
    exact hstep ▸ ⟨sound_step h.left hs, h.right.step h.left hs⟩

theorem kept_of_reachable (h : (desk r).Reachable s) : Sound s.ledger ∧ Leased s := by
  apply Transition.Reachable.invariant _ _ h
  case _ => exact fun s hs => by subst hs; exact ⟨sound_empty, fun _ _ _ h => by cases h⟩
  case _ => exact fun s e t h hstep => kept_step h hstep

-- The reviews of delivered versions stay as they are.
theorem final_of_run (hs : (desk r).Reachable s) (hr : (desk r).Run s es t) {id : String} {review : Review}
    (hget : s.ledger.reviews.get? id = some review) (hd : review.status = .delivered) :
    t.ledger.reviews.get? id = some review := by
  induction hr
  case refl => exact hget
  case trans s t _ e _ hstep _ hi =>
    have hlawful : Lawful r s e.2 t := hstep ▸ lawful_perform (kept_of_reachable hs).left
    exact hi (.step hs hstep) (hlawful.final id review hget hd)

-- A delivered version stays as it is, and no other version of its result is ever delivered.
def Final (db db' : Ledger) : Prop :=
  ∀ id review, db.reviews.get? id = some review → review.status = .delivered →
    db'.reviews.get? id = some review ∧ ∀ id' review', db'.reviews.get? id' = some review' →
      review'.status = .delivered → review'.result = review.result → id' = id

theorem delivery_holds (r : Rules) (hs : (desk r).Reachable s) (hr : (desk r).Run s es t) :
    Sound s.ledger ∧
      (∀ a ∈ s.ledger.reviews.rows, ∀ b ∈ s.ledger.reviews.rows, a.result = b.result →
        a.selectedForDelivery → b.selectedForDelivery → a = b) ∧
      Leased s ∧ (∀ m e, Lawful r s e (s.perform r m e)) ∧ Final s.ledger t.ledger := by
  obtain ⟨hsound, hleased⟩ := kept_of_reachable hs
  refine ⟨hsound, fun a ha b hb => hsound.exclusive ha hb, hleased, fun m e => lawful_perform hsound, ?_⟩
  intro id review hget hd
  have hfinal := final_of_run hs hr hget hd
  refine ⟨hfinal, fun id' review' hget' hd' hresult => ?_⟩
  have hsound' := (kept_of_reachable (hs.run hr)).left
  have hp := hsound'.promised id review hfinal (by rw [hd]; rfl)
  have hp' := hsound'.promised id' review' hget' (by rw [hd']; rfl)
  have hsame := hsound'.exclusive (Table.mem_of_get? hget') (Table.mem_of_get? hfinal) hresult hp'.right hp.right
  rw [← Ledger.id_of_get? hget', ← Ledger.id_of_get? hfinal, hsame]

def Desk.after (r : Rules) (s : Desk) (es : List (Moment × Event)) : Desk :=
  es.foldl (fun s e => s.perform r e.1 e.2) s

theorem run_after (r : Rules) (s : Desk) (es : List (Moment × Event)) : (desk r).Run s es (s.after r es) := by
  induction es generalizing s
  case nil          => exact .refl
  case cons e es hi => exact .trans rfl (hi _)

end Invariants

section Sample

def sampleOutput (outputVersionId : String) : Output where
  outputVersionId := outputVersionId
  sessionId       := "s"
  result          := ⟨"g", "n"⟩

def sampleRequest (outputVersionId : String) (expectedRevision : ℕ) : Request where
  sessionId           := "s"
  outputVersionId     := .str outputVersionId
  decision            := .str "approved"
  note                := .str ""
  selectedForDelivery := true
  expectedRevision    := expectedRevision

def sampleDelivery (leaseId outputVersionId : String) (expectedRevision : ℕ) : Call where
  leaseId          := leaseId
  sessionId        := "s"
  outputVersionId  := outputVersionId
  expectedRevision := expectedRevision
  manifest         := ⟨"a", "d", "b", "p"⟩
  leaseExpiresAt   := 0

-- Two versions are selected one after the other, and the delivery of the second one is claimed.
def claimedSteps : List (Moment × Event) :=
  [(⟨1, true⟩, .record (sampleOutput "o1")), (⟨2, true⟩, .record (sampleOutput "o2")),
    (⟨3, true⟩, .review (sampleRequest "o1" 0)), (⟨4, true⟩, .review (sampleRequest "o2" 1)),
    (⟨5, true⟩, .open (sampleDelivery "l" "o2" 2)), (⟨6, true⟩, .claim "l")]

-- The first one is not selected again, and the delivery is acknowledged.
def deliveredSteps : List (Moment × Event) :=
  [(⟨7, true⟩, .review (sampleRequest "o1" 2)), (⟨8, true⟩, .acknowledge "l"),
    (⟨9, true⟩, .review (sampleRequest "o1" 2))]

theorem delivery_holds_sample : ∃ s t : Desk,
    (s.ledger.reviews.rows.map fun review => (review.outputVersionId, review.status)) =
      [("o1", .idle), ("o2", .pending)] ∧
    (t.ledger.reviews.rows.map fun review => (review.outputVersionId, review.status)) =
      [("o1", .idle), ("o2", .delivered)] ∧
    Sound s.ledger ∧
      (∀ a ∈ s.ledger.reviews.rows, ∀ b ∈ s.ledger.reviews.rows, a.result = b.result →
        a.selectedForDelivery → b.selectedForDelivery → a = b) ∧
      Leased s ∧ (∀ m e, Lawful sampleRules s e (s.perform sampleRules m e)) ∧ Final s.ledger t.ledger := by
  have hempty : (desk sampleRules).Reachable .empty := .init rfl
  have hclaimed := hempty.run (run_after sampleRules .empty claimedSteps)
  refine ⟨_, _, ?_, ?_, delivery_holds sampleRules hclaimed (run_after sampleRules _ deliveredSteps)⟩
  case _ => decide +kernel
  case _ => decide +kernel

end Sample
end Canvas.Reviews
