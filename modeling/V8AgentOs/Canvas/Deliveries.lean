import V8AgentOs.Canvas.Reviews
import V8AgentOs.Lib.Transition

-- What holds of the reviews and the deliveries of a result, over all orders of the transactions.
namespace Canvas.Reviews

-- A status that only an approved and selected version has
def Status.promised (status : Status) : Bool :=
  [pending, delivered].contains status

-- What every decision and every delivery keeps
structure Sound (db : Ledger) : Prop where
  output   : ∀ id output, db.outputs id = some output → output.outputVersionId = id
  place    : ∀ id review, db.reviews.get? id = some review → ∃ output, db.outputs id = some output ∧
    review.result = output.result ∧ (db.heads output.result).isSome
  -- The head of a result names the version of it that is selected.
  named    : ∀ result id, (db.head result).selectedOutputVersionId = some id ↔
    ∃ review, db.reviews.get? id = some review ∧ review.result = result ∧ review.selectedForDelivery
  promised : ∀ id review, db.reviews.get? id = some review → review.status.promised →
    review.decision = .approved ∧ review.selectedForDelivery

namespace Ledger

variable {db : Ledger} {sessionId id : String} {row : Row} {review : Review} {output : Output} {verdict : Verdict}
  {now : ℕ}

theorem of_select (h : db.select sessionId id = some row) : db.outputs id = some row.output ∧
    row.review = db.reviews.get? id ∧ row.head = db.heads row.output.result := by
  simp only [select, Option.bind_eq_bind, Option.bind_eq_some_iff] at h
  obtain ⟨output, houtput, h⟩ := h
  split at h
  case isTrue  => cases h
  case isFalse => cases h; exact ⟨houtput, rfl, rfl⟩

theorem id_of_get? (h : db.reviews.get? id = some review) : review.outputVersionId = id :=
  Table.key_of_get? (t := db.reviews) h

@[simp] theorem outputs_write : (db.write now output verdict).outputs = db.outputs := rfl

theorem not_promised_deselected {n : ℕ} (h : review.status ≠ .delivered) :
    (review.deselected n).status.promised = false := by
  unfold Review.deselected
  cases hstatus : review.status
  case delivered => exact absurd hstatus h
  all_goals simp [Status.promised]

-- The version that is decided about
theorem write_self (now : ℕ) (verdict : Verdict) (hs : Sound db) (houtput : db.outputs id = some output) :
    ∃ review, (db.write now output verdict).reviews.get? id = some review ∧ review.toVerdict = verdict ∧
      review.result = output.result ∧ review.status = .idle ∧ review.leaseId = none := by
  have hid : output.outputVersionId = id := hs.output id output houtput
  unfold write
  rw [Table.get?_upsert, if_pos hid, Table.get?_update]
  refine ⟨_, rfl, ?_⟩
  cases h : db.reviews.get? id
  case none => simp
  case some review =>
    obtain ⟨output', houtput', hresult, -⟩ := hs.place id review h
    rw [houtput] at houtput'
    cases houtput'
    have hno : db.deselects output verdict review = false := by
      simp [deselects, id_of_get? h, hid]
    simp [hno, hresult, Review.decided]

theorem write_other (hid : id ≠ output.outputVersionId) :
    (db.write now output verdict).reviews.get? id = (db.reviews.get? id).map fun review =>
      if db.deselects output verdict review then review.deselected (db.nextRevision output) else review := by
  unfold write
  rw [Table.get?_upsert, if_neg (Ne.symm hid), Table.get?_update]

theorem head_write {result : Result} : (db.write now output verdict).head result =
    if result = output.result then db.nextHead output verdict else db.head result := by
  by_cases h : result = output.result
  case pos => simp [head, write, h]
  case neg => simp [head, write, h]

-- What the reviews say about a version
def verdictOf (db : Ledger) (id : String) : Verdict :=
  ((db.reviews.get? id).map (·.toVerdict)).getD {}

-- A decision does not touch the other results.
theorem write_elsewhere (hs : Sound db) (houtput : db.outputs output.outputVersionId = some output) {other : Output}
    (hother : db.outputs id = some other) (hresult : other.result ≠ output.result) :
    (db.write now output verdict).reviews.get? id = db.reviews.get? id := by
  have hid : id ≠ output.outputVersionId := by
    intro hid
    rw [hid, houtput] at hother
    cases hother
    exact hresult rfl
  rw [write_other hid]
  cases h : db.reviews.get? id
  case none => rfl
  case some review =>
    obtain ⟨output', houtput', hplace, -⟩ := hs.place id review h
    rw [hother] at houtput'
    cases houtput'
    simp [deselects, hplace, hresult]

-- The version that the head names is the other version that is selected.
theorem priorSelected_eq (hs : Sound db) (h : db.reviews.get? id = some review)
    (hresult : review.result = output.result) (hsel : review.selectedForDelivery) (hid : id ≠ output.outputVersionId) :
    db.priorSelected output = some review := by
  have hkey := id_of_get? h
  cases hp : db.priorSelected output
  case none =>
    have hn := List.find?_eq_none.mp hp review (Table.mem_of_get? h)
    simp [hresult, hsel, hkey, hid] at hn
  case some prior =>
    have hprior := List.find?_some hp
    simp only [Bool.and_eq_true, decide_eq_true_eq] at hprior
    have hget : db.reviews.get? prior.outputVersionId = some prior := Table.get?_of_mem (List.mem_of_find?_eq_some hp)
    have hnamed := (hs.named output.result id).mpr ⟨review, h, hresult, hsel⟩
    have hnamed' := (hs.named output.result prior.outputVersionId).mpr ⟨prior, hget, hprior.left.left, hprior.right⟩
    have hsame : id = prior.outputVersionId := Option.some.inj (hnamed.symm.trans hnamed')
    rw [← hsame, h] at hget
    exact hget.symm

end Ledger

namespace Sound

variable {db : Ledger} {id : String} {output : Output} {verdict : Verdict} {review : Review} {now : ℕ}

-- What a decision leaves of another version
theorem written_other (hid : id ≠ output.outputVersionId)
    (h : (db.write now output verdict).reviews.get? id = some review) : ∃ prior, db.reviews.get? id = some prior ∧
      ((db.deselects output verdict prior = false ∧ review = prior) ∨
        db.deselects output verdict prior ∧ review = prior.deselected (db.nextRevision output)) := by
  rw [Ledger.write_other hid, Option.map_eq_some_iff] at h
  obtain ⟨prior, hprior, h⟩ := h
  refine ⟨prior, hprior, ?_⟩
  split at h
  case isTrue hd  => exact .inr ⟨hd, h.symm⟩
  case isFalse hd => exact .inl ⟨by simpa using hd, h.symm⟩

-- A new version
theorem record (hs : Sound db) (hnew : db.outputs output.outputVersionId = none) :
    Sound { db with outputs := Function.update db.outputs output.outputVersionId (some output) } := by
  have hkept : ∀ id old, db.outputs id = some old →
      Function.update db.outputs output.outputVersionId (some output) id = some old := by
    intro id old hold
    by_cases hid : id = output.outputVersionId
    case neg => rw [Function.update_of_ne hid, hold]
    case pos =>
      rw [hid, hnew] at hold
      cases hold
  constructor
  case named    => exact hs.named
  case promised => exact hs.promised
  case output =>
    intro id other h
    by_cases hid : id = output.outputVersionId
    case pos =>
      subst hid
      have h : some output = some other := by simpa using h
      cases h
      rfl
    case neg => exact hs.output id other (by simpa [Function.update_of_ne hid] using h)
  case place =>
    intro id review h
    obtain ⟨old, hold, hplace, hhead⟩ := hs.place id review h
    exact ⟨old, hkept id old hold, hplace, hhead⟩

-- Two versions of a result are not selected.
theorem exclusive (hs : Sound db) {a b : Review} (ha : a ∈ db.reviews.rows) (hb : b ∈ db.reviews.rows)
    (hresult : a.result = b.result) (hsa : a.selectedForDelivery) (hsb : b.selectedForDelivery) : a = b := by
  have ha := Table.get?_of_mem ha
  have hb := Table.get?_of_mem hb
  have hna := (hs.named b.result a.outputVersionId).mpr ⟨a, ha, hresult, hsa⟩
  have hnb := (hs.named b.result b.outputVersionId).mpr ⟨b, hb, rfl, hsb⟩
  have hid : a.outputVersionId = b.outputVersionId := Option.some.inj (hna.symm.trans hnb)
  rw [hid, hb] at ha
  exact (Option.some.inj ha).symm

-- A decision that takes the selection from no delivered version leaves the delivered ones as they are.
theorem delivered_write (hs : Sound db) (h : db.reviews.get? id = some review) (hid : id ≠ output.outputVersionId)
    (hd : review.status = .delivered)
    (hprior : verdict.selectedForDelivery → ∀ prior, db.priorSelected output = some prior → prior.status ≠ .delivered) :
    (db.write now output verdict).reviews.get? id = some review := by
  have hno : db.deselects output verdict review = false := by
    rw [Bool.eq_false_iff]
    intro hdes
    simp only [Ledger.deselects, Bool.and_eq_true, decide_eq_true_eq] at hdes
    have hother := Ledger.priorSelected_eq hs h hdes.left.right hdes.right hid
    exact hprior hdes.left.left.left.left review hother hd
  rw [Ledger.write_other hid, h]
  simp [hno]

-- The versions that are selected after a decision
theorem selected_write (hs : Sound db) (houtput : db.outputs output.outputVersionId = some output) {result : Result} :
    (∃ review, (db.write now output verdict).reviews.get? id = some review ∧ review.result = result ∧
        review.selectedForDelivery) ↔
      if id = output.outputVersionId then output.result = result ∧ verdict.selectedForDelivery
      else (db.head result).selectedOutputVersionId = some id ∧
        ¬(verdict.selectedForDelivery ∧ output.result = result) := by
  by_cases hid : id = output.outputVersionId
  case pos =>
    subst hid
    obtain ⟨self, hself, hverdict, hresult, -⟩ := Ledger.write_self now verdict hs houtput
    have hsel : self.selectedForDelivery = verdict.selectedForDelivery := by rw [← hverdict]
    simp [hself, hsel, hresult]
  case neg =>
    rw [if_neg hid, hs.named]
    constructor
    case mp =>
      intro hsome
      obtain ⟨review, h, hresult, hsel⟩ := hsome
      obtain ⟨prior, hget, hcase⟩ := written_other hid h
      cases hcase
      case inr hc => rw [hc.right] at hsel; cases hsel
      case inl hc =>
        obtain ⟨hno, hsame⟩ := hc
        subst hsame
        refine ⟨⟨review, hget, hresult, hsel⟩, fun h => ?_⟩
        obtain ⟨hv, ho⟩ := h
        have hnamed := (hs.named result id).mpr ⟨review, hget, hresult, hsel⟩
        simp [Ledger.deselects, hv, ho, hnamed, Ledger.id_of_get? hget, hid, hresult, hsel] at hno
    case mpr =>
      intro h
      obtain ⟨⟨prior, hget, hresult, hsel⟩, hn⟩ := h
      refine ⟨prior, ?_, hresult, hsel⟩
      have hno : db.deselects output verdict prior = false := by
        rw [Bool.eq_false_iff]
        intro hd
        simp only [Ledger.deselects, Bool.and_eq_true, decide_eq_true_eq] at hd
        exact hn ⟨hd.left.left.left.left, hd.left.right.symm.trans hresult⟩
      rw [Ledger.write_other hid, hget]
      simp [hno]

-- A decision is sound if it takes the selection from no delivered version.
theorem write (hs : Sound db) (houtput : db.outputs id = some output)
    (hprior : verdict.selectedForDelivery → ∀ prior, db.priorSelected output = some prior → prior.status ≠ .delivered) :
    Sound (db.write now output verdict) := by
  have hid : output.outputVersionId = id := hs.output id output houtput
  subst hid
  obtain ⟨self, hself, hverdict, hresult, hidle, -⟩ := Ledger.write_self now verdict hs houtput
  constructor
  case output => exact hs.output
  case place =>
    intro id review h
    by_cases hid : id = output.outputVersionId
    case pos =>
      subst hid
      cases hself.symm.trans h
      exact ⟨output, houtput, hresult, by simp [Ledger.write]⟩
    case neg =>
      obtain ⟨prior, hget, hcase⟩ := written_other hid h
      have hsame : review.result = prior.result := by
        cases hcase
        case inl hc => rw [hc.right]
        case inr hc => rw [hc.right]; rfl
      obtain ⟨output', houtput', hplace, hhead⟩ := hs.place id prior hget
      refine ⟨output', houtput', hsame.trans hplace, ?_⟩
      by_cases ho : output'.result = output.result
      case pos => simp [Ledger.write, ho]
      case neg => simpa [Ledger.write, ho] using hhead
  case named =>
    intro result id
    rw [selected_write hs houtput, Ledger.head_write]
    by_cases hresult : result = output.result
    case neg =>
      have hne : output.result ≠ result := Ne.symm hresult
      by_cases hid : id = output.outputVersionId
      case neg => simp [hresult, hid, hne]
      case pos =>
        have hno : (db.head result).selectedOutputVersionId ≠ some id := by
          intro hn
          obtain ⟨review, hget, hr, -⟩ := (hs.named result id).mp hn
          obtain ⟨output', houtput', hplace, -⟩ := hs.place id review hget
          rw [hid, houtput] at houtput'
          cases houtput'
          exact hresult (hr.symm.trans hplace)
        rw [if_neg hresult, if_pos hid]
        exact ⟨fun h => absurd h hno, fun h => absurd h.left hne⟩
    case pos =>
      subst hresult
      by_cases hid : id = output.outputVersionId
      case pos =>
        subst hid
        cases hv : verdict.selectedForDelivery
        all_goals simp [Ledger.nextHead, hv]
      case neg =>
        have hne : output.outputVersionId ≠ id := Ne.symm hid
        cases hv : verdict.selectedForDelivery
        case true  => simp [Ledger.nextHead, hv, hid, hne]
        case false =>
          by_cases hp : (db.head output.result).selectedOutputVersionId = some output.outputVersionId
          case pos => simp [Ledger.nextHead, hv, hp, hid, hne]
          case neg => simp [Ledger.nextHead, hv, hp, hid]
  case promised =>
    intro id review h hp
    by_cases hid : id = output.outputVersionId
    case pos =>
      subst hid
      cases hself.symm.trans h
      rw [hidle] at hp
      cases hp
    case neg =>
      obtain ⟨prior, hget, hcase⟩ := written_other hid h
      cases hcase
      case inl hc =>
        rw [hc.right] at hp ⊢
        exact hs.promised id prior hget hp
      case inr hc =>
        obtain ⟨hd, hreview⟩ := hc
        simp only [Ledger.deselects, Bool.and_eq_true, decide_eq_true_eq] at hd
        have hother := Ledger.priorSelected_eq hs hget hd.left.right hd.right hid
        have hnot := hprior hd.left.left.left.left prior hother
        rw [hreview, Ledger.not_promised_deselected hnot] at hp
        cases hp

end Sound

-- A transaction of a delivery rewrites the rows in question, keeps what their reviews say and does not touch a
-- delivered one.
structure Gentle (p : Review → Bool) (f : Review → Review) : Prop where
  verdict  : ∀ review, (f review).toVerdict = review.toVerdict
  result   : ∀ review, (f review).result = review.result
  spared   : ∀ review, p review → review.status ≠ .delivered
  promised : ∀ review, p review → (f review).status.promised → review.decision = .approved ∧ review.selectedForDelivery

section Gentle

variable {db : Ledger} {p : Review → Bool} {f : Review → Review} {id : String} {review : Review} {call : Call}
  {hf : ∀ review, (f review).outputVersionId = review.outputVersionId}

theorem Ledger.get?_rewrite :
    (db.rewrite p f hf).reviews.get? id =
      (db.reviews.get? id).map fun review => if p review then f review else review :=
  Table.get?_update (h := hf)

-- A row after a rewriting says what it said before.
theorem Gentle.before (hg : Gentle p f) (h : (db.rewrite p f hf).reviews.get? id = some review) :
    ∃ prior, db.reviews.get? id = some prior ∧ review.toVerdict = prior.toVerdict ∧ review.result = prior.result ∧
      (review = prior ∨ p prior ∧ review = f prior) := by
  rw [Ledger.get?_rewrite, Option.map_eq_some_iff] at h
  obtain ⟨prior, hprior, h⟩ := h
  refine ⟨prior, hprior, ?_⟩
  split at h
  case isTrue hp => subst h; exact ⟨hg.verdict prior, hg.result prior, .inr ⟨hp, rfl⟩⟩
  case isFalse   => subst h; exact ⟨rfl, rfl, .inl rfl⟩

theorem Gentle.after (hf : ∀ review, (f review).outputVersionId = review.outputVersionId) (hg : Gentle p f)
    (h : db.reviews.get? id = some review) :
    ∃ next, (db.rewrite p f hf).reviews.get? id = some next ∧ next.toVerdict = review.toVerdict ∧
      next.result = review.result ∧ (review.status = .delivered → next = review) := by
  rw [Ledger.get?_rewrite, h, Option.map_some]
  cases hp : p review
  case false => exact ⟨review, rfl, rfl, rfl, fun _ => rfl⟩
  case true  => exact ⟨f review, rfl, hg.verdict review, hg.result review, fun hd => absurd hd (hg.spared review hp)⟩

theorem Sound.rewrite (hs : Sound db) (hg : Gentle p f) : Sound (db.rewrite p f hf) := by
  constructor
  case output => exact hs.output
  case place =>
    intro id review h
    obtain ⟨prior, hprior, -, hresult, -⟩ := hg.before h
    obtain ⟨output, houtput, hplace, hhead⟩ := hs.place id prior hprior
    exact ⟨output, houtput, hresult.trans hplace, hhead⟩
  case named =>
    intro result id
    apply (hs.named result id).trans
    constructor
    case mp =>
      intro hsome
      obtain ⟨review, h, hresult, hsel⟩ := hsome
      obtain ⟨next, hnext, hverdict, hr, -⟩ := hg.after hf h
      exact ⟨next, hnext, hr.trans hresult, by rw [hverdict]; exact hsel⟩
    case mpr =>
      intro hsome
      obtain ⟨review, h, hresult, hsel⟩ := hsome
      obtain ⟨prior, hprior, hverdict, hr, -⟩ := hg.before h
      exact ⟨prior, hprior, hr.symm.trans hresult, by rw [← hverdict]; exact hsel⟩
  case promised =>
    intro id review h hp
    obtain ⟨prior, hprior, hverdict, -, hcase⟩ := hg.before h
    rw [hverdict]
    cases hcase
    case inl hsame => exact hs.promised id prior hprior (hsame ▸ hp)
    case inr hc    => exact hg.promised prior hc.left (hc.right ▸ hp)

theorem gentle_claim {attempt : ℕ} : Gentle call.claims (call.claimed attempt) := by
  constructor
  case verdict => exact fun _ => rfl
  case result  => exact fun _ => rfl
  case spared =>
    intro review h
    simp only [Call.claims, Bool.and_eq_true, decide_eq_true_eq] at h
    exact h.right
  case promised =>
    intro review h _
    simp only [Call.claims, Bool.and_eq_true, decide_eq_true_eq] at h
    exact ⟨h.left.left.right, h.left.right⟩

theorem gentle_acknowledge {now : ℕ} : Gentle call.acknowledges (Call.delivered now) := by
  constructor
  case verdict => exact fun _ => rfl
  case result  => exact fun _ => rfl
  case spared =>
    intro review h hd
    simp [Call.acknowledges, hd] at h
  case promised =>
    intro review h _
    simp only [Call.acknowledges, Bool.and_eq_true, decide_eq_true_eq] at h
    exact ⟨h.left.left.left.left.right, h.left.left.left.right⟩

theorem gentle_failure {errorDetailCode : String} : Gentle call.holds (Call.failed errorDetailCode) := by
  constructor
  case verdict  => exact fun _ => rfl
  case result   => exact fun _ => rfl
  case promised => exact fun _ _ h => by cases h
  case spared =>
    intro review h hd
    simp [Call.holds, hd] at h

end Gentle
end Canvas.Reviews
