import V8AgentOs.Approvals.Delivery

-- What a step may make of an approval.
namespace Approvals

open Python (Dict Json Text strip)
open Runs (Time RunRecord RunTable)

-- Every way in which a step changes a row. What is not named stays.
inductive Becomes (text : Text) (s : State) (e : Event) (a : Approval) : Approval → Prop
  | same : Becomes text s e a a
  | decided {d w row resume} : e = .call (.resolve d) w .done → d.id = a.id → a.status = .pending →
    d.status = .approved ∨ d.status = .rejected → s.base.runs.get? a.runId = some row →
    decisionRefusal text w.now d a (some row) = none →
    resume = (if resumes d a row (othersPending d a s.approvals) then some (newDelivery w) else none) → w.uuid ≠ "" →
    Becomes text s e a (a.decided d resume)
  | cancelled {response} : a.status = .pending →
    Becomes text s e a { a with status := .cancelled, response := response }
  | superseded {d by'} : a.delivery = some d → a.status = .approved →
    d.phase = .pending ∨ d.phase = .scheduled ∨ d.phase = .blocked →
    Becomes text s e a { a with delivery := some { d with phase := .superseded, replacedBy := some by' } }
  | claimed {d w restart} : e = .call (.claim a.id restart) w (.claimed (d.scheduledAt w.now)) →
    a.delivery = some d → a.status = .approved → claimRefusal w.now restart s.db a d = none →
    Becomes text s e a { a with delivery := some (d.scheduledAt w.now) }
  | moved {d w m} : e = .call (.transition m) w .done → m.approvalId = a.id → m.lawful → a.delivery = some d →
    a.status = .approved → m.matches d → (m.phase = .executing → readyRefusal a (s.db.runOf a) = none) →
    Becomes text s e a { a with delivery := some (d.moved w.now m) }
  | fenced {d now} : a.delivery = some d → d.phase = .executing →
    Becomes text s e a { a with delivery := some (d.fenced now) }

-- What a step does to the table: rows become others, and new rows are not delivered.
structure Moves (text : Text) (s : State) (e : Event) (after : Table Approval.id) : Prop where
  kept : ∀ id a, s.approvals.get? id = some a → ∃ b, after.get? id = some b ∧ Becomes text s e a b
  made : ∀ id b, s.approvals.get? id = none → after.get? id = some b →
    b.delivery = none ∧ ∀ row, s.base.runs.get? b.runId = some row → row.sessionId = b.sessionId

variable {text : Text} {s t : State} {e : Event} {w : World} {a b : Approval} {id : String}
  {approvals : Table Approval.id}

theorem Moves.refl : Moves text s e s.approvals where
  kept _ a ha    := ⟨a, ha, .same⟩
  made _ b hn hb := by rw [hn] at hb; cases hb

-- An update of the rows
theorem Moves.update {p : Approval → Bool} {f : Approval → Approval} (hf : ∀ a, (f a).id = a.id)
    (h : ∀ id a, s.approvals.get? id = some a → p a = true → Becomes text s e a (f a)) :
    Moves text s e (s.approvals.update p f hf) where
  kept id a ha := by
    refine ⟨if p a then f a else a, by simp [Table.get?_update, ha], ?_⟩
    split
    case isTrue hp  => exact h id a ha hp
    case isFalse hp => exact .same
  made id b hn hb := by
    rw [Table.get?_update, hn] at hb
    cases hb

-- A new row after an update
theorem Moves.insert {after : Table Approval.id} (h : Moves text s e approvals) (hi : approvals.insert? b = some after)
    (hd : b.delivery = none) (hs : ∀ row, s.base.runs.get? b.runId = some row → row.sessionId = b.sessionId)
    (hn : ∀ id, s.approvals.get? id = none → approvals.get? id = none) : Moves text s e after where
  kept id a ha := by
    have ⟨b', hb', hbec⟩ := h.kept id a ha
    refine ⟨b', ?_, hbec⟩
    rw [Table.get?_insert hi]
    split
    case isFalse => exact hb'
    case isTrue hid =>
      have hnone := Table.get?_none_of_insert hi
      rw [hid, hb'] at hnone
      cases hnone
  made id b' hid hb' := by
    rw [Table.get?_insert hi] at hb'
    split at hb'
    case isTrue  => cases hb'; exact ⟨hd, hs⟩
    case isFalse => rw [hn id hid] at hb'; cases hb'

theorem runs_add {sessionId runId kind : String} {status : Status} {request : Dict} {response : Option Dict}
    {expiresAt : Expiry} {db db' : Database}
    (h : addPendingApproval id sessionId runId kind status request response expiresAt db = some db') :
    db'.runs = db.runs := by
  unfold addPendingApproval at h
  split at h
  case isTrue  => cases h
  case isFalse =>
    obtain ⟨after, _, hdb⟩ := Option.map_eq_some_iff.mp h
    rw [← hdb]

theorem moves_add {sessionId runId kind : String} {status : Status} {request : Dict} {response : Option Dict}
    {expiresAt : Expiry} {db : Database} (hs : ∀ row, s.base.runs.get? runId = some row → row.sessionId = sessionId)
    (h : addPendingApproval id sessionId runId kind status request response expiresAt s.db = some db) :
    Moves text s e db.approvals := by
  unfold addPendingApproval at h
  split at h
  case isTrue  => cases h
  case isFalse =>
    obtain ⟨after, hi, hdb⟩ := Option.map_eq_some_iff.mp h
    subst hdb
    exact Moves.refl.insert hi rfl hs fun _ hn => hn

theorem becomes_retired {by' : String} {sessionId runId : String} {request : Dict}
    (h : a.sameTarget sessionId runId request) : Becomes text s e a (a.retired by') := by
  have hst : a.status = .pending ∨ a.status = .approved := by
    simp only [Approval.sameTarget, Bool.and_eq_true, Bool.or_eq_true, decide_eq_true_eq] at h
    exact h.left.right
  unfold Approval.retired
  split
  case isTrue hp  => exact .cancelled hp
  case isFalse hp =>
    have happroved : a.status = .approved := hst.resolve_left hp
    split
    case h_1 => exact .same
    case h_2 d hd =>
      split
      case isTrue hph => exact .superseded hd happroved hph
      case isFalse    => exact .same

theorem runs_review {sessionId runId : String} {request : Dict} {expiresAt : Expiry} {isNew : Bool} {db db' : Database}
    (h : review id sessionId runId request expiresAt isNew db = some db') :
    db'.runs = waitForApproval db.runs runId := by
  unfold review at h
  simp only at h
  split at h
  case isTrue => cases h
  case isFalse =>
    have ⟨after, _, hdb⟩ := Option.map_eq_some_iff.mp h
    rw [← hdb]

theorem moves_review {sessionId runId : String} {request : Dict} {expiresAt : Expiry} {isNew : Bool} {db : Database}
    (hs : ∀ row, s.base.runs.get? runId = some row → row.sessionId = sessionId)
    (h : review id sessionId runId request expiresAt isNew s.db = some db) : Moves text s e db.approvals := by
  unfold review at h
  simp only at h
  split at h
  case isTrue => cases h
  case isFalse =>
    have ⟨after, hi, hdb⟩ := Option.map_eq_some_iff.mp h
    subst hdb
    have hm : Moves text s e (s.approvals.update
        (fun a => a.sameTarget sessionId runId request && a.id ≠ selectedReview id sessionId runId request s.approvals)
        (Approval.retired (selectedReview id sessionId runId request s.approvals)) Approval.retired_id) :=
      .update Approval.retired_id fun _ a _ hp => becomes_retired (Bool.and_eq_true_iff.mp hp).left
    split at hi
    case isFalse => cases hi; exact hm
    case isTrue =>
      refine hm.insert hi rfl hs fun id hn => ?_
      rw [Table.get?_update, hn]
      rfl

-- What a review that is not refused does: nothing, or a review of a run that may be reviewed
theorem review_of_create {sessionId runId : String} {request : Dict} {expiresAt : Expiry} {db db' : Database}
    (h : createSpecReviewApproval id sessionId runId request expiresAt db = some db') :
    db' = db ∨ ∃ isNew row, db.runs.get? runId = some row ∧ reviewable sessionId request row ∧
      review id sessionId runId request expiresAt isNew db = some db' := by
  unfold createSpecReviewApproval at h
  simp only at h
  split at h
  case isTrue => cases h
  case isFalse =>
    split at h
    case isTrue => cases h; exact .inl rfl
    case isFalse =>
      split at h
      case isFalse => cases h
      case isTrue hr =>
        obtain ⟨row, hrow, hrev⟩ := (Option.any_eq_true _ _).mp hr
        exact .inr ⟨_, row, hrow, hrev, h⟩

theorem moves_createSpecReview {sessionId runId : String} {request : Dict} {expiresAt : Expiry} {db : Database}
    (h : createSpecReviewApproval id sessionId runId request expiresAt s.db = some db) :
    Moves text s e db.approvals := by
  cases review_of_create h
  case inl h => rw [h]; exact .refl
  case inr h =>
    have ⟨isNew, row, hrow, hrev, h⟩ := h
    apply moves_review ?_ h
    intro row' hrow'
    cases hrow.symm.trans hrow'
    simp only [reviewable, Bool.and_eq_true, decide_eq_true_eq] at hrev
    exact hrev.left.left.left

-- The update of one row
theorem moves_row {f : Approval → Approval} (hf : ∀ a, (f a).id = a.id) (ha : s.approvals.get? id = some a)
    (h : Becomes text s e a (f a)) : Moves text s e (s.approvals.update (·.id = id) f hf) := by
  apply Moves.update hf
  intro id' a' ha' hid
  have hid : a'.id = id := of_decide_eq_true hid
  have : id' = id := (Table.key_of_get? ha').symm.trans hid
  subst this
  cases ha.symm.trans ha'
  exact h

-- A decision that is made: what it found, and what it committed
theorem decided_of_resolve {d : Decision} {db : Database}
    (h : (resolvePendingApprovalIfPending text w d db).1 = true) :
    ∃ a row operations, (d.status = .approved ∨ d.status = .rejected) ∧ db.approvals.get? d.id = some a ∧
      db.runs.get? a.runId = some row ∧ decisionRefusal text w.now d a (some row) = none ∧
      (if d.operation.isSome then operationsOf row.metadata else some []) = some operations ∧
      (resolvePendingApprovalIfPending text w d db).2 = decide w d a row operations db := by
  unfold resolvePendingApprovalIfPending at h ⊢
  split at h
  case isTrue => cases h
  case isFalse hst =>
    rw [if_neg hst]
    have hst : d.status = .approved ∨ d.status = .rejected := by
      by_contra hn
      exact hst (not_or.mp hn)
    cases ha : db.approvals.get? d.id
    case none => simp [ha] at h
    case some a =>
      cases hr : db.runs.get? a.runId
      case none => simp [ha, hr] at h
      case some row =>
        cases hf : decisionRefusal text w.now d a (some row)
        case some r => simp [ha, hr, hf] at h
        case none =>
          cases ho : if d.operation.isSome then operationsOf row.metadata else some []
          case none            => simp [ha, hr, hf, ho] at h
          case some operations => exact ⟨a, row, operations, hst, rfl, hr, hf, ho, by simp [hr, hf, ho]⟩

theorem unchanged_of_resolve {d : Decision} {db : Database}
    (h : (resolvePendingApprovalIfPending text w d db).1 = false) :
    (resolvePendingApprovalIfPending text w d db).2 = db := by
  unfold resolvePendingApprovalIfPending at h ⊢
  split at h
  case isTrue hst => rw [if_pos hst]
  case isFalse hst =>
    rw [if_neg hst]
    cases ha : db.approvals.get? d.id
    case none => rfl
    case some a =>
      cases hr : db.runs.get? a.runId
      case none => simp [hr]
      case some row =>
        cases hf : decisionRefusal text w.now d a (some row)
        case some r => simp [hr, hf]
        case none =>
          cases ho : if d.operation.isSome then operationsOf row.metadata else some []
          case none            => simp [hr, hf, ho]
          case some operations => simp [ha, hr, hf, ho] at h

theorem claimed_of_claim {restart : Bool} {db : Database} {d' : Delivery}
    (h : (claimApprovalResume w id restart db).1 = some d') :
    ∃ a d, db.approvals.get? id = some a ∧ a.status = .approved ∧ a.delivery = some d ∧
      claimRefusal w.now restart db a d = none ∧ d' = d.scheduledAt w.now ∧
      (claimApprovalResume w id restart db).2 =
        { db with approvals := setDelivery db.approvals id (d.scheduledAt w.now) } := by
  unfold claimApprovalResume at h ⊢
  cases ha : (db.approvals.get? id).filter (·.status = .approved)
  case none => simp [ha] at h
  case some a =>
    obtain ⟨ha', hst⟩ := Option.filter_eq_some_iff.mp ha
    cases hd : a.delivery
    case none => simp [ha, hd] at h
    case some d =>
      cases hf : claimRefusal w.now restart db a d
      case some r => simp [ha, hd, hf] at h
      case none =>
        simp only [ha, hd, hf] at h
        exact ⟨a, d, ha', of_decide_eq_true hst, hd, hf, (Option.some.inj h).symm, by simp [hd, hf]⟩

theorem unchanged_of_claim {restart : Bool} {db : Database} (h : (claimApprovalResume w id restart db).1 = none) :
    (claimApprovalResume w id restart db).2 = db := by
  unfold claimApprovalResume at h ⊢
  cases ha : (db.approvals.get? id).filter (·.status = .approved)
  case none => rfl
  case some a =>
    cases hd : a.delivery
    case none => simp [hd]
    case some d =>
      cases hf : claimRefusal w.now restart db a d
      case some r => simp [hd, hf]
      case none   => simp [ha, hd, hf] at h

theorem moved_of_transition {m : Move} {db : Database} (h : (transitionApprovalResume w m db).1 = true) :
    ∃ a d, db.approvals.get? m.approvalId = some a ∧ a.status = .approved ∧ a.delivery = some d ∧ m.matches d ∧
      (m.phase = .executing → readyRefusal a (db.runOf a) = none) ∧
      (transitionApprovalResume w m db).2 =
        { db with approvals := setDelivery db.approvals m.approvalId (d.moved w.now m) } := by
  unfold transitionApprovalResume at h ⊢
  cases ha : (db.approvals.get? m.approvalId).filter fun a => a.runId = m.runId && a.status = .approved
  case none => simp [ha] at h
  case some a =>
    obtain ⟨ha', hst⟩ := Option.filter_eq_some_iff.mp ha
    cases hd : a.delivery
    case none => simp [ha, hd] at h
    case some d =>
      cases hc : !m.matches d || (m.phase = .executing && (readyRefusal a (db.runOf a)).isSome)
      case true => simp [ha, hd, hc] at h
      case false =>
        obtain ⟨hm, hready⟩ := Bool.or_eq_false_iff.mp hc
        refine ⟨a, d, ha', of_decide_eq_true (Bool.and_eq_true_iff.mp hst).right, hd, by simpa using hm, ?_, ?_⟩
        · intro hp
          simpa [hp] using hready
        · simp [hd, hc]

theorem unchanged_of_transition {m : Move} {db : Database} (h : (transitionApprovalResume w m db).1 = false) :
    (transitionApprovalResume w m db).2 = db := by
  unfold transitionApprovalResume at h ⊢
  cases ha : (db.approvals.get? m.approvalId).filter fun a => a.runId = m.runId && a.status = .approved
  case none => rfl
  case some a =>
    cases hd : a.delivery
    case none => simp [hd]
    case some d =>
      cases hc : !m.matches d || (m.phase = .executing && (readyRefusal a (db.runOf a)).isSome)
      case true  => simp [hd, hc]
      case false => simp [ha, hd, hc] at h

section Step

theorem moves_cancel (run : String) : Moves text s e (cancelPendingHumanActionsForRun run s.approvals) := by
  unfold cancelPendingHumanActionsForRun
  split
  case isTrue  => exact .refl
  case isFalse =>
    refine Moves.update (by exact fun _ => rfl) ?_
    intro _ a _ hp
    have hp : a.status = .pending := of_decide_eq_true (Bool.and_eq_true_iff.mp hp).right
    exact .cancelled hp

theorem moves_withdraw (r : Runs.Event) : Moves text s e (withdraw r s.approvals) := by
  unfold withdraw
  split
  case h_1 =>
    split
    case isTrue  => exact moves_cancel _
    case isFalse => exact .refl
  case h_2 =>
    split
    case isTrue  => exact moves_cancel _
    case isFalse => exact .refl
  case h_3 => exact .refl

theorem moves_recover (nowText : String) :
    Moves text s e (recoverInterruptedRpaApprovalResumes w nowText s.db).approvals := by
  refine Moves.update (by exact fun _ => rfl) ?_
  intro _ a _ hp
  have hx : a.executing := by
    unfold Database.interrupted at hp
    split at hp
    case isTrue h  => exact h.right
    case isFalse h => cases hp
  have ⟨d, hd, hph⟩ := (Option.any_eq_true _ _).mp hx
  rw [hd]
  exact .fenced hd (of_decide_eq_true hph)

theorem moves_resolve {d : Decision} (hu : w.uuid ≠ "")
    (he : e = .call (.resolve d) w (.ofBool (resolvePendingApprovalIfPending text w d s.db).1)) :
    Moves text s e (resolvePendingApprovalIfPending text w d s.db).2.approvals := by
  cases hb : (resolvePendingApprovalIfPending text w d s.db).1
  case false => rw [unchanged_of_resolve hb]; exact .refl
  case true =>
    obtain ⟨a, row, operations, hst, ha, hr, hf, _, hw⟩ := decided_of_resolve hb
    rw [hb] at he
    rw [hw]
    have hpending : a.status = .pending := by
      have hn := (Option.or_eq_none_iff.mp hf).left
      by_contra hne
      simp [because, hne] at hn
    have hbec := Becomes.decided he (Table.key_of_get? ha).symm hpending hst hr hf rfl hu
    exact moves_row (by exact fun _ => rfl) ha hbec

theorem moves_claim {restart : Bool}
    (he : e = .call (.claim id restart) w ((claimApprovalResume w id restart s.db).1.elim .refused .claimed)) :
    Moves text s e (claimApprovalResume w id restart s.db).2.approvals := by
  cases hd : (claimApprovalResume w id restart s.db).1
  case none => rw [unchanged_of_claim hd]; exact .refl
  case some d =>
    obtain ⟨a, d', ha, hst, hdel, hf, hd', hw⟩ := claimed_of_claim hd
    rw [hd, hd'] at he
    rw [hw]
    cases Table.key_of_get? ha
    have hbec : Becomes text s e a { a with delivery := some (d'.scheduledAt w.now) } := .claimed he hdel hst hf
    exact moves_row (by exact fun _ => rfl) ha hbec

theorem moves_transition {m : Move} (hl : m.lawful)
    (he : e = .call (.transition m) w (.ofBool (transitionApprovalResume w m s.db).1)) :
    Moves text s e (transitionApprovalResume w m s.db).2.approvals := by
  cases hb : (transitionApprovalResume w m s.db).1
  case false => rw [unchanged_of_transition hb]; exact .refl
  case true =>
    obtain ⟨a, d, ha, hst, hdel, hm, hready, hw⟩ := moved_of_transition hb
    rw [hb] at he
    rw [hw]
    have hbec : Becomes text s e a { a with delivery := some (d.moved w.now m) } :=
      .moved he (Table.key_of_get? ha).symm hl hdel hst hm hready
    exact moves_row (by exact fun _ => rfl) ha hbec

-- Every step moves the approvals.
theorem moves_step (hs : (system text).step s e t) : Moves text s e t.approvals := by
  cases hs
  case run r b _ _ => exact moves_withdraw r
  case call c w _ hu hmeets =>
    cases c
    case resolve d         => exact moves_resolve hu rfl
    case claim id restart  => exact moves_claim rfl
    case transition m      => exact moves_transition hmeets rfl
    case recover nowText   => exact moves_recover nowText
    case add id sessionId runId kind status request response expiresAt =>
      cases ha : addPendingApproval id sessionId runId kind status request response expiresAt s.db
      case none    => simp only [Call.run, ha]; exact .refl
      case some db => simp only [Call.run, ha]; exact moves_add hmeets.right ha
    case createSpecReview id sessionId runId request expiresAt =>
      cases ha : createSpecReviewApproval id sessionId runId request expiresAt s.db
      case none    => simp only [Call.run, ha]; exact .refl
      case some db => simp only [Call.run, ha]; exact moves_createSpecReview ha

end Step
end Approvals
