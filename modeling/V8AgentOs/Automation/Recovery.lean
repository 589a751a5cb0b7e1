import V8AgentOs.Automation.Phases

namespace Automation

open Python (Dict)
open Runs (Time RunRecord)

variable {lower : String → String} {db db' : Database} {e : Event} {d d' : Delivery} {id : String} {t : Clock}
  {now : Time} {accepted : Bool} {r : Receipt} {key : String}

section Settle

variable {s : Settle} {run : RunRecord}

theorem provenPhase_started {receipt : Option Receipt} : (provenPhase receipt).started := by
  unfold provenPhase
  split
  case h_1 => split <;> rfl
  case h_2 => rfl

-- A call that parks a delivery is made by its owner, and the delivery has no final phase but possibly that of
-- a cancelled one whose receipt is not the caller's.
theorem parks {current : Delivery} (ha : s.allowed current run = .ok ()) (hs : s.status ≠ .waitingExternalTool) :
    current.ownerId = s.ownerId ∧ s.allowedPhases.contains current.phase := by
  unfold Settle.allowed at ha
  split at ha
  case isTrue => cases ha
  case isFalse =>
    split at ha
    case isTrue => cases ha
    case isFalse h => simpa [not_or] using (not_or.mp (not_or.mp h).right).imp id fun h => (not_or.mp h).right

theorem unproven_cancelled {current : Delivery} {receipt : Option Receipt} (hs : s.status = .cancelled)
    (hp : current.phase = .cancelled) (h : s.unproven current receipt run) :
    (filled current.receiptKey).isSome ∧ ¬s.receiptOwned receipt run := by
  cases hk : filled current.receiptKey
  case none => simp [Settle.unproven, hs, hp, hk] at h
  case some =>
    refine ⟨rfl, fun ho => ?_⟩
    simp [Settle.unproven, Settle.cancelledBeforeExecution, hs, hp, hk, ho] at h

theorem target_ok {current : Delivery} (h : s.target db = .ok (current, run)) :
    db.deliveries.get? s.item.deliveryId = some current ∧ db.runs.get? current.executionRunId = some run := by
  unfold Settle.target at h
  split at h
  case h_1 => cases h
  case h_2 hd =>
    split at h
    case h_1 => cases h
    case h_2 =>
      split at h
      case h_1 => cases h
      case h_2 hr =>
        split at h
        case isTrue =>
          cases h
          exact ⟨hd, hr⟩
        case isFalse => cases h

theorem park_moves {current : Delivery} (reason : Option String)
    (hd : db.deliveries.get? s.item.deliveryId = some current)
    (hr : db.runs.get? current.executionRunId = some run) (ha : s.allowed current run = .ok ())
    (hs : s.status ≠ .waitingExternalTool) (hu : s.unproven current (db.receiptOf current) run) :
    Moved ⟨.settleRun s now, accepted⟩ db
      (db.park current.deliveryId (provenPhase (db.receiptOf current)) reason now) := by
  obtain ⟨ho, hphase⟩ := parks ha hs
  apply Moved.update
  case hn => exact fun _ _ _ => rfl
  case hk =>
    intro d hd' _
    cases (Table.key_of_get? hd ▸ hd).symm.trans hd'
    exact {
      started := fun _ _ => provenPhase_started
      settled := fun hl hset => by
        have hc : s.status = .cancelled ∧ current.phase = .cancelled := by
          unfold Settle.allowedPhases at hphase
          by_cases hc : s.status = .cancelled
          case pos =>
            refine ⟨hc, ?_⟩
            cases hp : current.phase <;> simp [hc, hp] at hphase <;> simp [hp, Phase.settled] at hset
            rfl
          case neg =>
            cases hp : current.phase <;> simp [hc, hp] at hphase <;> simp [hp, Phase.settled] at hset
        obtain ⟨hk, hn⟩ := unproven_cancelled hc.left hc.right hu
        exact (hl ⟨hc.left, current, run, hd, hr, hc.right, ho, hk, hn⟩).elim
      owner   := .inl rfl
      fenced  := fun o h _ => by rw [ho]; exact h
      granted := fun h => by cases h }

theorem settleRun_moves : Moved ⟨.settleRun s now, accepted⟩ db ((Call.settleRun s now).run lower db).2 := by
  show Moved _ db (transitionAutomationRun s now db).2
  unfold transitionAutomationRun
  split
  case h_1 => exact .of_deliveries rfl fun _ => rfl
  case h_2 current run ht =>
    split
    case h_1 => exact .of_deliveries rfl fun _ => rfl
    case h_2 ha =>
      obtain ⟨hd, hr⟩ := target_ok ht
      cases hu : decide (s.status ≠ .waitingExternalTool) && s.unproven current (db.receiptOf current) run
      case false =>
        simp only [hu, Bool.false_eq_true, if_false]
        split
        case isTrue  => exact .of_deliveries rfl fun _ => rfl
        case isFalse => exact .of_deliveries rfl fun _ => rfl
      case true =>
        obtain ⟨hstatus, hunproven⟩ := Bool.and_eq_true_iff.mp hu
        simp only [hu, if_true]
        split
        case isTrue  => exact .of_deliveries rfl fun _ => rfl
        case isFalse =>
          have hm : Moved ⟨.settleRun s now, accepted⟩ db _ :=
            park_moves (some "automation_worker_termination_unproven") hd hr ha (of_decide_eq_true hstatus) hunproven
          exact ⟨hm.kept, hm.made⟩

end Settle

theorem cancel_moves {reason : String} : Moved ⟨.cancel key reason now, accepted⟩ db
    ((Call.cancel key reason now).run lower db).2 := by
  apply Moved.update
  case hn => exact fun _ _ _ => rfl
  case hk =>
    intro d _ hp
    apply Delivery.Moves.fresh rfl
    case hp => cases h : d.phase <;> simp [h] at hp <;> rfl
    case ho => exact .inr rfl
    case hc => exact fun _ h => nomatch h

theorem renew_moves {owner : String} {seconds : ℤ} : Moved ⟨.renew key owner seconds t, accepted⟩ db
    ((Call.renew key owner seconds t).run lower db).2 :=
  .update (fun _ _ _ => .same rfl rfl rfl) fun _ _ _ => rfl

theorem reconcileDelivery_moves {outcome nowText : String} {evidence : Dict} :
    Moved ⟨.reconcileDelivery key outcome evidence nowText now, accepted⟩ db
      ((Call.reconcileDelivery key outcome evidence nowText now).run lower db).2 := by
  have hsettle {p : Phase} (hp : p.settled) (f : Delivery → Delivery) (hf : ∀ d, (f d).deliveryId = d.deliveryId)
      (h : ∀ d, (f d).phase = p ∧ (f d).ownerId = d.ownerId) :
      Moved ⟨.reconcileDelivery key outcome evidence nowText now, accepted⟩ db
        (db.updateDelivery key (fun d => d.phase = .unknown) f hf) := by
    apply Moved.update
    case hn => exact fun _ _ _ => rfl
    case hk =>
      intro d _ hu
      have hu := of_decide_eq_true hu
      exact {
        started := fun _ _ => by rw [(h d).left]; simp [Phase.started, hp]
        settled := fun _ hs => absurd hs (by rw [hu]; decide)
        owner   := .inr (by rw [(h d).right]; rfl)
        fenced  := fun _ h => nomatch h
        granted := fun h => nomatch h }
  unfold Call.run reconcileAutomationDelivery
  dsimp only
  split
  case h_2 => exact .of_deliveries rfl fun _ => rfl
  case h_1 ha =>
    split at ha
    case isTrue => cases ha
    case isFalse =>
      split at ha
      case isTrue =>
        cases ha
        exact hsettle rfl _ _ fun _ => ⟨rfl, rfl⟩
      case isFalse =>
        split at ha
        case isTrue =>
          cases ha
          exact hsettle rfl _ _ fun _ => ⟨rfl, rfl⟩
        case isFalse => cases ha

section Reconcile

variable {acc : Database × List Reconciled} {l : List Delivery}

-- What the recovery of a lost delivery makes of it
structure Delivery.Recovered (d d' : Delivery) : Prop where
  started : d.phase.started → d'.phase.started
  settled : d.phase.settled = false
  owner   : d'.ownerId = none

theorem reconciledPhase_started {receipt : Option Receipt} {run : Option String} (hl : d.lost now)
    (h : d.phase.started) : (reconciledPhase d receipt run).1.started := by
  have hp : d.phase = .executing ∨ d.phase = .unknown := by
    unfold Delivery.lost at hl
    cases hp : d.phase <;> simp [hp, Phase.started, Phase.settled] at hl h ⊢
  unfold reconciledPhase
  split
  case isTrue  => rfl
  case isFalse =>
    split
    case isTrue  => rfl
    case isFalse =>
      split
      case isTrue  => rfl
      case isFalse => rfl

theorem lost_not_settled (hl : d.lost now) : d.phase.settled = false := by
  unfold Delivery.lost at hl
  cases hp : d.phase <;> simp [hp] at hl <;> rfl

theorem reconcileRow_get? {x : Delivery} : (reconcileRow now acc x).1.deliveries.get? id =
    (acc.1.deliveries.get? id).map fun d =>
      if d.deliveryId = x.deliveryId then d.release (acc.1.verdict x) now else d := by
  show (Table.update acc.1.deliveries (fun d => d.deliveryId = x.deliveryId && true)
    (fun d => d.release (acc.1.verdict x) now) fun _ => Delivery.release_deliveryId).get? id = _
  rw [Table.get?_update]
  simp

theorem Delivery.Recovered.trans {d'' : Delivery} (h₁ : d.Recovered d') (h₂ : d'.Recovered d'') : d.Recovered d'' where
  started h := h₂.started (h₁.started h)
  settled   := h₁.settled
  owner     := h₂.owner

-- The lost deliveries that are still to be handled are as they were read.
theorem reconcile_does (hl : ∀ x ∈ l, x.lost now ∧ acc.1.deliveries.get? x.deliveryId = some x)
    (hn : (l.map (·.deliveryId)).Nodup) (hd : acc.1.deliveries.get? id = some d) :
    ∃ d', (l.foldl (reconcileRow now) acc).1.deliveries.get? id = some d' ∧ (d' = d ∨ d.Recovered d') := by
  induction l generalizing acc d
  case nil => exact ⟨d, hd, .inl rfl⟩
  case cons x l hi =>
    obtain ⟨hx, htail⟩ := List.nodup_cons.mp hn
    obtain ⟨hlost, hfound⟩ := hl x List.mem_cons_self
    have hrest : ∀ y ∈ l, y.lost now ∧ (reconcileRow now acc x).1.deliveries.get? y.deliveryId = some y := by
      intro y hy
      obtain ⟨hlost, hfound⟩ := hl y (List.mem_cons_of_mem x hy)
      have hne : y.deliveryId ≠ x.deliveryId := fun h => hx (List.mem_map.mpr ⟨y, hy, h⟩)
      exact ⟨hlost, by simp [reconcileRow_get?, hfound, hne]⟩
    by_cases hid : d.deliveryId = x.deliveryId
    case neg =>
      exact hi hrest htail (by simp [reconcileRow_get?, hd, hid])
    case pos =>
      have : d = x := Option.some.inj (hd.symm.trans (by rw [← Table.key_of_get? hd, hid, hfound]))
      subst this
      have hrec : d.Recovered (d.release (acc.1.verdict d) now) :=
        ⟨reconciledPhase_started hlost, lost_not_settled hlost, rfl⟩
      obtain ⟨d', hd', h⟩ := hi (d := d.release (acc.1.verdict d) now) hrest htail (by simp [reconcileRow_get?, hd])
      cases h
      case inl h => exact ⟨d', hd', .inr (h ▸ hrec)⟩
      case inr h => exact ⟨d', hd', .inr (hrec.trans h)⟩

theorem mem_lostDeliveries {limit : ℤ} (h : d ∈ lostDeliveries now limit db) :
    d.lost now ∧ db.deliveries.get? d.deliveryId = some d := by
  have h := List.mem_of_mem_take h
  have h := List.mem_filter.mp ((List.mem_insertionSort _).mp h)
  exact ⟨h.right, Table.get?_of_mem h.left⟩

theorem nodup_lostDeliveries {limit : ℤ} : ((lostDeliveries now limit db).map (·.deliveryId)).Nodup := by
  apply List.Nodup.sublist ((List.take_sublist _ _).map _)
  have hp := List.perm_insertionSort (fun a b : Delivery =>
    a.availableAt < b.availableAt ∨ (a.availableAt = b.availableAt ∧ a.deliveryId ≤ b.deliveryId))
      (db.deliveries.rows.filter (·.lost now))
  exact (hp.map _).nodup_iff.mpr (db.deliveries.unique.sublist (List.filter_sublist.map _))

theorem reconcile_makes_none (hn : acc.1.deliveries.get? id = none) :
    (l.foldl (reconcileRow now) acc).1.deliveries.get? id = none := by
  induction l generalizing acc
  case nil         => exact hn
  case cons x l hi => exact hi (by rw [reconcileRow_get?, hn]; rfl)

theorem reconcileDeliveries_moves {limit : ℤ} : Moved ⟨.reconcileDeliveries now limit, accepted⟩ db
    ((Call.reconcileDeliveries now limit).run lower db).2 := by
  constructor
  case made =>
    intro id d' hn hd'
    have hn : (reconcileAutomationDeliveries now limit db).1.deliveries.get? id = none := reconcile_makes_none hn
    cases hn.symm.trans hd'
  case kept =>
    intro id d hd
    have h : ∃ d', (reconcileAutomationDeliveries now limit db).1.deliveries.get? id = some d' ∧
        (d' = d ∨ d.Recovered d') := reconcile_does (fun _ => mem_lostDeliveries) nodup_lostDeliveries hd
    have ⟨d', hd', h⟩ := h
    refine ⟨d', hd', ?_⟩
    cases h
    case inl h => exact h ▸ .refl rfl
    case inr h =>
      exact {
        started := fun _ => h.started
        settled := fun _ hs => absurd hs (by simp [h.settled])
        owner   := .inl h.owner
        fenced  := fun _ hc => nomatch hc
        granted := fun hg => nomatch hg }

end Reconcile

theorem claimReceipt_deliveries {c : Claim} :
    ((Call.claimReceipt c t).run lower db).2.deliveries = db.deliveries := by
  simp only [Call.run]
  split
  case h_1 => rfl
  case h_2 => rfl

theorem reconcileReceipt_deliveries {outcome : String} {evidence : Dict} {error : Option String} :
    ((Call.reconcileReceipt key outcome evidence error now).run lower db).2.deliveries = db.deliveries := by
  simp only [Call.run]
  split
  case h_1 => rfl
  case h_2 => rfl

-- What one event does to the deliveries
theorem step_moves {s u : State} (h : (system lower).step s e u) : Moved e s.db u.db := by
  cases e
  case mk call accepted =>
    have hrun : call.run lower s.db = (accepted, u.db) := h.right.left
    have hdb : (call.run lower s.db).2 = u.db := by rw [hrun]
    cases call
    case claim => exact claim_moves hrun
    all_goals rw [← hdb]
    case enqueue => exact enqueue_moves
    case admitted id owner t =>
      apply transition_moves (fun _ => rfl) rfl (by simp [Advance.admitted, Phase.settled])
      intro d _ ht _ hs
      have hp := (Bool.and_eq_true_iff.mp ht).right
      cases h : d.phase <;> simp [h, Advance.admitted, Phase.started, Phase.settled] at hp hs
    case linkReceipt id owner key t =>
      apply transition_moves (fun _ => rfl) rfl (by simp [Advance.linkReceipt, Phase.settled])
      intro d _ ht _ hs
      have hp := (Bool.and_eq_true_iff.mp ht).right
      cases h : d.phase <;> simp [h, Advance.linkReceipt, Phase.started, Phase.settled] at hp hs
    case executing id owner current key t =>
      apply transition_moves (fun _ => rfl) rfl (by simp [Advance.executing, Phase.settled])
      intro d _ _ _ _
      unfold Advance.executing
      cases current <;> rfl
    case finished          => exact finished_moves
    case renew             => exact renew_moves
    case cancel            => exact cancel_moves
    case settleRun         => exact settleRun_moves
    case reconcileDeliveries => exact reconcileDeliveries_moves
    case reconcileDelivery => exact reconcileDelivery_moves
    case claimReceipt c t => exact .of_deliveries claimReceipt_deliveries fun _ => rfl
    case reconcileReceipt => exact .of_deliveries reconcileReceipt_deliveries fun _ => rfl
    case completeReceipt => exact .of_deliveries rfl fun _ => rfl
    case failReceipt     => exact .of_deliveries rfl fun _ => rfl
    case markReceipt     => exact .of_deliveries rfl fun _ => rfl
    case elsewhere       => exact .of_deliveries rfl fun _ => rfl

end Automation
