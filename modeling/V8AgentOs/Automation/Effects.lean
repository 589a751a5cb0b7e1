import V8AgentOs.Automation.Once

namespace Automation

open Python (Dict strip)
open Runs (Time)

variable {lower : String → String} {db db' : Database} {e : Event} {r r' : Receipt} {key owner : String} {t : Clock}
  {now : Time} {accepted : Bool}

-- A call by which an owner says what became of the effect: the key and the owner as they are compared with the
-- row, and the state that is written
def Call.settles : Call → Option (String × String × ReceiptState)
  | .completeReceipt key owner _ _ => some (strip key, strip owner, .completed)
  | .failReceipt key owner _ _     => some (strip key, strip owner, .failed)
  | .markReceipt key owner _ _     => some (key, owner, .indeterminate)
  | _                              => none

-- The key of a reconciliation
def Call.reconciles : Call → Option String
  | .reconcileReceipt key _ _ _ _ => some (strip key)
  | _                             => none

-- The claim that an event grants: its caller executes the effect.
def Event.grant (key : String) (e : Event) : Option (Claim × Clock) :=
  match e.call with
  | .claimReceipt c t => if c.key = key ∧ e.accepted then some (c, t) else none
  | _                 => none

-- The receipt belongs to a lost delivery that is taken for one whose action was not started.
structure Receipt.Released (e : Event) (db : Database) (r : Receipt) (now : Time) (limit : ℤ)
    (d : Delivery) : Prop where
  call  : e.call = .reconcileDeliveries now limit
  found : db.deliveries.get? d.deliveryId = some d
  lost  : d.lost now
  phase : d.phase = .claimed ∨ d.phase = .admitted
  run   : r.runId = some d.executionRunId
  kind  : r.effectKind = "automation.trigger_execution"

-- How an event can make a claimed receipt a failed one
inductive Receipt.Fails (e : Event) (db : Database) (r : Receipt) : Prop
  | owner (owner : String) (h : e.call.settles = some (r.idempotencyKey, owner, .failed)) (ho : r.ownerId = some owner)
  | released (now : Time) (limit : ℤ) (d : Delivery) (h : r.Released e db now limit d)

-- What an event makes of a receipt
structure Receipt.Moves (e : Event) (db : Database) (r r' : Receipt) : Prop where
  granted : ∀ c t, e.grant r.idempotencyKey = some (c, t) →
    (r.state = .failed ∨ r.state = .claimed ∧ r.expired t.now ∧ c.replaySafe) ∧
    r'.state = .claimed ∧ r'.ownerId = some c.owner ∧ r'.leaseExpiresAt = some (c.lease t)
  fenced : ∀ owner state, e.call.settles = some (r.idempotencyKey, owner, state) → e.accepted →
    r.state = .claimed ∧ r.ownerId = some owner
  completed : r.state = .completed → r' = r
  indeterminate : r.state = .indeterminate → r' = r ∨
    e.call.reconciles = some r.idempotencyKey ∧ (r'.state = .completed ∨ r'.state = .failed)
  claimed : r.state = .claimed → e.grant r.idempotencyKey = none →
    r' = r ∨ r'.state = .completed ∨ r'.state = .indeterminate ∨ r'.state = .failed ∧ r.Fails e db
  failed : r.state = .failed → e.grant r.idempotencyKey = none → r' = r

namespace Receipt.Moves

theorem refl (hg : e.grant r.idempotencyKey = none)
    (hs : ∀ owner state, e.call.settles = some (r.idempotencyKey, owner, state) → e.accepted = false) :
    r.Moves e db r where
  granted c t h       := by simp [hg] at h
  fenced owner st h a := by simp [hs owner st h] at a
  completed _         := rfl
  indeterminate _     := .inl rfl
  claimed _ _         := .inl rfl
  failed _ _          := rfl

-- A claimed receipt that the event neither grants nor, except for its owner, settles
theorem of_claimed (hr : r.state = .claimed) (hg : e.grant r.idempotencyKey = none)
    (hs : ∀ owner state, e.call.settles = some (r.idempotencyKey, owner, state) → e.accepted → r.ownerId = some owner)
    (h : r'.state = .completed ∨ r'.state = .indeterminate ∨ r'.state = .failed ∧ r.Fails e db) : r.Moves e db r' where
  granted c t h       := by simp [hg] at h
  fenced owner st h a := ⟨hr, hs owner st h a⟩
  completed h         := by simp [hr] at h
  indeterminate h     := by simp [hr] at h
  claimed _ _         := .inr h
  failed h            := by simp [hr] at h

end Receipt.Moves

-- Every receipt is still there and was moved by the event, and a new one is of a claim.
structure Effected (e : Event) (db db' : Database) : Prop where
  kept : ∀ key r, db.receipts.get? key = some r → ∃ r', db'.receipts.get? key = some r' ∧ r.Moves e db r'
  made : ∀ key r', db.receipts.get? key = none → db'.receipts.get? key = some r' →
    (∃ c t, e.grant key = some (c, t) ∧ r'.state = .claimed ∧ r'.ownerId = some c.owner ∧
      r'.leaseExpiresAt = some (c.lease t)) ∨ e.grant key = none ∧ r'.state = .completed
  absent : ∀ key, db.receipts.get? key = none → db'.receipts.get? key = none → e.grant key = none
  ignored : ∀ key, db.receipts.get? key = none →
    ∀ owner state, e.call.settles = some (key, owner, state) → e.accepted = false

namespace Effected

theorem of_receipts (h : db'.receipts = db.receipts) (hg : ∀ key, e.grant key = none)
    (hs : e.call.settles = none) : Effected e db db' where
  kept key r hr     := ⟨r, by rw [h, hr], .refl (hg _) fun _ _ hs' => by simp [hs] at hs'⟩
  made key r' hn hr := by
    rw [h, hn] at hr
    cases hr
  absent key _ _    := hg key
  ignored _ _ _ _ h := by simp [hs] at h

theorem update {p : Receipt → Bool} {f : Receipt → Receipt} {hf : ∀ r, (f r).idempotencyKey = r.idempotencyKey}
    (hk : ∀ r, db.receipts.get? r.idempotencyKey = some r → p r → r.Moves e db (f r))
    (hn : ∀ r, db.receipts.get? r.idempotencyKey = some r → ¬p r → r.Moves e db r)
    (ha : ∀ key, db.receipts.get? key = none →
      e.grant key = none ∧ ∀ owner state, e.call.settles = some (key, owner, state) → e.accepted = false) :
    Effected e db { db with receipts := db.receipts.update p f hf } where
  kept key r hr := by
    have hkey := Table.key_of_get? hr
    refine ⟨if p r then f r else r, by rw [Table.get?_update, hr]; rfl, ?_⟩
    split
    case isTrue h  => exact hk r (hkey ▸ hr) h
    case isFalse h => exact hn r (hkey ▸ hr) h
  made key r' h hr := by
    rw [Table.get?_update, h] at hr
    cases hr
  absent key h _ := (ha key h).left
  ignored key h  := (ha key h).right

end Effected

section Calls

-- The three calls by which an owner ends its claim
theorem settle_effects {call : Call} (state : ReceiptState) {f : Receipt → Receipt}
    (hf : ∀ r, (f r).idempotencyKey = r.idempotencyKey) (hc : call.settles = some (key, owner, state))
    (hg : ∀ key b, Event.grant key ⟨call, b⟩ = none)
    (hs : ∀ r, (f r).state = state) (hstate : state ≠ .claimed) :
    Effected ⟨call, db.receipts.any (heldBy key owner)⟩ db
      { db with receipts := db.receipts.update (heldBy key owner) f hf } := by
  apply Effected.update
  case hk =>
    intro r _ hp
    have ⟨hkey, hp⟩ := Bool.and_eq_true_iff.mp hp
    have ⟨ho, hr⟩ := Bool.and_eq_true_iff.mp hp
    have hkey : r.idempotencyKey = key := of_decide_eq_true hkey
    apply Receipt.Moves.of_claimed (of_decide_eq_true hr) (hg _ _)
    case hs =>
      intro owner' st h _
      have h : call.settles = some (r.idempotencyKey, owner', st) := h
      rw [hc] at h
      cases h
      exact of_decide_eq_true ho
    case h =>
      rw [hs]
      cases state
      case claimed       => exact absurd rfl hstate
      case completed     => exact .inl rfl
      case indeterminate => exact .inr (.inl rfl)
      case failed        => exact .inr (.inr ⟨rfl, .owner owner (by rw [hkey]; exact hc) (of_decide_eq_true ho)⟩)
  case hn =>
    intro r hr hp
    apply Receipt.Moves.refl (hg _ _)
    intro owner' st h
    have h : call.settles = some (r.idempotencyKey, owner', st) := h
    rw [hc] at h
    cases h
    show db.receipts.any _ = false
    have ha := Table.any_key (t := db.receipts) (b := r.idempotencyKey)
      (q := fun r => r.ownerId = some owner && r.state = .claimed)
    rw [hr] at ha
    rw [show db.receipts.any (heldBy r.idempotencyKey owner) = _ from ha]
    simpa [heldBy] using hp
  case ha =>
    intro k hk
    refine ⟨hg k _, fun owner' st h => ?_⟩
    have h : call.settles = some (k, owner', st) := h
    rw [hc] at h
    cases h
    have ha := Table.any_key (t := db.receipts) (b := key) (q := fun r => r.ownerId = some owner && r.state = .claimed)
    rw [hk] at ha
    exact ha

-- What a claim makes of the row of its key
theorem claimRow_moves {c : Claim} (hk : c.key = r.idempotencyKey) :
    r.Moves ⟨.claimReceipt c t, (claimRow c t r).1.execute⟩ db (claimRow c t r).2 := by
  have hs {b : Bool} (owner : String) (state : ReceiptState)
      (h : (Event.mk (.claimReceipt c t) b).call.settles = some (r.idempotencyKey, owner, state)) : b = false :=
    nomatch h
  have hno : Event.grant r.idempotencyKey ⟨.claimReceipt c t, false⟩ = none := by simp [Event.grant]
  have hyes : Event.grant r.idempotencyKey ⟨.claimReceipt c t, true⟩ = some (c, t) := by simp [Event.grant, hk]
  unfold claimRow
  split
  case h_1 => exact .refl hno hs
  case h_2 hr =>
    split
    case isFalse => exact .refl hno hs
    case isTrue =>
      exact {
        granted := fun c' t' h => by
          cases hyes.symm.trans h
          exact ⟨.inl hr, rfl, rfl, rfl⟩
        fenced        := fun _ _ h => nomatch h
        completed     := fun h => by simp [hr] at h
        indeterminate := fun h => by simp [hr] at h
        claimed       := fun h => by simp [hr] at h
        failed        := fun _ h => by simp [hyes] at h }
  case h_3 => exact .refl hno hs
  case h_4 hr =>
    split
    case isFalse => exact .refl hno hs
    case isTrue he =>
      split
      case isFalse => exact .of_claimed hr hno (fun _ _ h => nomatch h) (.inr (.inl rfl))
      case isTrue hsafe =>
        exact {
          granted := fun c' t' h => by
            cases hyes.symm.trans h
            exact ⟨.inr ⟨hr, he, hsafe⟩, rfl, rfl, rfl⟩
          fenced        := fun _ _ h => nomatch h
          completed     := fun h => by simp [hr] at h
          indeterminate := fun h => by simp [hr] at h
          claimed       := fun _ h => by simp [hyes] at h
          failed        := fun h => by simp [hr] at h }

theorem claimReceipt_effects {c : Claim} (h : (Call.claimReceipt c t).run lower db = (accepted, db')) :
    Effected ⟨.claimReceipt c t, accepted⟩ db db' := by
  have hset : (Call.claimReceipt c t).settles = none := rfl
  have hother {k : String} {b : Bool} (hk : c.key ≠ k) : Event.grant k ⟨.claimReceipt c t, b⟩ = none := by
    simp [Event.grant, hk]
  have hno (k : String) : Event.grant k ⟨.claimReceipt c t, false⟩ = none := by simp [Event.grant]
  simp only [Call.run] at h
  unfold claimSideEffectReceipt at h
  split at h
  case h_2 =>
    cases h
    exact .of_receipts rfl hno hset
  case h_1 d receipts hr =>
    cases h
    split at hr
    case isTrue => cases hr
    case isFalse =>
      split at hr
      case h_1 hn =>
        split at hr
        case h_1 => cases hr
        case h_2 rs hi =>
          cases hr
          constructor
          case kept =>
            intro k r hk
            have hne : c.key ≠ k := by
              intro h
              rw [h, hk] at hn
              cases hn
            refine ⟨r, ?_, .refl (hother (Table.key_of_get? hk ▸ hne)) fun _ _ h => by cases h⟩
            show receipts.get? k = _
            rw [Table.get?_insert hi]
            exact (if_neg hne).trans hk
          case made =>
            intro k r' hk hr'
            have hr' : receipts.get? k = some r' := hr'
            rw [Table.get?_insert hi] at hr'
            split at hr'
            case isFalse =>
              rw [hk] at hr'
              cases hr'
            case isTrue hkey =>
              have hkey : c.key = k := hkey
              cases hr'
              cases hl : c.legacyCompleted
              case false => exact .inl ⟨c, t, by simp [Event.grant, hkey], by simp [Claim.row, hl],
                by simp [Claim.row, hl], by simp [Claim.row, hl]⟩
              case true => exact .inr ⟨by simp [Event.grant], by simp [Claim.row, hl]⟩
          case absent =>
            intro k _ hk
            have hk : receipts.get? k = none := hk
            rw [Table.get?_insert hi] at hk
            split at hk
            case isTrue => cases hk
            case isFalse hne => exact hother hne
          case ignored => exact fun _ _ _ _ h => by cases h
      case h_2 r hr' =>
        split at hr
        case isTrue => cases hr
        case isFalse =>
          cases hr
          apply Effected.update
          case hk =>
            intro r₂ hr₂ hp
            have hp : r₂.idempotencyKey = c.key := of_decide_eq_true hp
            cases hr'.symm.trans (hp ▸ hr₂)
            exact claimRow_moves hp.symm
          case hn =>
            intro r₂ _ hp
            exact .refl (hother fun h => hp (decide_eq_true h.symm)) fun _ _ h => by cases h
          case ha =>
            intro k hk
            refine ⟨hother fun h => ?_, fun _ _ h => by cases h⟩
            rw [h, hk] at hr'
            cases hr'

theorem outcomeState_ends {outcome : String} {state : ReceiptState} (h : outcomeState lower outcome = some state) :
    state = .completed ∨ state = .failed := by
  unfold outcomeState at h
  split at h
  case isTrue =>
    cases h
    exact .inl rfl
  case isFalse =>
    split at h
    case isTrue =>
      cases h
      exact .inr rfl
    case isFalse => cases h

theorem reconcileReceipt_effects {outcome : String} {evidence : Dict} {error : Option String} :
    Effected ⟨.reconcileReceipt key outcome evidence error now, accepted⟩ db
      ((Call.reconcileReceipt key outcome evidence error now).run lower db).2 := by
  simp only [Call.run]
  split
  case h_2 => exact .of_receipts rfl (fun _ => rfl) rfl
  case h_1 answer h =>
    unfold reconcileSideEffectReceipt at h
    split at h
    case h_1 => cases h
    case h_2 state hstate =>
      split at h
      case isTrue => cases h
      case isFalse =>
        cases h
        apply Effected.update 
        case hn => exact fun _ _ _ => .refl rfl fun _ _ h => by cases h
        case ha => exact fun _ _ => ⟨rfl, fun _ _ h => by cases h⟩
        case hk =>
          intro r _ hp
          obtain ⟨hkey, hr⟩ := Bool.and_eq_true_iff.mp hp
          have hkey : r.idempotencyKey = strip key := of_decide_eq_true hkey
          have hr : r.state = .indeterminate := of_decide_eq_true hr
          exact {
            granted       := fun _ _ h => by cases h
            fenced        := fun _ _ h => by cases h
            completed     := fun h => by simp [hr] at h
            indeterminate := fun _ => .inr ⟨by rw [hkey]; rfl, outcomeState_ends hstate⟩
            claimed       := fun h => by simp [hr] at h
            failed        := fun h => by simp [hr] at h }
        case hf => exact fun _ => Receipt.reconcile_key

section Reconcile

variable {acc : Database × List Reconciled} {l : List Delivery} {limit : ℤ}

-- What the recovery of lost deliveries makes of a receipt
def Receipt.Recovered (e : Event) (db : Database) (r r' : Receipt) : Prop :=
  r' = r ∨ r.state = .claimed ∧ (r'.state = .indeterminate ∨ r'.state = .failed ∧ r.Fails e db)

theorem reconcileReceipts_does {x : Delivery} {run : Option String} {receipt : Option Receipt} {rs : Receipts}
    (hx : x.lost now) (hfound : db.deliveries.get? x.deliveryId = some x) (hr : rs.get? key = some r) :
    ∃ r', (reconcileReceipts x (reconciledPhase x receipt run) receipt now rs).get? key = some r' ∧
      r.Recovered ⟨.reconcileDeliveries now limit, accepted⟩ db r' := by
  unfold reconcileReceipts
  split
  case h_1 =>
    split
    case isFalse => exact ⟨r, hr, .inl rfl⟩
    case isTrue =>
      refine ⟨_, by rw [Table.get?_update, hr]; rfl, ?_⟩
      dsimp only
      split
      case isFalse  => exact .inl rfl
      case isTrue h =>
        have hs := (Bool.and_eq_true_iff.mp h).right
        exact .inr ⟨of_decide_eq_true hs, .inl rfl⟩
  case h_2 hp =>
    refine ⟨_, by rw [Table.get?_update, hr]; rfl, ?_⟩
    dsimp only
    split
    case isFalse => exact .inl rfl
    case isTrue h =>
      obtain ⟨h, hs⟩ := Bool.and_eq_true_iff.mp h
      obtain ⟨hrun, hkind⟩ := Bool.and_eq_true_iff.mp h
      have hphase : x.phase = .claimed ∨ x.phase = .admitted := by
        cases hph : x.phase
        case claimed  => exact .inl rfl
        case admitted => exact .inr rfl
        case executing | unknown =>
          have hs : (reconciledPhase x receipt run).1.started := reconciledPhase_started hx (by rw [hph]; rfl)
          rw [hp] at hs
          cases hs
        all_goals simp [Delivery.lost, hph] at hx
      exact .inr ⟨of_decide_eq_true hs, .inr ⟨rfl, .released now limit x
        ⟨rfl, hfound, hx, hphase, of_decide_eq_true hrun, of_decide_eq_true hkind⟩⟩⟩
  case h_3 => exact ⟨r, hr, .inl rfl⟩

theorem reconcile_receipts_does (hl : ∀ x ∈ l, x.lost now ∧ db.deliveries.get? x.deliveryId = some x)
    (hr : acc.1.receipts.get? key = some r) :
    ∃ r', (l.foldl (reconcileRow now) acc).1.receipts.get? key = some r' ∧
      r.Recovered ⟨.reconcileDeliveries now limit, accepted⟩ db r' := by
  induction l generalizing acc r
  case nil => exact ⟨r, hr, .inl rfl⟩
  case cons x l hi =>
    have ⟨hx, hfound⟩ := hl x List.mem_cons_self
    have h₁ : ∃ r₁, (reconcileRow now acc x).1.receipts.get? key = some r₁ ∧
        r.Recovered ⟨.reconcileDeliveries now limit, accepted⟩ db r₁ := reconcileReceipts_does hx hfound hr
    have ⟨r₁, hr₁, h₁⟩ := h₁
    have ⟨r', hr', h⟩ := hi (fun y hy => hl y (List.mem_cons_of_mem x hy)) hr₁
    refine ⟨r', hr', ?_⟩
    cases h₁
    case inl h₁ => exact h₁ ▸ h
    case inr h₁ =>
      cases h
      case inl h => exact .inr (h ▸ h₁)
      case inr h =>
        have ⟨_, hs⟩ := h₁
        rw [h.left] at hs
        simp at hs

theorem reconcile_receipts_none (hn : acc.1.receipts.get? key = none) :
    (l.foldl (reconcileRow now) acc).1.receipts.get? key = none := by
  induction l generalizing acc
  case nil => exact hn
  case cons x l hi =>
    apply hi
    show (reconcileReceipts _ _ _ _ _).get? key = none
    unfold reconcileReceipts
    split
    case h_1 =>
      split
      case isTrue  => rw [Table.get?_update, hn]; rfl
      case isFalse => exact hn
    case h_2 => rw [Table.get?_update, hn]; rfl
    case h_3 => exact hn

theorem reconcileDeliveries_effects : Effected ⟨.reconcileDeliveries now limit, accepted⟩ db
    ((Call.reconcileDeliveries now limit).run lower db).2 := by
  constructor
  case absent => exact fun _ _ _ => rfl
  case ignored => exact fun _ _ _ _ h => nomatch h
  case made =>
    intro key r' hn hr'
    have hn : (reconcileAutomationDeliveries now limit db).1.receipts.get? key = none := reconcile_receipts_none hn
    cases hn.symm.trans hr'
  case kept =>
    intro key r hr
    have h : ∃ r', (reconcileAutomationDeliveries now limit db).1.receipts.get? key = some r' ∧
        r.Recovered ⟨.reconcileDeliveries now limit, accepted⟩ db r' :=
      reconcile_receipts_does (fun _ => mem_lostDeliveries) hr
    have ⟨r', hr', h⟩ := h
    refine ⟨r', hr', ?_⟩
    cases h
    case inl h => exact h ▸ .refl rfl fun _ _ h => nomatch h
    case inr h => exact .of_claimed h.left rfl (fun _ _ h => nomatch h) (.inr h.right)

end Reconcile

section Deliveries

-- The calls about deliveries leave the receipts alone.

theorem insertDelivery_receipts {d : Delivery} (h : db.insertDelivery d = .ok db') : db'.receipts = db.receipts := by
  unfold Database.insertDelivery at h
  split at h
  case isTrue => cases h
  case isFalse =>
    split at h
    case h_1 => cases h
    case h_2 =>
      cases h
      rfl

theorem insertAll_receipts {entries : List Entry} {source : SourceEvent}
    (h : entries.foldlM (fun db e => db.insertDelivery (e.row source now)) db = .ok db') :
    db'.receipts = db.receipts := by
  induction entries generalizing db
  case nil =>
    cases h
    rfl
  case cons e entries hi =>
    have ⟨db₁, h₁, h₂⟩ := Hoare.bind_ok h
    rw [hi h₂, insertDelivery_receipts h₁]

theorem receive_receipts {entries : List Entry} {source : SourceEvent}
    (h : db.receive source entries now = .ok db') : db'.receipts = db.receipts := by
  unfold Database.receive at h
  split at h
  case h_1 =>
    unfold Database.bindSource at h
    split at h
    case isTrue => cases h
    case isFalse =>
      split at h
      case isFalse =>
        cases h
        rfl
      case isTrue =>
        split at h
        case isTrue => cases h
        case isFalse =>
          cases h
          rfl
  case h_2 =>
    split at h
    case isTrue => cases h
    case isFalse =>
      split at h
      case h_1 => cases h
      case h_2 =>
        have hr := insertAll_receipts h
        exact hr

theorem enqueue_receipts {entries : List Entry} {source : SourceEvent} :
    ((Call.enqueue source entries now).run lower db).2.receipts = db.receipts := by
  simp only [Call.run]
  split
  case h_2 => rfl
  case h_1 h =>
    obtain ⟨_, h₁, h₂⟩ := Hoare.bind_ok (f := fun db => .ok (_, db)) h
    cases h₂
    exact receive_receipts h₁

theorem claim_receipts {id fresh : String} {seconds : ℤ} :
    ((Call.claim id owner seconds fresh t).run lower db).2.receipts = db.receipts := by
  show (claimAutomationDelivery id owner seconds fresh t db).2.receipts = _
  unfold claimAutomationDelivery
  split
  case h_1 => rfl
  case h_2 =>
    split
    case isTrue => rfl
    case isFalse =>
      split
      case h_1 => rfl
      case h_2 => rfl
      case h_3 => rfl

theorem transition_receipts {a : Advance} : (transitionAutomationDelivery a t db).2.receipts = db.receipts := by
  unfold transitionAutomationDelivery
  split
  case isTrue  => rfl
  case isFalse => rfl

theorem finished_receipts {c : Finished} : ((Call.finished c t).run lower db).2.receipts = db.receipts := by
  simp only [Call.run]
  split
  case h_1 => exact transition_receipts
  case h_2 => rfl

theorem settleRun_receipts {s : Settle} : ((Call.settleRun s now).run lower db).2.receipts = db.receipts := by
  show (transitionAutomationRun s now db).2.receipts = _
  unfold transitionAutomationRun
  split
  case h_1 => rfl
  case h_2 current run _ =>
    split
    case h_1 => rfl
    case h_2 =>
      cases hu : decide (s.status ≠ .waitingExternalTool) && s.unproven current (db.receiptOf current) run
      case false =>
        simp only [hu, Bool.false_eq_true, if_false]
        split
        case isTrue  => rfl
        case isFalse => rfl
      case true =>
        simp only [hu, if_true]
        split
        case isTrue  => rfl
        case isFalse => rfl

theorem reconcileDelivery_receipts {id outcome nowText : String} {evidence : Dict} :
    ((Call.reconcileDelivery id outcome evidence nowText now).run lower db).2.receipts = db.receipts := by
  unfold Call.run reconcileAutomationDelivery
  dsimp only
  split
  case h_2 => rfl
  case h_1 ha =>
    split at ha
    case isTrue => cases ha
    case isFalse =>
      split at ha
      case isTrue =>
        cases ha
        rfl
      case isFalse =>
        split at ha
        case isTrue =>
          cases ha
          rfl
        case isFalse => cases ha

end Deliveries

end Calls

-- What one event does to the receipts
theorem step_effects {s u : State} (h : (system lower).step s e u) : Effected e s.db u.db := by
  cases e
  case mk call accepted =>
    have hrun : call.run lower s.db = (accepted, u.db) := h.right.left
    have hdb : (call.run lower s.db).2 = u.db := by rw [hrun]
    have hacc : (call.run lower s.db).1 = accepted := by rw [hrun]
    cases call
    case claimReceipt => exact claimReceipt_effects hrun
    all_goals rw [← hdb]
    case enqueue             => exact .of_receipts enqueue_receipts (fun _ => rfl) rfl
    case claim               => exact .of_receipts claim_receipts (fun _ => rfl) rfl
    case admitted            => exact .of_receipts transition_receipts (fun _ => rfl) rfl
    case linkReceipt         => exact .of_receipts transition_receipts (fun _ => rfl) rfl
    case executing           => exact .of_receipts transition_receipts (fun _ => rfl) rfl
    case finished            => exact .of_receipts finished_receipts (fun _ => rfl) rfl
    case renew               => exact .of_receipts rfl (fun _ => rfl) rfl
    case cancel              => exact .of_receipts rfl (fun _ => rfl) rfl
    case settleRun           => exact .of_receipts settleRun_receipts (fun _ => rfl) rfl
    case reconcileDeliveries => exact reconcileDeliveries_effects
    case reconcileDelivery   => exact .of_receipts reconcileDelivery_receipts (fun _ => rfl) rfl
    case reconcileReceipt    => exact reconcileReceipt_effects
    case elsewhere           => exact .of_receipts rfl (fun _ => rfl) rfl
    case completeReceipt key owner result now =>
      rw [← hacc]
      exact settle_effects .completed (f := fun r => r.complete result now)
        (fun _ => Receipt.complete_key) rfl (fun _ _ => rfl) (fun _ => rfl) (by decide)
    case failReceipt key owner error now =>
      rw [← hacc]
      exact settle_effects .failed (f := fun r => r.fail error now)
        (fun _ => Receipt.fail_key) rfl (fun _ _ => rfl) (fun _ => rfl) (by decide)
    case markReceipt key owner error now =>
      rw [← hacc]
      exact settle_effects .indeterminate (f := fun r => r.suspend error now)
        (fun _ => Receipt.suspend_key) rfl (fun _ _ => rfl) (fun _ => rfl) (by decide)

end Automation
