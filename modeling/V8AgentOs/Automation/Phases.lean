import V8AgentOs.Automation.Service

namespace Automation

open Python (Dict)
open Runs (Time)

variable {lower : String → String} {db db' : Database} {e : Event} {d d' : Delivery} {id : String} {t : Clock}
  {now : Time} {accepted : Bool}

namespace Phase

def settled (p : Phase) : Bool :=
  p = .completed || p = .failed || p = .cancelled

-- The phases that a delivery whose action may have been started is in
def started (p : Phase) : Bool :=
  p = .executing || p = .unknown || p.settled

end Phase

-- The call finds the delivery executing, and blocks it until somebody decides.
structure Finished.Blocks (c : Finished) (db : Database) : Prop where
  executing : ∃ d, db.deliveries.get? c.item.deliveryId = some d ∧ d.phase = .executing ∧ d.ownerId = some c.ownerId
  item      : c.item.phase = .executing
  status    : waitingStatuses.contains c.status
  run       : c.runStatus ≠ some "cancelled"
  receipt   : ∀ r ∈ c.receipt, r.state ≠ .completed ∧ r.state ≠ .indeterminate

-- The call settles a delivery as cancelled that is so already, and has no proof of its receipt.
structure Settle.Reopens (s : Settle) (db : Database) : Prop where
  status   : s.status = .cancelled
  delivery : ∃ d run, db.deliveries.get? s.item.deliveryId = some d ∧ db.runs.get? d.executionRunId = some run ∧
    d.phase = .cancelled ∧ d.ownerId = s.ownerId ∧ (filled d.receiptKey).isSome ∧
    ¬s.receiptOwned (db.receiptOf d) run

namespace Call

def Blocks (db : Database) : Call → Prop
  | finished c _ => c.Blocks db
  | _            => False

def Reopens (db : Database) : Call → Prop
  | settleRun s _ => s.Reopens db
  | _             => False

end Call

-- What an event makes of a delivery
structure Delivery.Moves (e : Event) (db : Database) (d d' : Delivery) : Prop where
  started : ¬e.call.Blocks db → d.phase.started → d'.phase.started
  settled : ¬e.call.Reopens db → d.phase.settled → d'.phase = d.phase
  owner   : d'.ownerId = none ∨ d'.ownerId = (e.grantee d.deliveryId).or d.ownerId
  fenced  : ∀ o, e.call.caller = some o → d'.phase ≠ d.phase → d.ownerId = some o
  granted : (e.grantee d.deliveryId).isSome → d.phase = .pending

-- Every delivery is still there and was moved by the event, and a new one has no owner.
structure Moved (e : Event) (db db' : Database) : Prop where
  kept : ∀ id d, db.deliveries.get? id = some d → ∃ d', db'.deliveries.get? id = some d' ∧ d.Moves e db d'
  made : ∀ id d', db.deliveries.get? id = none → db'.deliveries.get? id = some d' → d'.ownerId = none

namespace Delivery.Moves

theorem same (h : e.grantee d.deliveryId = none) (hp : d'.phase = d.phase) (ho : d'.ownerId = d.ownerId) :
    d.Moves e db d' where
  started _ hs   := hp ▸ hs
  settled _ _    := hp
  owner          := .inr (by rw [h, ho]; rfl)
  fenced _ _ hne := absurd hp hne
  granted hg     := by simp [h] at hg

theorem refl (h : e.grantee d.deliveryId = none) : d.Moves e db d :=
  same h rfl rfl

-- A delivery whose action was not started, and that has no final phase
theorem fresh (h : e.grantee d.deliveryId = none) (hp : d.phase.started = false)
    (ho : d'.ownerId = none ∨ d'.ownerId = d.ownerId) (hc : ∀ o, e.call.caller = some o → d.ownerId = some o) :
    d.Moves e db d' where
  started _ hs  := absurd hs (by simp [hp])
  settled _ hs  := absurd hs (by simp [Phase.started] at hp; simp [hp])
  owner         := ho.imp id fun ho => by rw [h, ho]; rfl
  fenced o hs _ := hc o hs
  granted hg    := by simp [h] at hg

end Delivery.Moves

theorem get?_updateDelivery {p : Delivery → Bool} {f : Delivery → Delivery}
    {hf : ∀ d, (f d).deliveryId = d.deliveryId} {key : String} :
    (db.updateDelivery key p f hf).deliveries.get? id =
      (db.deliveries.get? id).map fun d => if d.deliveryId = key && p d then f d else d :=
  Table.get?_update (h := hf)

-- An update moves the deliveries that it is about, and the others are not handed to anybody.
theorem Moved.update {p : Delivery → Bool} {f : Delivery → Delivery} {hf : ∀ d, (f d).deliveryId = d.deliveryId}
    {key : String} (hk : ∀ d, db.deliveries.get? key = some d → p d → d.Moves e db (f d))
    (hn : ∀ d, db.deliveries.get? d.deliveryId = some d → ¬(d.deliveryId = key ∧ p d) → e.grantee d.deliveryId = none) :
    Moved e db (db.updateDelivery key p f hf) := by
  constructor
  case kept =>
    intro id d hd
    have hid := Table.key_of_get? hd
    refine ⟨if d.deliveryId = key && p d then f d else d, by rw [get?_updateDelivery, hd]; rfl, ?_⟩
    split
    case isTrue h =>
      have ⟨hkey, hp⟩ := Bool.and_eq_true_iff.mp h
      have hkey := of_decide_eq_true hkey
      exact hk d (by rw [← hkey, hid, hd]) hp
    case isFalse h =>
      apply Delivery.Moves.refl
      apply hn d (by rw [hid, hd])
      intro hc
      exact h (by simp [hc])
  case made =>
    intro id d' hn hd'
    rw [get?_updateDelivery, hn] at hd'
    cases hd'

theorem Moved.of_deliveries (h : db'.deliveries = db.deliveries) (hn : ∀ id, e.grantee id = none) : Moved e db db' where
  kept id d hd     := ⟨d, by rw [h, hd], .refl (hn _)⟩
  made id d' hn hd := by
    rw [h, hn] at hd
    cases hd

section Insert

variable {rows : List Entry} {source existing : SourceEvent}

-- Deliveries are only added, and those that are added have no owner.
structure Added (db db' : Database) : Prop where
  kept : ∀ id d, db.deliveries.get? id = some d → db'.deliveries.get? id = some d
  made : ∀ id d', db.deliveries.get? id = none → db'.deliveries.get? id = some d' → d'.ownerId = none

theorem Added.of_deliveries (h : db'.deliveries = db.deliveries) : Added db db' where
  kept _ _ hd    := h ▸ hd
  made _ _ hn hd := by
    rw [h, hn] at hd
    cases hd

theorem insertDelivery_adds {r : Delivery} (h : db.insertDelivery r = .ok db') (ho : r.ownerId = none) :
    Added db db' := by
  unfold Database.insertDelivery at h
  split at h
  case isTrue => cases h
  case isFalse =>
    split at h
    case h_1 => cases h
    case h_2 t ht =>
      cases h
      constructor
      case kept =>
        intro id d hd
        show t.get? id = _
        rw [Table.get?_insert ht]
        split
        case isFalse => exact hd
        case isTrue hk =>
          have hn := Table.get?_none_of_insert ht
          rw [hk, hd] at hn
          cases hn
      case made =>
        intro id d' hn hd'
        have hd' : t.get? id = some d' := hd'
        rw [Table.get?_insert ht] at hd'
        split at hd'
        case isTrue =>
          cases hd'
          exact ho
        case isFalse =>
          rw [hn] at hd'
          cases hd'

theorem insertAll_adds (h : rows.foldlM (fun db e => db.insertDelivery (e.row source now)) db = .ok db') :
    Added db db' := by
  induction rows generalizing db
  case nil =>
    cases h
    exact .of_deliveries rfl
  case cons e rows hi =>
    have ⟨db₁, h₁, h₂⟩ := Hoare.bind_ok h
    have ha₁ := insertDelivery_adds h₁ rfl
    have ha₂ := hi h₂
    constructor
    case kept => exact fun id d hd => ha₂.kept id d (ha₁.kept id d hd)
    case made =>
      intro id d' hn hd'
      cases hd₁ : db₁.deliveries.get? id
      case none => exact ha₂.made id d' hd₁ hd'
      case some d₁ =>
        cases (ha₂.kept id d₁ hd₁).symm.trans hd'
        exact ha₁.made id _ hn hd₁

theorem bindSource_deliveries (h : db.bindSource source existing = .ok db') : db'.deliveries = db.deliveries := by
  unfold Database.bindSource at h
  split at h
  case isTrue => cases h
  case isFalse =>
    split at h
    case isFalse =>
      cases h
      rfl
    case isTrue =>
      split at h
      case isTrue => cases h
      case isFalse =>
        cases h
        rfl

theorem receive_adds (h : db.receive source rows now = .ok db') : Added db db' := by
  unfold Database.receive at h
  split at h
  case h_1 => exact .of_deliveries (bindSource_deliveries h)
  case h_2 =>
    split at h
    case isTrue => cases h
    case isFalse =>
      split at h
      case h_1 => cases h
      case h_2 => exact ⟨(insertAll_adds h).kept, (insertAll_adds h).made⟩

theorem enqueue_moves : Moved ⟨.enqueue source rows now, accepted⟩ db
    ((Call.enqueue source rows now).run lower db).2 := by
  simp only [Call.run]
  split
  case h_2 => exact .of_deliveries rfl fun _ => rfl
  case h_1 h =>
    have ⟨_, h₁, h₂⟩ := Hoare.bind_ok (f := fun db => .ok (_, db)) h
    cases h₂
    have ha := receive_adds h₁
    exact ⟨fun id d hd => ⟨d, ha.kept id d hd, .refl rfl⟩, ha.made⟩

end Insert

section Calls

-- An advance of a delivery that has no final phase, to a phase that an action may have led to if its
-- present phase is one
theorem transition_moves {a : Advance} (hn : ∀ id, e.grantee id = none) (hc : e.call.caller = some a.ownerId)
    (hf : ∀ p ∈ a.expectedPhases, p.settled = false)
    (hs : ∀ d, db.deliveries.get? a.deliveryId = some d → a.takes d → ¬e.call.Blocks db → d.phase.started →
      a.phase.started) :
    Moved e db (transitionAutomationDelivery a t db).2 := by
  unfold transitionAutomationDelivery
  split
  case isTrue  => exact .of_deliveries rfl hn
  case isFalse =>
    apply Moved.update
    case hn => exact fun _ _ _ => hn _
    case hk =>
      intro d hd hp
      have ⟨ho, hphase⟩ := Bool.and_eq_true_iff.mp hp
      have ho := of_decide_eq_true ho
      have hset := hf d.phase (by simpa using hphase)
      exact {
        started := fun hb h => hs d hd hp hb h
        settled := fun _ h => absurd h (by simp [hset])
        owner   := .inr (by rw [hn]; rfl)
        fenced  := fun o h _ => by rw [ho, ← h, hc]
        granted := fun h => by simp [hn] at h }

theorem finished_moves {c : Finished} : Moved ⟨.finished c t, accepted⟩ db ((Call.finished c t).run lower db).2 := by
  simp only [Call.run, Finished.advance]
  split
  case h_2 => exact .of_deliveries rfl fun _ => rfl
  case h_1 a ha =>
    split at ha
    case isTrue => cases ha
    case isFalse hc =>
      cases ha
      have hphase : [.claimed, .admitted, .executing, .blocked].contains c.item.phase := by
        simpa only [Bool.not_eq_true', Bool.not_eq_false] using (not_or.mp hc).right
      apply transition_moves
      case hn => exact fun _ => rfl
      case hc => rfl
      case hf =>
        intro p hp
        cases List.mem_singleton.mp hp
        cases h : c.item.phase <;> simp [h] at hphase <;> rfl
      case hs =>
        intro d hd htakes hb hs
        obtain ⟨ho, hin⟩ := Bool.and_eq_true_iff.mp htakes
        have hitem : d.phase = c.item.phase := by simpa using hin
        have hexec : c.item.phase = .executing := by
          rw [hitem] at hs
          cases h : c.item.phase <;> simp [h] at hphase <;> simp [h, Phase.started, Phase.settled] at hs
          rfl
        show c.target.started
        unfold Finished.target
        split
        case isTrue => rfl
        case isFalse hcompleted =>
          split
          case isTrue => rfl
          case isFalse hcancelled =>
            split
            case isTrue => rfl
            case isFalse =>
              split
              case isTrue hwait =>
                split
                case isTrue => rfl
                case isFalse hunknown =>
                  refine (hb ⟨⟨d, hd, hitem.trans hexec, of_decide_eq_true ho⟩, hexec, hwait, ?_, ?_⟩).elim
                  · exact fun h => hcancelled (.inr h)
                  · intro r hr
                    constructor
                    · exact fun h => hcompleted (by simp [Option.mem_def.mp hr, h])
                    · exact fun h => hunknown (by simp [Option.mem_def.mp hr, h])
              case isFalse =>
                split
                case isTrue h  => simp [hexec] at h
                case isFalse   => rfl

theorem claim_moves {owner fresh : String} {seconds : ℤ} {key : String}
    (h : (Call.claim key owner seconds fresh t).run lower db = (accepted, db')) :
    Moved ⟨.claim key owner seconds fresh t, accepted⟩ db db' := by
  have hn {b : Bool} (hb : b = false) (id : String) :
      Event.grantee id ⟨.claim key owner seconds fresh t, b⟩ = none := by
    simp [Event.grantee, hb]
  have hstop {p : Phase} {item : Delivery} (hitem : db.deliveries.get? key = some item) (hp : item.phase = .pending) :
      Moved ⟨.claim key owner seconds fresh t, false⟩ db
        (db.updateDelivery key (fun _ => true) fun d => { d with phase := p, updatedAt := t.now }) := by
    apply Moved.update
    case hn => exact fun _ _ _ => hn rfl _
    case hk =>
      intro d hd _
      cases hitem.symm.trans hd
      exact .fresh (hn rfl _) (by rw [hp]; rfl) (.inr rfl) (fun _ h => by cases h)
  cases hc : claimAutomationDelivery key owner seconds fresh t db
  case mk item db₁ =>
    have he : accepted = item.isSome ∧ db' = db₁ := by
      have : (item.isSome, db₁) = (accepted, db') := by simpa [Call.run, hc] using h
      cases this
      exact ⟨rfl, rfl⟩
    rw [he.left, he.right]
    unfold claimAutomationDelivery at hc
    split at hc
    case h_1 =>
      cases hc
      exact .of_deliveries rfl (hn rfl)
    case h_2 row hrow =>
      split at hc
      case isTrue =>
        cases hc
        exact .of_deliveries rfl (hn rfl)
      case isFalse hphase =>
        have hphase : row.phase = .pending := by simpa using (not_or.mp hphase).left
        split at hc
        case h_1 =>
          cases hc
          exact hstop hrow hphase
        case h_2 =>
          cases hc
          exact hstop hrow hphase
        case h_3 =>
          cases hc
          have hsome : ((db.updateDelivery key (fun d => d.phase = .pending)
              (fun d => d.claim owner fresh (t.after seconds) t.now)
              fun _ => Delivery.claim_deliveryId).deliveries.get? key).isSome := by
            rw [get?_updateDelivery, hrow]
            rfl
          rw [hsome]
          apply Moved.update
          case hk =>
            intro d hd hp
            cases hrow.symm.trans hd
            have hg : Event.grantee row.deliveryId ⟨.claim key owner seconds fresh t, true⟩ = some owner := by
              simp [Event.grantee, Table.key_of_get? hrow]
            exact {
              started := fun _ h => absurd h (by rw [hphase]; decide)
              settled := fun _ h => absurd h (by rw [hphase]; decide)
              owner   := .inr (by rw [hg]; rfl)
              fenced  := fun _ h => by cases h
              granted := fun _ => hphase }
          case hn =>
            intro d hd hne
            have hkey : key ≠ d.deliveryId := by
              intro hk
              cases hrow.symm.trans (hk ▸ hd)
              exact hne ⟨hk.symm, decide_eq_true hphase⟩
            simp [Event.grantee, hkey]

end Calls
end Automation
