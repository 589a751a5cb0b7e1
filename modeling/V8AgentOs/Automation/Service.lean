import V8AgentOs.Automation.Deliveries
import V8AgentOs.Lib.Transition
import V8AgentOs.Lib.Triple

-- core/automation/delivery.py and erc/side_effect_idempotency.py: the calls that executors, the scheduler and
-- operators make, each of which is one transaction.
namespace Automation

open Python (Dict strip)
open Runs (Time RunTable)

namespace Advance

def admitted (id owner : String) : Advance where
  deliveryId     := id
  ownerId        := owner
  expectedPhases := [.claimed, .blocked]
  phase          := .admitted

def linkReceipt (id owner key : String) : Advance where
  deliveryId     := id
  ownerId        := owner
  expectedPhases := [.admitted]
  phase          := .admitted
  receiptKey     := some key

-- `current` says whether the definition of the delivery is still the one that it was made for.
def executing (id owner : String) (current : Bool) (key : String) : Advance where
  deliveryId     := id
  ownerId        := owner
  expectedPhases := [.admitted]
  phase          := if current then .executing else .cancelled
  error          := if current then none else some "definition_changed_before_execution"
  receiptKey     := if current then some key else none

end Advance

-- A call of `finished`, with what it read before it writes: the delivery, the status of its run and its receipt.
-- These were read in transactions of their own, so that they may be out of date.
structure Finished where
  ownerId    : String
  status     : String
  error      : Option String
  retryable  : Bool            := true
  item       : Delivery
  runStatus  : Option String
  receipt    : Option Receipt
  binding    : Option Delivery := none
  receiptKey : Option String   := none

-- The statuses of an execution that waits for somebody
def waitingStatuses : List String :=
  ["waiting_approval", "review_required", "pending_approval", "paused", "waiting_input"]

namespace Finished

def target (c : Finished) : Phase :=
  if c.receipt.any (·.state = .completed) then .completed
  else if c.status = "cancelled" ∨ c.runStatus = some "cancelled" then .cancelled
  else if c.status = "success" ∨ c.status = "skipped_duplicate" then .unknown
  else if waitingStatuses.contains c.status then
    if c.receipt.any (·.state = .indeterminate) then .unknown else .blocked
  else if (c.item.phase = .claimed ∨ c.item.phase = .admitted) ∧
      (c.status = "rejected" ∨ (c.status = "failed" ∧ c.retryable)) then .pending
  else .failed

-- The write, unless the delivery is not the caller's or already ended
def advance (c : Finished) : Option Advance :=
  if c.item.ownerId ≠ some c.ownerId ∨ !([.claimed, .admitted, .executing, .blocked].contains c.item.phase) then none
  else some {
    deliveryId      := c.item.deliveryId
    ownerId         := c.ownerId
    expectedPhases  := [c.item.phase]
    phase           := c.target
    error           := c.error
    expectedBinding := c.binding.map fun b => { b with receiptKey := c.receiptKey.or b.receiptKey }
    expectedReceipt := c.receipt }

end Finished

inductive Call
  | enqueue (source : SourceEvent) (entries : List Entry) (now : Time)
  | claim (id owner : String) (leaseSeconds : ℤ) (fresh : String) (t : Clock)
  | admitted (id owner : String) (t : Clock)
  | linkReceipt (id owner key : String) (t : Clock)
  | executing (id owner : String) (current : Bool) (key : String) (t : Clock)
  | finished (c : Finished) (t : Clock)
  | renew (id owner : String) (leaseSeconds : ℤ) (t : Clock)
  | cancel (id reason : String) (now : Time)
  | settleRun (s : Settle) (now : Time)
  | reconcileDeliveries (now : Time) (limit : ℤ)
  | reconcileDelivery (id outcome : String) (evidence : Dict) (nowText : String) (now : Time)
  | claimReceipt (c : Claim) (t : Clock)
  | completeReceipt (key owner : String) (result : Option Dict) (now : Time)
  | failReceipt (key owner error : String) (now : Time)
  | markReceipt (key owner error : String) (now : Time)
  | reconcileReceipt (key outcome : String) (evidence : Dict) (error : Option String) (now : Time)
  -- The rest of the program changes what it owns.
  | elsewhere (runs : RunTable) (events : Table SourceEvent.eventId) (sessions : List String)

def Database.withReceipts (db : Database) (p : Bool × Receipts) : Bool × Database :=
  (p.1, { db with receipts := p.2 })

namespace Call

def time : Call → Option Time
  | enqueue _ _ now               => now
  | claim _ _ _ _ t               => t.now
  | admitted _ _ t                => t.now
  | linkReceipt _ _ _ t           => t.now
  | executing _ _ _ _ t           => t.now
  | finished _ t                  => t.now
  | renew _ _ _ t                 => t.now
  | cancel _ _ now                => now
  | settleRun _ now               => now
  | reconcileDeliveries now _     => now
  | reconcileDelivery _ _ _ _ now => now
  | claimReceipt _ t              => t.now
  | completeReceipt _ _ _ now     => now
  | failReceipt _ _ _ now         => now
  | markReceipt _ _ _ now         => now
  | reconcileReceipt _ _ _ _ now  => now
  | elsewhere _ _ _               => none

-- What the call answers, as far as it tells the caller that it took effect, and what it commits
def run (lower : String → String) (db : Database) : Call → Bool × Database
  | enqueue source entries now => match enqueueAutomationDeliveries source entries now db with
    | .ok (_, db') => (true, db')
    | .error _     => (false, db)
  | claim id owner leaseSeconds fresh t =>
    let (item, db') := claimAutomationDelivery id owner leaseSeconds fresh t db
    (item.isSome, db')
  | admitted id owner t => transitionAutomationDelivery (.admitted id owner) t db
  | linkReceipt id owner key t => transitionAutomationDelivery (.linkReceipt id owner key) t db
  | executing id owner current key t => transitionAutomationDelivery (.executing id owner current key) t db
  | finished c t => match c.advance with
    | some a => transitionAutomationDelivery a t db
    | none   => (false, db)
  | renew id owner leaseSeconds t => renewAutomationDelivery id owner leaseSeconds t db
  | cancel id reason now => cancelAutomationDelivery id reason now db
  | settleRun s now =>
    let (answer, db') := transitionAutomationRun s now db
    (answer.isOk, db')
  | reconcileDeliveries now limit => (true, (reconcileAutomationDeliveries now limit db).1)
  | reconcileDelivery id outcome evidence nowText now =>
    match reconcileAutomationDelivery id outcome evidence nowText now db with
    | .ok answer => answer
    | .error _   => (false, db)
  | claimReceipt c t => match claimSideEffectReceipt c t db.receipts with
    | .ok (d, receipts) => (d.execute, { db with receipts := receipts })
    | .error _          => (false, db)
  | completeReceipt key owner result now => db.withReceipts (completeSideEffectReceipt key owner result now db.receipts)
  | failReceipt key owner error now => db.withReceipts (failSideEffectReceipt key owner error now db.receipts)
  | markReceipt key owner error now => db.withReceipts (markSideEffectIndeterminate key owner error now db.receipts)
  | reconcileReceipt key outcome evidence error now =>
    match reconcileSideEffectReceipt lower key outcome evidence error now db.receipts with
    | .ok answer => db.withReceipts answer
    | .error _   => (false, db)
  | elsewhere runs events sessions => (true, { db with runs := runs, events := events, sessions := sessions })

-- The owner in whose name a delivery is changed. A claim is what makes an owner, and the scheduler and the
-- operators act in no owner's name.
def caller : Call → Option String
  | admitted _ owner _        => owner
  | linkReceipt _ owner _ _   => owner
  | executing _ owner _ _ _   => owner
  | finished c _              => c.ownerId
  | renew _ owner _ _         => owner
  | settleRun s _             => s.ownerId
  | _                         => none

end Call

-- A call and its answer
structure Event where
  call     : Call
  accepted : Bool

structure State where
  db    : Database
  clock : Time

-- `lower` is `str.lower`. The clock does not go back.
def system (lower : String → String) : Transition State Event where
  init s     := s.db.receipts.rows = [] ∧ s.db.deliveries.rows = []
  step s e t :=
    (∀ now ∈ e.call.time, s.clock ≤ now) ∧ e.call.run lower s.db = (e.accepted, t.db) ∧
      t.clock = e.call.time.getD s.clock

-- The owner to whom an event hands a delivery
def Event.grantee (id : String) (e : Event) : Option String :=
  match e.call with
  | .claim id' owner _ _ _ => if id' = id ∧ e.accepted then some owner else none
  | _                      => none

-- The owner that the latest claim of a delivery recorded
def latestOwner (id : String) (es : List Event) : Option String :=
  Transition.latest (·.grantee id) es

def phaseOf (s : State) (id : String) : Option Phase :=
  (s.db.deliveries.get? id).map (·.phase)

section Perform

-- The calls of a list, one after the other
variable (lower : String → String)

def State.perform (s : State) (c : Call) : State :=
  ⟨(c.run lower s.db).2, c.time.getD s.clock⟩

def State.performAll (s : State) : List Call → State
  | []      => s
  | c :: cs => (s.perform lower c).performAll cs

def State.events (s : State) : List Call → List Event
  | []      => []
  | c :: cs => ⟨c, (c.run lower s.db).1⟩ :: (s.perform lower c).events cs

-- Every call takes effect.
def State.accepts (s : State) : List Call → Bool
  | []      => true
  | c :: cs => (c.run lower s.db).1 && (s.perform lower c).accepts cs

def onTime (clock : Time) : List Call → Bool
  | []      => true
  | c :: cs => c.time.all (clock ≤ ·) && onTime (c.time.getD clock) cs

variable {lower : String → String} {s : State} {calls : List Call}

theorem performAll_run (ok : State → Event → Prop) (ht : onTime s.clock calls)
    (hok : ∀ c ∈ calls, ∀ s b, ok s ⟨c, b⟩) :
    ((system lower).restrict ok).Run s (s.events lower calls) (s.performAll lower calls) := by
  induction calls generalizing s
  case nil => exact .refl
  case cons c cs hi =>
    have ⟨hc, hcs⟩ := Bool.and_eq_true_iff.mp ht
    have hstep : ((system lower).restrict ok).step s ⟨c, (c.run lower s.db).1⟩ (s.perform lower c) := by
      refine ⟨hok c List.mem_cons_self _ _, fun now hnow => ?_, rfl, rfl⟩
      rw [Option.mem_def.mp hnow] at hc
      exact of_decide_eq_true hc
    exact .trans hstep (hi (s := s.perform lower c) hcs fun c hc => hok c (List.mem_cons_of_mem _ hc))

theorem events_of_accepts (h : s.accepts lower calls) : s.events lower calls = calls.map (⟨·, true⟩) := by
  induction calls generalizing s
  case nil => rfl
  case cons c cs hi =>
    have ⟨hc, hcs⟩ := Bool.and_eq_true_iff.mp h
    simp [State.events, hc, hi hcs]

theorem accepted_run (ht : onTime s.clock calls) (ha : s.accepts lower calls) :
    (system lower).Run s (calls.map (⟨·, true⟩)) (s.performAll lower calls) :=
  events_of_accepts ha ▸ (performAll_run (fun _ _ => True) ht fun _ _ _ _ => trivial).of_restrict

end Perform
end Automation
