import V8AgentOs.Lib.Transition
import V8AgentOs.Relay.Outbox

-- runtimes/network_supervisor/relay_runtime.py: `process_outbox_once`, by any number of workers.
namespace Relay

open Automation (Clock)
open Runs (Time)

-- Where a worker is. `item` is the row that its claim has returned, and `existing` the row that
-- `fail_network_relay_outbox_item` has read.
inductive Work
  | selected (id worker : String) (now leaseExpiresAt : Time)
  | publishing (item : OutboxItem)
  | completed (item : OutboxItem)
  | failing (item : OutboxItem) (error : String)
  | writing (item existing : OutboxItem) (error : String) (now availableAt : Time)
  | burying (item existing : OutboxItem) (error : String)

structure State where
  outbox      : Outbox
  deadLetters : List DeadLetter
  workers     : ℕ → Option Work

inductive Action
  | add (item : Enqueued) (now : Time)
  -- `claim_next_network_relay_outbox_item`: the `SELECT` and the `UPDATE`
  | claim (pid : ℕ) (worker : String) (seconds : ℤ) (clock : Clock)
  | take (pid : ℕ)
  | complete (pid : ℕ) (relayMessageId : Option String) (now : Time)
  | finish (pid : ℕ)
  -- `except Exception as exc`
  | raise (pid : ℕ) (error : String)
  -- `fail_network_relay_outbox_item`: the row that is read, the `UPDATE`, and the dead letter
  | read (pid : ℕ) (delay : ℤ) (clock : Clock)
  | write (pid : ℕ)
  | bury (pid : ℕ) (now : Time)
  | crash (pid : ℕ)

namespace State

variable (s : State)

def setWorker (pid : ℕ) (work : Option Work) : State :=
  { s with workers := Function.update s.workers pid work }

def take (pid : ℕ) : Work → Option State
  | .selected id worker now leaseExpiresAt =>
    let outbox := leaseItem s.outbox id worker now leaseExpiresAt
    match s.outbox.get? id with
    | some item =>
      if item.claimable now then
        some { s.setWorker pid (some (.publishing (item.lease worker now leaseExpiresAt))) with outbox }
      else some (s.setWorker pid none)
    | none      => some (s.setWorker pid none)
  | _ => none

def complete (pid : ℕ) (relayMessageId : Option String) (now : Time) : Work → Option State
  | .publishing item =>
    some { s.setWorker pid (some (.completed item)) with outbox := completeItem s.outbox item.id relayMessageId now }
  | _ => none

def finish (pid : ℕ) : Work → Option State
  | .completed _ => some (s.setWorker pid none)
  | _            => none

def raise (pid : ℕ) (error : String) : Work → Option State
  | .publishing item => some (s.setWorker pid (some (.failing item error)))
  | .completed item  => some (s.setWorker pid (some (.failing item error)))
  | _                => none

def read (pid : ℕ) (delay : ℤ) (clock : Clock) : Work → Option State
  | .failing item error => some (s.setWorker pid ((getItem s.outbox item.id).map fun existing =>
    .writing item existing error clock.now (clock.after (retryDelay delay))))
  | _ => none

def write (pid : ℕ) : Work → Option State
  | .writing item existing error now availableAt =>
    some { s.setWorker pid (if existing.exhausted then some (.burying item existing error) else none) with
      outbox := failItem s.outbox item.id existing.exhausted error now availableAt }
  | _ => none

def bury (pid : ℕ) (now : Time) : Work → Option State
  | .burying item existing error =>
    some { s.setWorker pid none with deadLetters := s.deadLetters ++ [existing.outboundLetter item.id error now] }
  | _ => none

def step : Action → Option State
  | .add item now                      => (s.outbox.insert? (item.item now)).map fun outbox => { s with outbox }
  | .claim pid worker seconds clock    => match s.workers pid with
    | none   => some (s.setWorker pid ((nextItem s.outbox clock.now).map fun item =>
      .selected item.id worker clock.now (clock.after (leaseSeconds seconds))))
    | some _ => none
  | .take pid                          => (s.workers pid).bind (s.take pid)
  | .complete pid relayMessageId now   => (s.workers pid).bind (s.complete pid relayMessageId now)
  | .finish pid                        => (s.workers pid).bind (s.finish pid)
  | .raise pid error                   => (s.workers pid).bind (s.raise pid error)
  | .read pid delay clock              => (s.workers pid).bind (s.read pid delay clock)
  | .write pid                         => (s.workers pid).bind (s.write pid)
  | .bury pid now                      => (s.workers pid).bind (s.bury pid now)
  | .crash pid                         => some (s.setWorker pid none)

end State

def initial : State where
  outbox      := .empty
  deadLetters := []
  workers _   := none

def system : Transition State Action where
  init s          := s = initial
  step s action t := s.step action = some t

-- The item that a worker has in its hands, as it was when it was claimed
def Work.item : Work → Option OutboxItem
  | .selected _ _ _ _       => none
  | .publishing item        => some item
  | .completed item         => some item
  | .failing item _         => some item
  | .writing item _ _ _ _   => some item
  | .burying item _ _       => some item

-- The worker has still to report what became of its item.
def Work.unreported : Work → Bool
  | .publishing _       => true
  | .failing _ _        => true
  | .writing _ _ _ _ _  => true
  | _                   => false

-- The item for which the worker has still to add a dead letter
def Work.burial : Work → Option String
  | .burying item _ _ => some item.id
  | _                 => none

-- The claim of the worker is the latest one of the item: every claim counts an attempt.
def Work.latest (w : Work) (i : OutboxItem) : Prop :=
  ∃ item ∈ w.item, item.id = i.id ∧ item.attemptCount = i.attemptCount

end Relay

-- What holds of the items of the outbox and of their workers in an orderly run
namespace Relay

open Automation (Clock)
open Runs (Time)

variable {s t : State} {outbox outbox' : Outbox} {letters letters' : List DeadLetter}
  {workers workers' : ℕ → Option Work} {i j item : OutboxItem} {w w' : Work} {work : Option Work} {pid other : ℕ}
  {id : String} {action : Action}

-- The outbound dead letters of an item
def lettersOf (letters : List DeadLetter) (id : String) : ℕ :=
  letters.countP fun d => d.direction = "outbound" && d.outboxId = some id

-- A worker has the item in its hands and has still to report what became of it.
def Holds (workers : ℕ → Option Work) (i : OutboxItem) : Prop :=
  ∃ pid w, workers pid = some w ∧ w.unreported ∧ w.latest i

-- A worker has still to add the dead letter of an item.
def Buries (workers : ℕ → Option Work) (pid : ℕ) (id : String) : Prop :=
  ∃ w, workers pid = some w ∧ w.burial = some id

-- A worker reports on an item only by the latest claim of it, or when the item is not leased any more. If its failure
-- is to add a dead letter, the item is leased. And no worker is lost that has the last attempt of an item in its hands
-- or is to add a dead letter.
def Orderly (s : State) : Action → Prop
  | .complete pid _ _ => ∀ item i, s.workers pid = some (.publishing item) → s.outbox.get? item.id = some i →
    i.state = .leased → i.attemptCount = item.attemptCount
  | .write pid        => ∀ item existing error now availableAt i,
    s.workers pid = some (.writing item existing error now availableAt) → s.outbox.get? item.id = some i →
    (i.state = .leased → i.attemptCount = item.attemptCount) ∧ (existing.exhausted → i.state = .leased)
  | .crash pid        => ∀ w, s.workers pid = some w → w.burial = none ∧
    ∀ i, s.outbox.get? i.id = some i → w.latest i → i.state = .leased → i.attemptCount < i.maxAttempts
  | _                 => True

structure ItemOk (letters : List DeadLetter) (workers : ℕ → Option Work) (i : OutboxItem) : Prop where
  positive : 0 < i.maxAttempts
  attempts : i.attemptCount ≤ i.maxAttempts
  waiting  : i.state = .queued ∨ i.state = .retry → i.attemptCount < i.maxAttempts
  leased   : i.state = .leased → i.leaseExpiresAt.isSome ∧ (i.attemptCount < i.maxAttempts ∨ Holds workers i)
  unburied : i.state ≠ .deadLetter → lettersOf letters i.id = 0
  buried   : i.state = .deadLetter → (lettersOf letters i.id = 1 ∧ ∀ pid, ¬Buries workers pid i.id) ∨
    (lettersOf letters i.id = 0 ∧ ∃ pid, Buries workers pid i.id ∧ ∀ other, Buries workers other i.id → other = pid)

-- What a worker knows of its item
def WorkOk (outbox : Outbox) : Work → Prop
  | .selected _ _ _ _             => True
  | .publishing item              => ∃ i, outbox.get? item.id = some i ∧ item.attemptCount ≤ i.attemptCount
  | .completed item               => ∃ i, outbox.get? item.id = some i ∧ item.attemptCount ≤ i.attemptCount
  | .failing item _               => ∃ i, outbox.get? item.id = some i ∧ item.attemptCount ≤ i.attemptCount
  | .writing item existing _ _ _  => ∃ i, outbox.get? item.id = some i ∧ item.attemptCount ≤ existing.attemptCount ∧
    existing.attemptCount ≤ i.attemptCount ∧ existing.maxAttempts = i.maxAttempts
  | .burying item _ _             => ∃ i, outbox.get? item.id = some i ∧ item.attemptCount = i.attemptCount ∧
    i.state = .deadLetter

structure Valid (s : State) : Prop where
  items : ∀ id i, s.outbox.get? id = some i → ItemOk s.deadLetters s.workers i
  works : ∀ pid w, s.workers pid = some w → WorkOk s.outbox w
  fresh : ∀ id, s.outbox.get? id = none → lettersOf s.deadLetters id = 0

-- What a statement may make of an item
structure Evolves (i j : OutboxItem) : Prop where
  attempts : i.attemptCount ≤ j.attemptCount
  max      : j.maxAttempts = i.maxAttempts
  buried   : i.state = .deadLetter → j.attemptCount = i.attemptCount ∧ j.state = .deadLetter

theorem Evolves.refl : Evolves i i :=
  ⟨Nat.le_refl _, rfl, fun h => ⟨rfl, h⟩⟩

theorem workOk_evolves (he : ∀ id i, outbox.get? id = some i → ∃ j, outbox'.get? id = some j ∧ Evolves i j)
    (h : WorkOk outbox w) : WorkOk outbox' w := by
  cases w
  case selected => trivial
  case writing =>
    obtain ⟨i, hi, hitem, hexisting, hmax⟩ := h
    obtain ⟨j, hj, he⟩ := he _ _ hi
    exact ⟨j, hj, hitem, hexisting.trans he.attempts, hmax.trans he.max.symm⟩
  case burying =>
    obtain ⟨i, hi, hitem, hs⟩ := h
    obtain ⟨j, hj, he⟩ := he _ _ hi
    have ⟨hattempts, hs⟩ := he.buried hs
    exact ⟨j, hj, hitem.trans hattempts.symm, hs⟩
  all_goals
    obtain ⟨i, hi, hitem⟩ := h
    obtain ⟨j, hj, he⟩ := he _ _ hi
    exact ⟨j, hj, hitem.trans he.attempts⟩

-- An item that a step does not touch
theorem ItemOk.keep (h : ItemOk letters workers i) (hl : lettersOf letters' i.id = lettersOf letters i.id)
    (hh : i.state = .leased → Holds workers i → Holds workers' i)
    (hb : i.state = .deadLetter → ∀ pid, Buries workers' pid i.id ↔ Buries workers pid i.id) :
    ItemOk letters' workers' i := by
  refine ⟨h.positive, h.attempts, h.waiting, fun hs => ?_, fun hs => hl.trans (h.unburied hs), fun hs => ?_⟩
  case _ => exact ⟨(h.leased hs).left, (h.leased hs).right.imp_right (hh hs)⟩
  case _ =>
    have hburied := h.buried hs
    simp only [← hb hs, ← hl] at hburied
    exact hburied

-- A worker that holds an item goes on to hold it.
theorem holds_update (h : Holds workers i)
    (hw : ∀ w, workers pid = some w → w.unreported → w.latest i → ∃ w', work = some w' ∧ w'.unreported ∧ w'.latest i) :
    Holds (Function.update workers pid work) i := by
  obtain ⟨other, w, hother, hu, hl⟩ := h
  by_cases ho : other = pid
  case pos =>
    subst ho
    obtain ⟨w', hw', hu, hl⟩ := hw w hother hu hl
    exact ⟨other, w', by rw [Function.update_self, hw'], hu, hl⟩
  case neg => exact ⟨other, w, by rw [Function.update_of_ne ho, hother], hu, hl⟩

-- A worker that has no dead letter to add for an item
theorem buries_update (ho : ∀ w, workers pid = some w → w.burial ≠ some id)
    (hn : ∀ w, work = some w → w.burial ≠ some id) :
    Buries (Function.update workers pid work) other id ↔ Buries workers other id := by
  by_cases hp : other = pid
  case neg => simp only [Buries, Function.update_of_ne hp]
  case pos =>
    subst hp
    constructor
    case mp =>
      intro ⟨w, hw, hb⟩
      rw [Function.update_self] at hw
      exact absurd hb (hn w hw)
    case mpr =>
      intro ⟨w, hw, hb⟩
      exact absurd hb (ho w hw)

theorem works_update (h : ∀ pid w, workers pid = some w → WorkOk outbox w) (hw : ∀ w, work = some w → WorkOk outbox w) :
    ∀ other w, Function.update workers pid work other = some w → WorkOk outbox w := by
  intro other w ho
  by_cases hp : other = pid
  case pos => subst hp; rw [Function.update_self] at ho; exact hw w ho
  case neg => rw [Function.update_of_ne hp] at ho; exact h other w ho

-- A worker takes a step on its own.
theorem valid_setWorker (h : Valid s) (hw : ∀ w, work = some w → WorkOk s.outbox w)
    (hh : ∀ id i, s.outbox.get? id = some i → i.state = .leased → ¬i.attemptCount < i.maxAttempts → ∀ w,
      s.workers pid = some w → w.unreported → w.latest i → ∃ w', work = some w' ∧ w'.unreported ∧ w'.latest i)
    (ho : ∀ w, s.workers pid = some w → w.burial = none) (hn : ∀ w, work = some w → w.burial = none) :
    Valid (s.setWorker pid work) := by
  have hburies : ∀ id other, Buries (Function.update s.workers pid work) other id ↔ Buries s.workers other id := by
    intro id other
    apply buries_update
    case ho => exact fun w hw => by simp [ho w hw]
    case hn => exact fun w hw => by simp [hn w hw]
  refine ⟨fun id i hi => ?_, works_update h.works hw, h.fresh⟩
  have hitem := h.items id i hi
  by_cases hlast : i.attemptCount < i.maxAttempts
  case pos =>
    refine ⟨hitem.positive, hitem.attempts, hitem.waiting, fun hs => ⟨(hitem.leased hs).left, .inl hlast⟩,
      hitem.unburied, fun hs => ?_⟩
    have hburied := hitem.buried hs
    simp only [← hburies] at hburied
    exact hburied
  case neg =>
    exact hitem.keep rfl (fun hs h => holds_update h (hh id i hi hs hlast)) fun _ _ => hburies _ _

theorem valid_stop (h : Valid s) (hw : s.workers pid = some w) (hu : w.unreported = false) (hb : w.burial = none) :
    Valid (s.setWorker pid none) := by
  refine valid_setWorker h ?_ ?_ ?_ ?_
  case refine_1 => exact fun _ hn => by cases hn
  case refine_2 =>
    intro _ _ _ _ _ w' hw' hu'
    cases hw.symm.trans hw'
    rw [hu] at hu'
    cases hu'
  case refine_3 =>
    intro w' hw'
    cases hw.symm.trans hw'
    exact hb
  case refine_4 => exact fun _ hn => by cases hn

-- A statement that changes one item, by a worker
theorem valid_touch {p : OutboxItem → Bool} {f : OutboxItem → OutboxItem} (h : Valid s)
    (hget : ∀ b, outbox.get? b = (s.outbox.get? b).map fun i => if i.id = id && p i then f i else i)
    (he : ∀ i, p i → Evolves i (f i)) (hw : ∀ w, work = some w → WorkOk outbox w)
    (hitem : ∀ i, s.outbox.get? id = some i → p i → ItemOk s.deadLetters (Function.update s.workers pid work) (f i))
    (hother : ∀ i, s.outbox.get? i.id = some i → (i.id = id → p i = false) →
      ItemOk s.deadLetters (Function.update s.workers pid work) i) :
    Valid { s.setWorker pid work with outbox } := by
  have hevolves : ∀ id' i, s.outbox.get? id' = some i → ∃ j, outbox.get? id' = some j ∧ Evolves i j := by
    intro id' i hi
    refine ⟨if (i.id = id && p i) then f i else i, by rw [hget, hi]; rfl, ?_⟩
    split
    case isTrue ht  => exact he i (Bool.and_eq_true_iff.mp ht).right
    case isFalse    => exact .refl
  refine ⟨?items, ?works, ?fresh⟩
  case works => exact works_update (fun pid w hp => workOk_evolves hevolves (h.works pid w hp)) hw
  case fresh =>
    intro id' hn
    exact h.fresh id' (Option.map_eq_none_iff.mp ((hget id').symm.trans hn))
  case items =>
    intro id' j hj
    obtain ⟨i, hi, hj⟩ := Option.map_eq_some_iff.mp ((hget id').symm.trans hj)
    have hid : i.id = id' := Table.key_of_get? hi
    subst hj
    split
    case isTrue ht =>
      have ⟨hi', hp⟩ := Bool.and_eq_true_iff.mp ht
      have hi' : i.id = id := of_decide_eq_true hi'
      exact hitem i (by rw [← hi', hid]; exact hi) hp
    case isFalse ht =>
      refine hother i (hid ▸ hi) fun hi' => ?_
      simpa [hi'] using ht

theorem evolves_lease {worker : String} {now leaseExpiresAt : Time} (h : i.claimable now) :
    Evolves i (i.lease worker now leaseExpiresAt) :=
  ⟨Nat.le_succ _, rfl, fun hs => absurd hs (state_of_claimable h).right⟩

theorem evolves_leased (hs : i.state = .leased) (ha : j.attemptCount = i.attemptCount)
    (hm : j.maxAttempts = i.maxAttempts) : Evolves i j :=
  ⟨ha.ge, hm, fun hd => by rw [hs] at hd; cases hd⟩

theorem latest_id (h : w.latest i) : ∃ item, w.item = some item ∧ item.id = i.id := by
  obtain ⟨item, hitem, hid, _⟩ := h
  exact ⟨item, hitem, hid⟩

-- A worker with an item leaves the others alone.
theorem item_other (h : Valid s) (hi : s.outbox.get? i.id = some i) (hpid : s.workers pid = some w)
    (hne : i.state = .leased → ∀ item ∈ w.item, item.id ≠ i.id) (ho : w.burial = none)
    (hn : i.state = .deadLetter → ∀ w', work = some w' → w'.burial ≠ some i.id) :
    ItemOk s.deadLetters (Function.update s.workers pid work) i := by
  refine (h.items _ i hi).keep rfl (fun hs hh => holds_update hh fun w' hw' _ hl => ?_) fun hs _ =>
    buries_update ?_ (hn hs)
  case refine_1 =>
    cases hpid.symm.trans hw'
    obtain ⟨item, hitem, hid⟩ := latest_id hl
    exact absurd hid (hne hs item hitem)
  case refine_2 =>
    intro w' hw'
    cases hpid.symm.trans hw'
    simp [ho]

theorem valid_add {e : Enqueued} {now : Time} (h : Valid s) (hs : s.step (.add e now) = some t) : Valid t := by
  obtain ⟨outbox, hinsert, ht⟩ := Option.map_eq_some_iff.mp hs
  subst ht
  have hnone := Table.get?_none_of_insert hinsert
  refine ⟨fun id i hi => ?_, fun pid w hw => ?_, fun id hn => ?_⟩
  case refine_1 =>
    rw [Table.get?_insert hinsert] at hi
    split at hi
    case isFalse => exact h.items id i hi
    case isTrue =>
      cases hi
      have hpos : 0 < attemptsOf e.maxAttempts := attemptsOf_pos
      exact ⟨hpos, hpos.le, fun _ => hpos, fun hs => (by cases hs), fun _ => h.fresh _ hnone, fun hs => (by cases hs)⟩
  case refine_2 =>
    refine workOk_evolves (fun id i hi => ⟨i, ?_, .refl⟩) (h.works pid w hw)
    rw [Table.get?_insert hinsert, if_neg, hi]
    intro hid
    rw [← hid, hnone] at hi
    cases hi
  case refine_3 =>
    rw [Table.get?_insert hinsert] at hn
    split at hn
    case isTrue  => cases hn
    case isFalse => exact h.fresh id hn

theorem valid_take (h : Valid s) (hw : s.workers pid = some w) (hs : s.take pid w = some t) : Valid t := by
  cases w
  case selected id worker now leaseExpiresAt =>
    have hidle : Valid (s.setWorker pid none) := valid_stop h hw rfl rfl
    cases hi : s.outbox.get? id
    case none =>
      simp only [State.take, hi] at hs
      cases hs
      exact hidle
    case some i =>
      simp only [State.take, hi] at hs
      split at hs
      case isFalse => cases hs; exact hidle
      case isTrue hc =>
        cases hs
        have hid : i.id = id := Table.key_of_get? hi
        refine valid_touch h (fun _ => get?_leaseItem) (fun i hp => evolves_lease hp) ?_ ?_ ?_
        case refine_1 =>
          intro w hw
          cases hw
          refine ⟨i.lease worker now leaseExpiresAt, ?_, Nat.le_refl _⟩
          rw [get?_leaseItem, show (i.lease worker now leaseExpiresAt).id = id from hid, hi]
          simp [hid, hc]
        case refine_2 =>
          intro j hj hp
          cases hi.symm.trans hj
          have hitem := h.items id i hi
          have hattempts := attempts_of_claimable hc
          refine ⟨hitem.positive, hattempts, fun hs => (by cases hs <;> contradiction), fun _ => ⟨rfl, .inr ?_⟩,
            fun _ => ?_, fun hs => (by cases hs)⟩
          case _ => exact ⟨pid, _, Function.update_self .., rfl, _, rfl, rfl, rfl⟩
          case _ => exact hitem.unburied (state_of_claimable hc).right
        case refine_3 =>
          intro j hj _
          refine item_other h hj hw (fun _ _ hm => (by cases hm)) rfl fun _ w' hw' => ?_
          cases hw'
          simp [Work.burial]
  all_goals cases hs

theorem valid_complete {relayMessageId : Option String} {now : Time} (h : Valid s) (hw : s.workers pid = some w)
    (hs : s.complete pid relayMessageId now w = some t) : Valid t := by
  cases w
  case publishing item =>
    cases hs
    have hknown : WorkOk s.outbox (.publishing item) := h.works pid _ hw
    have hevolves : ∀ i : OutboxItem, decide (i.state = .leased) → Evolves i (i.publish relayMessageId now) :=
      fun i hp => evolves_leased (of_decide_eq_true hp) rfl rfl
    refine valid_touch h (fun _ => get?_completeItem) hevolves ?_ ?_ ?_
    case refine_1 =>
      intro w hw
      cases hw
      obtain ⟨i, hi, ha⟩ := hknown
      refine ⟨_, by rw [get?_completeItem, hi]; rfl, ?_⟩
      simp only
      split
      case isTrue  => exact ha
      case isFalse => exact ha
    case refine_2 =>
      intro i hi hp
      have hitem := h.items _ i hi
      have hl : i.state = .leased := of_decide_eq_true hp
      exact ⟨hitem.positive, hitem.attempts, fun hs => (by cases hs <;> contradiction), fun hs => (by cases hs),
        fun _ => hitem.unburied (by simp [hl]), fun hs => (by cases hs)⟩
    case refine_3 =>
      intro i hi hp
      refine item_other h hi hw (fun hl item' hitem' hid => ?_) rfl fun _ w' hw' => (by cases hw'; simp [Work.burial])
      cases hitem'
      simpa [hl] using hp hid.symm
  all_goals cases hs

theorem valid_raise {error : String} (h : Valid s) (hw : s.workers pid = some w) (hs : s.raise pid error w = some t) :
    Valid t := by
  have hknown := h.works pid w hw
  cases w
  case publishing item =>
    cases hs
    refine valid_setWorker h ?_ ?_ ?_ ?_
    case refine_1 => exact fun _ hw' => by cases hw'; exact hknown
    case refine_2 =>
      intro _ _ _ _ _ w' hw' _ hl
      cases hw.symm.trans hw'
      exact ⟨_, rfl, rfl, hl⟩
    case refine_3 => exact fun _ hw' => by cases hw.symm.trans hw'; rfl
    case refine_4 => exact fun _ hw' => by cases hw'; rfl
  case completed item =>
    cases hs
    refine valid_setWorker h ?_ ?_ ?_ ?_
    case refine_1 => exact fun _ hw' => by cases hw'; exact hknown
    case refine_2 =>
      intro _ _ _ _ _ w' hw' hu
      cases hw.symm.trans hw'
      cases hu
    case refine_3 => exact fun _ hw' => by cases hw.symm.trans hw'; rfl
    case refine_4 => exact fun _ hw' => by cases hw'; rfl
  all_goals cases hs

theorem valid_read {delay : ℤ} {clock : Clock} (h : Valid s) (hw : s.workers pid = some w)
    (hs : s.read pid delay clock w = some t) : Valid t := by
  have hknown := h.works pid w hw
  cases w
  case failing item error =>
    obtain ⟨i, hi, ha⟩ := hknown
    simp only [State.read, getItem_id, hi, Option.map_some, Option.some.injEq] at hs
    subst hs
    refine valid_setWorker h ?_ ?_ ?_ ?_
    case refine_1 => exact fun _ hw' => by cases hw'; exact ⟨i, hi, ha, Nat.le_refl _, rfl⟩
    case refine_2 =>
      intro _ _ _ _ _ w' hw' _ hl
      cases hw.symm.trans hw'
      exact ⟨_, rfl, rfl, hl⟩
    case refine_3 => exact fun _ hw' => by cases hw.symm.trans hw'; rfl
    case refine_4 => exact fun _ hw' => by cases hw'; rfl
  all_goals cases hs

theorem buried_of_burial (h : WorkOk outbox w) (hb : w.burial = some id) :
    ∃ i, outbox.get? id = some i ∧ i.state = .deadLetter := by
  cases w
  case burying =>
    cases hb
    obtain ⟨i, hi, _, hs⟩ := h
    exact ⟨i, hi, hs⟩
  all_goals cases hb

-- What the latest worker makes of its item when it fails
theorem itemOk_fail {existing : OutboxItem} {error : String} {now availableAt : Time} (h : Valid s)
    (hi : s.outbox.get? item.id = some i) (hl : i.state = .leased) (ha : existing.attemptCount = i.attemptCount)
    (hm : existing.maxAttempts = i.maxAttempts) :
    ItemOk s.deadLetters
      (Function.update s.workers pid (if existing.exhausted then some (.burying item existing error) else none))
      (i.fail existing.exhausted error now availableAt) := by
  have hitem := h.items _ i hi
  have hid : i.id = item.id := Table.key_of_get? hi
  have hletters : lettersOf s.deadLetters i.id = 0 := hitem.unburied (by simp [hl])
  have hexhausted : existing.exhausted = decide (i.maxAttempts ≤ i.attemptCount) := by
    simp only [OutboxItem.exhausted, ha, hm, if_neg hitem.positive.ne']
  cases he : existing.exhausted
  case false =>
    rw [he] at hexhausted
    have hleft : i.attemptCount < i.maxAttempts := not_le.mp (of_decide_eq_false hexhausted.symm)
    exact ⟨hitem.positive, hitem.attempts, fun _ => hleft, fun hs => (by cases hs), fun _ => hletters,
      fun hs => by cases hs⟩
  case true =>
    refine ⟨hitem.positive, hitem.attempts, fun hs => ?_, fun hs => (by cases hs), fun _ => hletters, fun _ => ?_⟩
    case refine_1 => cases hs <;> contradiction
    case refine_2 =>
      refine .inr ⟨hletters, pid, ⟨_, Function.update_self .., congrArg some hid.symm⟩, ?_⟩
      intro other ⟨w', hother, hburial⟩
      by_contra hne
      rw [Function.update_of_ne hne] at hother
      have ⟨j, hj, hs⟩ := buried_of_burial (h.works other _ hother) hburial
      have hj : s.outbox.get? item.id = some j := hid ▸ hj
      cases hi.symm.trans hj
      rw [hl] at hs
      cases hs

theorem valid_write (h : Valid s) (hok : Orderly s (.write pid)) (hw : s.workers pid = some w)
    (hs : s.write pid w = some t) : Valid t := by
  have hknown := h.works pid w hw
  cases w
  case writing item existing error now availableAt =>
    cases hs
    obtain ⟨i, hi, hitem, hexisting, hmax⟩ := hknown
    have ⟨hlatest, hleased⟩ := hok item existing error now availableAt i hw hi
    have hid : i.id = item.id := Table.key_of_get? hi
    refine valid_touch h (fun _ => get?_failItem) (fun i hp => evolves_leased (of_decide_eq_true hp) rfl rfl) ?_ ?_ ?_
    case refine_1 =>
      intro w' hw'
      split at hw'
      case isFalse => cases hw'
      case isTrue he =>
        cases hw'
        refine ⟨i.fail existing.exhausted error now availableAt, ?_, (hlatest (hleased he)).symm, ?_⟩
        case _ => rw [get?_failItem, hi]; simp [hid, hleased he]
        case _ => simp [OutboxItem.fail, he]
    case refine_2 =>
      intro j hj hp
      cases hi.symm.trans hj
      have hl : i.state = .leased := of_decide_eq_true hp
      exact itemOk_fail h hi hl (le_antisymm hexisting ((hlatest hl).trans_le hitem)) hmax
    case refine_3 =>
      intro j hj hp
      refine item_other h hj hw (fun hl item' hitem' hid' => ?_) rfl fun hs w' hw' => ?_
      case refine_1 =>
        cases hitem'
        simpa [hl] using hp hid'.symm
      case refine_2 =>
        split at hw'
        case isFalse => cases hw'
        case isTrue he =>
          cases hw'
          intro hid'
          have hid' : item.id = j.id := Option.some.inj hid'
          rw [← hid', hi] at hj
          cases hj
          rw [hleased he] at hs
          cases hs
  all_goals cases hs

theorem lettersOf_concat {error : String} {now : Time} {existing : OutboxItem} :
    lettersOf (letters ++ [existing.outboundLetter item.id error now]) id =
      lettersOf letters id + if item.id = id then 1 else 0 := by
  unfold lettersOf
  rw [List.countP_append]
  simp [OutboxItem.outboundLetter, List.countP_cons]

theorem valid_bury {now : Time} (h : Valid s) (hw : s.workers pid = some w) (hs : s.bury pid now w = some t) :
    Valid t := by
  have hknown := h.works pid w hw
  cases w
  case burying item existing error =>
    cases hs
    obtain ⟨i, hi, _, hstate⟩ := hknown
    have hother : ∀ id, item.id ≠ id → lettersOf (s.deadLetters ++ [existing.outboundLetter item.id error now]) id =
        lettersOf s.deadLetters id := by
      intro id hne
      rw [lettersOf_concat, if_neg hne, Nat.add_zero]
    refine ⟨fun id j hj => ?_, works_update h.works fun _ hn => (by cases hn), fun id hn => ?_⟩
    case refine_2 =>
      have hn : s.outbox.get? id = none := hn
      refine (hother id fun hid => ?_).trans (h.fresh id hn)
      rw [← hid, hi] at hn
      cases hn
    case refine_1 =>
      have hj : s.outbox.get? id = some j := hj
      have hjid : j.id = id := Table.key_of_get? hj
      have hitem := h.items id j hj
      by_cases hid : item.id = j.id
      case neg =>
        apply hitem.keep (hother _ hid)
        case hh =>
          intro _ hh
          refine holds_update hh fun w' hw' hu _ => ?_
          cases hw.symm.trans hw'
          cases hu
        case hb =>
          intro _ _
          apply buries_update
          case ho =>
            intro w' hw'
            cases hw.symm.trans hw'
            exact fun hid' => hid (Option.some.inj hid')
          case hn => exact fun _ hn => by cases hn
      case pos =>
        rw [hid, hjid, hj] at hi
        cases hi
        have hburies : Buries s.workers pid i.id := ⟨_, hw, congrArg some hid⟩
        refine ⟨hitem.positive, hitem.attempts, hitem.waiting, fun hs => ?_, fun hs => absurd hstate hs,
          fun _ => .inl ?_⟩
        case refine_1 =>
          rw [hstate] at hs
          cases hs
        case refine_2 =>
          cases hitem.buried hstate
          case inl hnone => exact absurd hburies (hnone.right pid)
          case inr hone =>
            obtain ⟨hzero, pid', _, hunique⟩ := hone
            refine ⟨by rw [lettersOf_concat, if_pos hid, hzero], fun other hb => ?_⟩
            obtain ⟨w', hw', hb⟩ := hb
            have hw' : Function.update s.workers pid none other = some w' := hw'
            by_cases hp : other = pid
            case pos => subst hp; rw [Function.update_self] at hw'; cases hw'
            case neg =>
              rw [Function.update_of_ne hp] at hw'
              exact hp ((hunique other ⟨w', hw', hb⟩).trans (hunique pid hburies).symm)
  all_goals cases hs

theorem valid_crash (h : Valid s) (hok : Orderly s (.crash pid)) : Valid (s.setWorker pid none) := by
  refine valid_setWorker h ?_ ?_ ?_ ?_
  case refine_1 => exact fun _ hn => by cases hn
  case refine_2 =>
    intro id i hi hl hlast w hw _ hlatest
    have hi : s.outbox.get? i.id = some i := (Table.key_of_get? hi).symm ▸ hi
    exact absurd ((hok w hw).right i hi hlatest hl) hlast
  case refine_3 => exact fun w hw => (hok w hw).left
  case refine_4 => exact fun _ hn => by cases hn

theorem valid_claim {worker : String} {seconds : ℤ} {clock : Clock} (h : Valid s)
    (hs : s.step (.claim pid worker seconds clock) = some t) : Valid t := by
  cases hn : s.workers pid
  case some => simp [State.step, hn] at hs
  case none =>
    simp only [State.step, hn, Option.some.injEq] at hs
    subst hs
    refine valid_setWorker h ?_ ?_ ?_ ?_
    case refine_1 =>
      intro w hw
      obtain ⟨i, _, hw⟩ := Option.map_eq_some_iff.mp hw
      subst hw
      trivial
    case refine_2 => exact fun _ _ _ _ _ w hw => by rw [hn] at hw; cases hw
    case refine_3 => exact fun w hw => by rw [hn] at hw; cases hw
    case refine_4 =>
      intro w hw
      obtain ⟨i, _, hw⟩ := Option.map_eq_some_iff.mp hw
      subst hw
      rfl

theorem valid_finish (h : Valid s) (hw : s.workers pid = some w) (hs : s.finish pid w = some t) : Valid t := by
  cases w
  case completed item =>
    cases hs
    exact valid_stop h hw rfl rfl
  all_goals cases hs

theorem valid_step (h : Valid s) (hok : Orderly s action) (hs : s.step action = some t) : Valid t := by
  cases action
  case add   => exact valid_add h hs
  case claim => exact valid_claim h hs
  case crash => cases hs; exact valid_crash h hok
  all_goals obtain ⟨w, hw, hs⟩ := Option.bind_eq_some_iff.mp hs
  case take     => exact valid_take h hw hs
  case complete => exact valid_complete h hw hs
  case finish   => exact valid_finish h hw hs
  case raise    => exact valid_raise h hw hs
  case read     => exact valid_read h hw hs
  case write    => exact valid_write h hok hw hs
  case bury     => exact valid_bury h hw hs

theorem valid_reachable (h : (system.restrict Orderly).Reachable s) : Valid s := by
  apply Transition.Reachable.invariant ?init ?step h
  case init =>
    intro s hs
    cases hs
    exact ⟨fun _ _ hi => (by cases hi), fun _ _ hw => (by cases hw), fun _ _ => rfl⟩
  case step => exact fun s action t h hs => valid_step h hs.left hs.right

end Relay
