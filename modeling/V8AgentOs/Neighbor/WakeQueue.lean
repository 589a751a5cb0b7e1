import Mathlib.Data.String.Basic
import V8AgentOs.Lib.Table
import V8AgentOs.Lib.Transition
import V8AgentOs.Neighbor.Tasks

-- core/database.py: the queue of the wakes, with `claim_next_network_neighbor_wake_item` and the reports on what it
-- hands out. Times are texts of one format, which SQL compares as texts.
namespace Neighbor.WakeQueue

open Python (strip)

inductive Phase
  | queued
  | leased
  | retry
  | completed
  | failed
  deriving DecidableEq

-- A row of `network_neighbor_wake_queue`. The items are named by the engine.
structure Item where
  id             : String
  named          : strip id = id ∧ id ≠ ""
  linkId         : String
  messageId      : String
  runId          : String
  state          : Phase := .queued
  attemptCount   : ℕ := 0
  maxAttempts    : ℕ
  availableAt    : Option String
  claimedBy      : Option String := none
  leaseExpiresAt : Option String := none
  lastError      : Option String := none
  payload        : Wake
  createdAt      : String
  updatedAt      : String
  completedAt    : Option String := none
  failedAt       : Option String := none

abbrev Queue := Table Item.id

-- The arguments of `add_network_neighbor_wake_queue_item`
structure Added where
  id          : String
  named       : strip id = id ∧ id ≠ ""
  linkId      : String
  messageId   : String
  runId       : String
  payload     : Wake := {}
  maxAttempts : ℤ := 3

-- `max(1, min(int(max_attempts or 3), 10))`
def attemptsOf (maxAttempts : ℤ) : ℕ :=
  (max 1 (min (if maxAttempts = 0 then 3 else maxAttempts) 10)).toNat

def Added.item (a : Added) (now : String) : Item where
  id          := a.id
  named       := a.named
  linkId      := a.linkId
  messageId   := a.messageId
  runId       := a.runId
  maxAttempts := attemptsOf a.maxAttempts
  availableAt := some now
  payload     := a.payload
  createdAt   := now
  updatedAt   := now

namespace Item

variable (i : Item)

-- The lease of an item has expired.
def expired (now : String) : Bool :=
  i.state = .leased && i.leaseExpiresAt.elim false (· ≤ now)

-- Whether a claim may take an item
def claimable (now : String) : Bool :=
  i.attemptCount < i.maxAttempts && (i.state = .queued || i.state = .retry) && i.availableAt.elim true (· ≤ now)

-- An expired execution is never run again.
def interrupt (now : String) : Item :=
  { i with
    state          := .failed
    lastError      := some "execution_interrupted: outcome requires review before retry"
    failedAt       := some now
    updatedAt      := now
    leaseExpiresAt := none }

def lease (worker now leaseExpiresAt : String) : Item :=
  { i with
    state          := .leased
    attemptCount   := i.attemptCount + 1
    claimedBy      := some worker
    leaseExpiresAt := some leaseExpiresAt
    updatedAt      := now }

def complete (now : String) : Item :=
  { i with
    state          := .completed
    completedAt    := some now
    availableAt    := none
    leaseExpiresAt := none
    updatedAt      := now }

-- `int(attemptCount or 0) >= int(maxAttempts or 1)`
def exhausted : Bool :=
  (if i.maxAttempts = 0 then 1 else i.maxAttempts) ≤ i.attemptCount

-- What `fail_network_neighbor_wake_item` makes of an item, with the state that it has decided on
def fail (exhausted : Bool) (error now availableAt : String) : Item :=
  { i with
    state          := if exhausted then .failed else .retry
    availableAt    := if exhausted then none else some availableAt
    leaseExpiresAt := none
    lastError      := some (Python.take 1000 error)
    failedAt       := if exhausted then some now else i.failedAt
    updatedAt      := now }

end Item

-- The assignments and the tasks that the sweep changes
structure Work where
  assignments : List Assignment
  tasks       : List Task

namespace Work

variable (w : Work)

def interruptAssignment (id now : String) : Work :=
  { w with assignments := w.assignments.map fun a => if a.id = id ∧ a.resultId = none then { a with
      status    := "failed"
      error     := some "execution_interrupted: inspect effects before retry"
      updatedAt := now } else a }

def statuses (taskId : String) : List String :=
  (w.assignments.filter (·.taskId = taskId)).map (·.status)

-- `states and states <= {…}`
def finished (taskId : String) : Bool :=
  !(w.statuses taskId).isEmpty && (w.statuses taskId).all Database.finalStatuses.contains

def finalStatus (taskId : String) : String :=
  if (w.statuses taskId).all (· = "completed") then "completed"
  else if (w.statuses taskId).contains "completed" then "degraded"
  else "failed"

def finishTask (id now : String) : Work :=
  if w.finished id then
    { w with tasks := w.tasks.map fun t => if t.id = id then { t with
        status      := w.finalStatus id
        updatedAt   := now
        completedAt := some now } else t }
  else w

-- What an expired item makes of its assignment and its task
def interrupt (now : String) (i : Item) : Work :=
  if i.payload.kind = some "neighbor_task_assignment" then
    (w.interruptAssignment ((i.payload.assignment.map (·.id)).getD "") now).finishTask
      ((i.payload.task.map (·.id)).getD "") now
  else w

-- The loop over the expired items
def sweep (now : String) (expired : List Item) : Work :=
  expired.foldl (fun w i => w.interrupt now i) w

end Work

-- The `UPDATE` of the expired items
def sweepItems (queue : Queue) (now : String) : Queue :=
  queue.update (·.expired now) (·.interrupt now)

-- The item that a claim finds, the oldest first
def nextItem (queue : Queue) (now : String) : Option Item :=
  Rows.oldest (·.createdAt) (queue.rows.filter (·.claimable now))

def leaseItem (queue : Queue) (id worker now leaseExpiresAt : String) : Queue :=
  queue.update (fun i => i.id = id && i.claimable now) (·.lease worker now leaseExpiresAt)

-- `complete_network_neighbor_wake_item`
def completeItem (queue : Queue) (id now : String) : Queue :=
  queue.update (fun i => i.id = id && i.state = .leased) (·.complete now)

-- The `UPDATE` of `fail_network_neighbor_wake_item`
def failItem (queue : Queue) (id : String) (exhausted : Bool) (error now availableAt : String) : Queue :=
  queue.update (fun i => i.id = id && i.state = .leased) (·.fail exhausted error now availableAt)

-- `get_network_neighbor_wake_queue_item`
def getItem (queue : Queue) (id : String) : Option Item :=
  if strip id = "" then none else queue.get? (strip id)

-- A call of `fail_network_neighbor_wake_item` that has read its item
structure Failing where
  id          : String
  existing    : Item
  error       : String
  now         : String
  availableAt : String

structure State where
  queue : Queue
  work  : Work
  fails : ℕ → Option Failing
  clock : String

inductive Call
  | add (a : Added)
  | claim (worker leaseExpiresAt : String)
  | complete (id : String)
  -- `fail_network_neighbor_wake_item`: the row that is read, and the `UPDATE`
  | read (pid : ℕ) (id error availableAt : String)
  | write (pid : ℕ)
  | crash (pid : ℕ)
  -- The rest of the engine writes assignments and tasks.
  | execute (work : Work)

-- A call at a time, with the item that it has handed out and the one that it has put back
structure Event where
  call   : Call
  now    : String
  handed : Option String
  failed : Option String

namespace State

variable (s : State)

def swept (now : String) : State :=
  { s with
    queue := sweepItems s.queue now
    work  := s.work.sweep now (s.queue.rows.filter (·.expired now)) }

-- `claim_next_network_neighbor_wake_item`
def claim (worker leaseExpiresAt now : String) : State :=
  match nextItem (s.swept now).queue now with
  | some item => { s.swept now with queue := leaseItem (s.swept now).queue item.id worker now leaseExpiresAt }
  | none      => s.swept now

def setFail (pid : ℕ) (failing : Option Failing) : State :=
  { s with fails := Function.update s.fails pid failing }

def write (pid : ℕ) : State :=
  match s.fails pid with
  | some f => { s.setFail pid none with
      queue := failItem s.queue f.id f.existing.exhausted f.error f.now f.availableAt }
  | none   => s

def run (now : String) : Call → Option State
  | .add a                          => (s.queue.insert? (a.item now)).map fun queue => { s with queue }
  | .claim worker leaseExpiresAt    => some (s.claim worker leaseExpiresAt now)
  | .complete id                    => some { s with queue := completeItem s.queue id now }
  | .read pid id error availableAt  => some (s.setFail pid ((getItem s.queue id).map fun existing =>
    ⟨id, existing, error, now, availableAt⟩))
  | .write pid                      => some (s.write pid)
  | .crash pid                      => some (s.setFail pid none)
  | .execute work                   => some { s with work }

-- The item that a call hands out
def handed (now : String) : Call → Option String
  | .claim _ _ => (nextItem (s.swept now).queue now).map (·.id)
  | _          => none

-- The item whose failure a call records
def failed : Call → Option String
  | .write pid => (s.fails pid).bind fun f => ((s.queue.get? f.id).filter (·.state = .leased)).map (·.id)
  | _          => none

end State

-- The clock does not go back.
def system : Transition State Event where
  init s     := s.queue = .empty ∧ ∀ pid, s.fails pid = none
  step s e t := s.clock ≤ e.now ∧ e.handed = s.handed e.now e.call ∧ e.failed = s.failed e.call ∧
    ∃ t', s.run e.now e.call = some t' ∧ t = { t' with clock := e.now }

variable {queue : Queue} {id b worker now later error : String} {i : Item} {exhausted : Bool}

theorem get?_sweepItems : (sweepItems queue now).get? b =
    (queue.get? b).map fun i => if i.expired now then i.interrupt now else i :=
  Table.get?_update

theorem get?_leaseItem : (leaseItem queue id worker now later).get? b =
    (queue.get? b).map fun i => if i.id = id && i.claimable now then i.lease worker now later else i :=
  Table.get?_update

theorem get?_completeItem : (completeItem queue id now).get? b =
    (queue.get? b).map fun i => if i.id = id && i.state = .leased then i.complete now else i :=
  Table.get?_update

theorem get?_failItem : (failItem queue id exhausted error now later).get? b =
    (queue.get? b).map fun i => if i.id = id && i.state = .leased then i.fail exhausted error now later else i :=
  Table.get?_update

theorem attemptsOf_pos {n : ℤ} : 0 < attemptsOf n := by
  unfold attemptsOf
  omega

theorem claimable_of_nextItem (h : nextItem queue now = some i) : queue.get? i.id = some i ∧ i.claimable now := by
  have hmem := Rows.mem_oldest h
  exact ⟨Table.get?_of_mem (List.mem_of_mem_filter hmem), (List.mem_filter.mp hmem).right⟩

theorem nextItem_of_claimable (hi : queue.get? id = some i) (hc : i.claimable now) :
    ∃ next, nextItem queue now = some next ∧ next.createdAt ≤ i.createdAt :=
  Rows.exists_oldest (List.mem_filter.mpr ⟨Table.mem_of_get? hi, hc⟩)

theorem claimable_iff : i.claimable now ↔ i.attemptCount < i.maxAttempts ∧ (i.state = .queued ∨ i.state = .retry) ∧
    i.availableAt.elim true (· ≤ now) := by
  simp [Item.claimable, and_assoc]

theorem expired_leased (h : i.expired now) : i.state = .leased :=
  of_decide_eq_true (Bool.and_eq_true_iff.mp h).left

end Neighbor.WakeQueue
