import V8AgentOs.Automation.Receipts

-- core/database.py: the outbox of the relay, and the dead letters. The leases of its items are given by
-- `claim_next_network_relay_outbox_item`.
namespace Relay

open Python (Dict Json strip)
open Automation (Clock)
open Runs (Time)

inductive OutboxState
  | queued
  | leased
  | retry
  | published
  | deadLetter
  deriving DecidableEq

-- The items are named by the engine.
structure OutboxItem where
  id             : String
  named          : strip id = id ∧ id ≠ ""
  targetPeerId   : String
  linkId         : Option String
  localMessageId : Option String
  envelope       : Dict
  state          : OutboxState := .queued
  attemptCount   : ℕ := 0
  maxAttempts    : ℕ
  availableAt    : Option Time
  claimedBy      : Option String := none
  leaseExpiresAt : Option Time := none
  relayMessageId : Option String := none
  lastError      : Option String := none
  createdAt      : Time
  updatedAt      : Time
  publishedAt    : Option Time := none
  failedAt       : Option Time := none

structure DeadLetter where
  direction      : String
  peerId         : String
  relayMessageId : Option String
  outboxId       : Option String
  envelope       : Dict
  reason         : String
  metadata       : Dict
  createdAt      : Time

abbrev Outbox := Table OutboxItem.id

-- The columns of a new item that its caller gives
structure Enqueued where
  id             : String
  named          : strip id = id ∧ id ≠ ""
  targetPeerId   : String
  linkId         : Option String := none
  localMessageId : Option String := none
  envelope       : Dict := []
  maxAttempts    : ℤ := 5

-- `max(1, min(int(max_attempts or 5), 20))`
def attemptsOf (maxAttempts : ℤ) : ℕ :=
  (max 1 (min (if maxAttempts = 0 then 5 else maxAttempts) 20)).toNat

-- The row that `add_network_relay_outbox_item` inserts
def Enqueued.item (e : Enqueued) (now : Time) : OutboxItem where
  id             := e.id
  named          := e.named
  targetPeerId   := e.targetPeerId
  linkId         := e.linkId
  localMessageId := e.localMessageId
  envelope       := e.envelope
  maxAttempts    := attemptsOf e.maxAttempts
  availableAt    := some now
  createdAt      := now
  updatedAt      := now

-- `time IS NOT NULL AND time <= now`
def past (time : Option Time) (now : Time) : Bool :=
  time.elim false (· ≤ now)

namespace OutboxItem

variable (i : OutboxItem)

-- Whether a claim may take an item
def claimable (now : Time) : Bool :=
  i.attemptCount < i.maxAttempts &&
    ((i.state = .queued || i.state = .retry) && i.availableAt.elim true (· ≤ now) ||
      i.state = .leased && past i.leaseExpiresAt now)

def lease (worker : String) (now leaseExpiresAt : Time) : OutboxItem :=
  { i with
    state          := .leased
    attemptCount   := i.attemptCount + 1
    claimedBy      := some worker
    leaseExpiresAt := some leaseExpiresAt
    updatedAt      := now }

def publish (relayMessageId : Option String) (now : Time) : OutboxItem :=
  { i with
    state          := .published
    relayMessageId := relayMessageId.or i.relayMessageId
    publishedAt    := some now
    availableAt    := none
    leaseExpiresAt := none
    updatedAt      := now }

-- `int(attemptCount or 0) >= int(maxAttempts or 1)`
def exhausted : Bool :=
  (if i.maxAttempts = 0 then 1 else i.maxAttempts) ≤ i.attemptCount

-- What `fail_network_relay_outbox_item` makes of an item, with the state that it has decided on
def fail (exhausted : Bool) (error : String) (now availableAt : Time) : OutboxItem :=
  { i with
    state          := if exhausted then .deadLetter else .retry
    availableAt    := if exhausted then none else some availableAt
    leaseExpiresAt := none
    lastError      := some (Python.take 1000 error)
    failedAt       := if exhausted then some now else i.failedAt
    updatedAt      := now }

end OutboxItem

-- `get_network_relay_outbox_item`
def getItem (outbox : Outbox) (id : String) : Option OutboxItem :=
  if strip id = "" then none else outbox.get? (strip id)

-- The item that the `SELECT` of a claim finds, the oldest first
def nextItem (outbox : Outbox) (now : Time) : Option OutboxItem :=
  Rows.oldest (·.createdAt) (outbox.rows.filter (·.claimable now))

-- The `UPDATE` of a claim
def leaseItem (outbox : Outbox) (id worker : String) (now leaseExpiresAt : Time) : Outbox :=
  outbox.update (fun i => i.id = id && i.claimable now) (·.lease worker now leaseExpiresAt)

-- `complete_network_relay_outbox_item`
def completeItem (outbox : Outbox) (id : String) (relayMessageId : Option String) (now : Time) : Outbox :=
  outbox.update (fun i => i.id = id && i.state = .leased) (·.publish relayMessageId now)

-- The `UPDATE` of `fail_network_relay_outbox_item`
def failItem (outbox : Outbox) (id : String) (exhausted : Bool) (error : String) (now availableAt : Time) : Outbox :=
  outbox.update (fun i => i.id = id && i.state = .leased) (·.fail exhausted error now availableAt)

-- What `fail_network_relay_outbox_item` buries of an item that it has read
def OutboxItem.outboundLetter (i : OutboxItem) (id error : String) (now : Time) : DeadLetter where
  direction      := "outbound"
  peerId         := i.targetPeerId
  relayMessageId := none
  outboxId       := some id
  envelope       := i.envelope
  reason         := Python.take 1000 (Python.take 1000 error)
  metadata       := [("attemptCount", .int i.attemptCount), ("maxAttempts", .int i.maxAttempts)]
  createdAt      := now

-- `max(30, int(lease_seconds or 180))`
def leaseSeconds (seconds : ℤ) : ℤ :=
  max 30 (if seconds = 0 then 180 else seconds)

-- `max(1, int(retry_delay_seconds or 30))`
def retryDelay (seconds : ℤ) : ℤ :=
  max 1 (if seconds = 0 then 30 else seconds)

variable {outbox : Outbox} {id worker error : String} {now later : Time} {i : OutboxItem}
  {relayMessageId : Option String} {exhausted : Bool}

theorem get?_leaseItem {b : String} : (leaseItem outbox id worker now later).get? b =
    (outbox.get? b).map fun i => if i.id = id && i.claimable now then i.lease worker now later else i :=
  Table.get?_update

theorem get?_completeItem {b : String} : (completeItem outbox id relayMessageId now).get? b =
    (outbox.get? b).map fun i => if i.id = id && i.state = .leased then i.publish relayMessageId now else i :=
  Table.get?_update

theorem get?_failItem {b : String} : (failItem outbox id exhausted error now later).get? b =
    (outbox.get? b).map fun i => if i.id = id && i.state = .leased then i.fail exhausted error now later else i :=
  Table.get?_update

theorem getItem_id : getItem outbox i.id = outbox.get? i.id := by
  unfold getItem
  rw [i.named.left, if_neg i.named.right]

theorem attemptsOf_pos {n : ℤ} : 0 < attemptsOf n := by
  unfold attemptsOf
  omega

theorem claimable_of_nextItem (h : nextItem outbox now = some i) : outbox.get? i.id = some i ∧ i.claimable now := by
  have hmem := Rows.mem_oldest h
  exact ⟨Table.get?_of_mem (List.mem_of_mem_filter hmem), (List.mem_filter.mp hmem).right⟩

theorem nextItem_of_claimable (hi : outbox.get? id = some i) (hc : i.claimable now) :
    ∃ next, nextItem outbox now = some next ∧ next.createdAt ≤ i.createdAt :=
  Rows.exists_oldest (List.mem_filter.mpr ⟨Table.mem_of_get? hi, hc⟩)

-- An item with attempts left can be claimed when its time has come.
theorem claimable_of_available (ha : i.attemptCount < i.maxAttempts) (hs : i.state = .queued ∨ i.state = .retry) :
    ∃ time, ∀ now, time ≤ now → i.claimable now := by
  refine ⟨i.availableAt.getD 0, fun now hnow => ?_⟩
  have hstate : (i.state = .queued || i.state = .retry) = true := by simpa using hs
  cases htime : i.availableAt
  case none => simp [OutboxItem.claimable, ha, hstate, htime]
  case some time =>
    rw [htime] at hnow
    have hnow : time ≤ now := hnow
    simp [OutboxItem.claimable, ha, hstate, htime, hnow]

theorem claimable_of_expired (ha : i.attemptCount < i.maxAttempts) (hs : i.state = .leased)
    (hl : i.leaseExpiresAt.isSome) : ∃ time, ∀ now, time ≤ now → i.claimable now := by
  obtain ⟨time, hl⟩ := Option.isSome_iff_exists.mp hl
  refine ⟨time, fun now hnow => ?_⟩
  simp [OutboxItem.claimable, ha, hs, past, hl, hnow]

theorem attempts_of_claimable (h : i.claimable now) : i.attemptCount < i.maxAttempts := by
  simp only [OutboxItem.claimable, Bool.and_eq_true, decide_eq_true_eq] at h
  exact h.left

theorem state_of_claimable (h : i.claimable now) : i.state ≠ .published ∧ i.state ≠ .deadLetter := by
  cases hs : i.state
  case published  => simp [OutboxItem.claimable, hs] at h
  case deadLetter => simp [OutboxItem.claimable, hs] at h
  case queued     => simp
  case leased     => simp
  case retry      => simp

end Relay
