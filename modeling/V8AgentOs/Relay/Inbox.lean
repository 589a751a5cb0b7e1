import Mathlib.Logic.Function.Basic
import V8AgentOs.Lib.Transition
import V8AgentOs.Python.Json
import V8AgentOs.Relay.Outbox

-- runtimes/network_supervisor/relay_templates/cloudflare_worker.mjs: the mailbox that a `V8RelayRoom` keeps for a peer.
namespace Relay

open Python (Dict Json)

inductive MessageState
  | queued
  | delivered
  | acked
  | expired
  | deadLetter
  deriving DecidableEq

-- Times are those of `Date.now()`.
structure Record where
  relayMessageId : String
  cursor         : ℕ
  state          : MessageState := .queued
  envelope       : Dict
  createdAt      : ℕ
  expiresAt      : ℕ
  deliveredAt    : Option ℕ := none
  ackedAt        : Option ℕ := none

-- What the storage has under `seq`, `msg:…` and `msgid:…`. `reported` are the records that `sendDeadLetter` has handed
-- to the retry queue or, where none is bound, has stored.
structure Room where
  seq      : ℕ
  msg      : ℕ → Option Record
  msgid    : String → Option ℕ
  reported : List Record

-- The condition of an `if`
def jsTruthy : Json → Bool
  | .list _ => true
  | .dict _ => true
  | value   => value.truthy

-- `Math.max(60, Number(body.ttlSeconds || DEFAULT_TTL_SECONDS)) * 1000`
def ttlMillis (ttlSeconds : ℤ) : ℕ :=
  (max 60 (if ttlSeconds = 0 then 300 else ttlSeconds)).toNat * 1000

def Record.expire (record : Record) : Record :=
  { record with state := .expired }

def Record.deliver (record : Record) (now : ℕ) : Record :=
  { record with state := .delivered, deliveredAt := record.deliveredAt.or (some now) }

def Record.ack (record : Record) (now : ℕ) : Record :=
  { record with state := .acked, ackedAt := some now }

-- The variables of `mailbox`
structure Page where
  cursor     : ℕ
  limit      : ℕ
  seq        : ℕ
  index      : ℕ
  items      : List Record
  nextCursor : ℕ

-- The condition of the loop
def Page.continues (page : Page) : Bool :=
  page.index ≤ page.seq && page.items.length < page.limit

def Page.skip (page : Page) : Page :=
  { page with index := page.index + 1 }

def Page.pass (page : Page) : Page :=
  { page.skip with nextCursor := page.index }

namespace Room

variable (room : Room)

def put (index : ℕ) (record : Record) : Room :=
  { room with msg := Function.update room.msg index (some record) }

-- The record of a publication. `relayMessageId` is what `crypto.randomUUID()` gives.
def record (envelope : Dict) (ttlSeconds : ℤ) (relayMessageId : String) (now : ℕ) : Record where
  relayMessageId := relayMessageId
  cursor         := room.seq + 1
  envelope       := envelope
  createdAt      := now
  expiresAt      := now + ttlMillis ttlSeconds

-- `publish`. After the body of the request it awaits nothing but the storage.
def publish (envelope : Dict) (ttlSeconds : ℤ) (relayMessageId : String) (now : ℕ) : Room :=
  if jsTruthy (envelope.get "messageId") || jsTruthy (envelope.get "message_id") then
    { room.put (room.seq + 1) (room.record envelope ttlSeconds relayMessageId now) with
      msgid := Function.update room.msgid relayMessageId (some (room.seq + 1))
      seq   := room.seq + 1 }
  else room

-- No record has the index 0 or less, and a cursor that is no integer leads to no index of a record.
def mailbox (cursor : Option ℤ) (limit : ℤ) : Page :=
  let cursor := cursor.elim room.seq Int.toNat
  { cursor
    limit      := (max 1 (min limit 200)).toNat
    seq        := room.seq
    index      := cursor + 1
    items      := []
    nextCursor := cursor }

-- An iteration of the loop, up to `sendDeadLetter` if the record has expired
def visit (page : Page) (now : ℕ) : Room × Page × Option Record :=
  match room.msg page.index with
  | none        => (room, page.skip, none)
  | some record =>
    if record.state = .acked || record.state = .deadLetter then (room, page.pass, none)
    else if record.expiresAt ≤ now then (room.put page.index record.expire, page, some record.expire)
    else (room.put page.index (record.deliver now), { page.pass with items := page.items ++ [record.deliver now] },
      none)

def sendDeadLetter (record : Record) : Room :=
  { room with reported := room.reported ++ [record] }

def ackMessage (now : ℕ) (room : Room) (relayMessageId : String) : Room :=
  match room.msgid relayMessageId with
  | none     => room
  | some seq => match room.msg seq with
    | none        => room
    | some record => room.put seq (record.ack now)

-- `ack`, which awaits nothing but the storage, either
def ack (messageIds : List String) (now : ℕ) : Room :=
  messageIds.foldl (ackMessage now) room

end Room
end Relay

-- runtimes/network_supervisor/relay_runtime.py: `process_inbox_once`, by one receiver, and the requests at its room.
namespace Relay.Inbox

open Python (Dict Json)
open Runs (Time)

-- Where a request for the mailbox is: in its loop, or while it sends a record that has expired
inductive Request
  | scanning (page : Page)
  | reporting (page : Page) (record : Record)

-- Where `_process_inbox_once` is
inductive Receiver
  | idle
  | requesting
  | pulling (pid : ℕ)
  | handling (items : List Record) (ackIds : List String)
  | handled (item : Record) (items : List Record) (ackIds : List String)
  | buried (item : Record) (items : List Record) (ackIds : List String)
  | acking (ackIds : List String)
  | awaiting (ackIds : List String)

-- `acks` are the requests to the relay that are under way. A cursor that was not stored yet is 0.
structure State where
  room        : Room
  requests    : ℕ → Option Request
  acks        : List (List String)
  cursor      : ℕ
  deadLetters : List DeadLetter
  receiver    : Receiver
  clock       : ℕ

inductive Action
  | publish (envelope : Dict) (ttlSeconds : ℤ) (relayMessageId : String)
  -- A request for the mailbox by anyone, with its iterations
  | request (pid : ℕ) (cursor : Option ℤ) (limit : ℤ)
  | visit (pid : ℕ)
  | report (pid : ℕ)
  | reply (pid : ℕ)
  -- `sendDeadLetter` fails, or the reply is lost.
  | lose (pid : ℕ)
  -- An acknowledgement reaches the relay, or it does not.
  | ack (n : ℕ)
  | drop (n : ℕ)
  -- The receiver reads its cursor, and its request reaches the relay.
  | poll
  | pull (pid : ℕ)
  -- How the handling of an item ends, and the writing of the cursor
  | handle
  | bury (peerId reason : String) (now : Time)
  | retry
  | advance
  -- The receiver is through with the page, and acknowledges.
  | finish
  | send
  | answered (failure : Option (String × String)) (now : Time)
  -- An exception leaves `_process_inbox_once`, or the receiver crashes.
  | leave

-- An action at its time, with the message whose handling it ends
structure Event where
  action  : Action
  now     : ℕ
  handled : Option ℕ

-- The dead letter of an item that cannot be handled
def inboundLetter (item : Record) (peerId reason : String) (now : Time) : DeadLetter where
  direction      := "inbound"
  peerId         := peerId
  relayMessageId := some item.relayMessageId
  outboxId       := none
  envelope       := item.envelope
  reason         := Python.take 1000 reason
  metadata       := [("cursor", .str (toString item.cursor))]
  createdAt      := now

def ackLetter (peerId failure : String) (ackIds : List String) (now : Time) : DeadLetter where
  direction      := "ack"
  peerId         := peerId
  relayMessageId := none
  outboxId       := none
  envelope       := []
  reason         := Python.take 1000 ("Relay ACK failed: " ++ failure)
  metadata       := [("messageIds", .list (ackIds.map .str))]
  createdAt      := now

namespace State

variable (s : State)

def setRequest (pid : ℕ) (request : Option Request) : State :=
  { s with requests := Function.update s.requests pid request }

def openRequest (pid : ℕ) (cursor : Option ℤ) (limit : ℤ) : Option State :=
  match s.requests pid with
  | none   => some (s.setRequest pid (some (.scanning (s.room.mailbox cursor limit))))
  | some _ => none

-- An iteration of the loop. Other requests may run before the next one, whether or not it awaits more than the storage.
def visit (pid : ℕ) (now : ℕ) : Request → Option State
  | .scanning page =>
    if page.continues then
      let (room, page, record) := s.room.visit page now
      some { s.setRequest pid (some (record.elim (.scanning page) (.reporting page))) with room }
    else none
  | .reporting _ _ => none

def report (pid : ℕ) : Request → Option State
  | .scanning _            => none
  | .reporting page record => some { s.setRequest pid (some (.scanning page.pass)) with
    room := s.room.sendDeadLetter record }

-- What the receiver makes of the end of a request
def received (pid : ℕ) (items : List Record) : Receiver :=
  match s.receiver with
  | .pulling p => if p = pid then (if items = [] then .idle else .handling items []) else .pulling p
  | receiver   => receiver

def reply (pid : ℕ) : Request → Option State
  | .scanning page =>
    if page.continues then none
    else some { s.setRequest pid none with receiver := s.received pid page.items }
  | .reporting _ _ => none

-- What the receiver has been given is handled, is not, or cannot be.
def handle : Receiver → Option Receiver
  | .handling (item :: items) ackIds => some (.handled item items (ackIds ++ [item.relayMessageId]))
  | _                                => none

def bury (peerId reason : String) (now : Time) : Receiver → Option State
  | .handling (item :: items) ackIds => some { s with
    receiver    := .buried item items (ackIds ++ [item.relayMessageId])
    deadLetters := s.deadLetters ++ [inboundLetter item peerId reason now] }
  | _ => none

-- `break`, after an exception of the handling or of the database
def retry : Receiver → Option Receiver
  | .handling (_ :: _) ackIds => some (.acking ackIds)
  | .handled _ _ ackIds       => some (.acking ackIds)
  | _                         => none

def advance : Receiver → Option State
  | .handled item items ackIds => some { s with receiver := .handling items ackIds, cursor := item.cursor }
  | .buried item items ackIds  => some { s with receiver := .handling items ackIds, cursor := item.cursor }
  | _                          => none

def finish : Receiver → Option Receiver
  | .handling [] ackIds => some (.acking ackIds)
  | _                   => none

def send : Receiver → Option State
  | .acking ackIds => if ackIds = [] then some { s with receiver := .idle }
    else some { s with receiver := .awaiting ackIds, acks := s.acks ++ [ackIds] }
  | _ => none

def answered (failure : Option (String × String)) (now : Time) : Receiver → Option State
  | .awaiting ackIds => some { s with
    receiver    := .idle
    deadLetters := s.deadLetters ++ (failure.map fun f => ackLetter f.1 f.2 ackIds now).toList }
  | _ => none

def poll : Receiver → Option Receiver
  | .idle => some .requesting
  | _     => none

def pull (pid : ℕ) : Receiver → Option State
  | .requesting => (s.openRequest pid (some s.cursor) 50).map fun t => { t with receiver := .pulling pid }
  | _           => none

def run (now : ℕ) : Action → Option State
  -- `crypto.randomUUID()` is new.
  | .publish envelope ttlSeconds id => match s.room.msgid id with
    | none   => some { s with room := s.room.publish envelope ttlSeconds id now }
    | some _ => none
  | .request pid cursor limit       => s.openRequest pid cursor limit
  | .visit pid                      => (s.requests pid).bind (s.visit pid now)
  | .report pid                     => (s.requests pid).bind (s.report pid)
  | .reply pid                      => (s.requests pid).bind (s.reply pid)
  | .lose pid                       => some { s.setRequest pid none with receiver := s.received pid [] }
  | .ack n                          => s.acks[n]?.map fun ids => { s with
    room := s.room.ack ids now, acks := s.acks.eraseIdx n }
  | .drop n                         => some { s with acks := s.acks.eraseIdx n }
  | .poll                           => (poll s.receiver).map fun receiver => { s with receiver }
  | .pull pid                       => s.pull pid s.receiver
  | .handle                         => (handle s.receiver).map fun receiver => { s with receiver }
  | .bury peerId reason time        => s.bury peerId reason time s.receiver
  | .retry                          => (retry s.receiver).map fun receiver => { s with receiver }
  | .advance                        => s.advance s.receiver
  | .finish                         => (finish s.receiver).map fun receiver => { s with receiver }
  | .send                           => s.send s.receiver
  | .answered failure time          => s.answered failure time s.receiver
  | .leave                          => some { s with receiver := .idle }

def handled : Action → Option ℕ
  | .handle => match s.receiver with
    | .handling (item :: _) _ => some item.cursor
    | _                       => none
  | _       => none

end State

-- The clock does not go back.
def system : Transition State Event where
  init s     := s.room.seq = 0 ∧ (∀ n, s.room.msg n = none) ∧ (∀ id, s.room.msgid id = none) ∧
    (∀ pid, s.requests pid = none) ∧ s.acks = [] ∧ s.cursor = 0 ∧ s.deadLetters = [] ∧ s.receiver = .idle
  step s e t := s.clock ≤ e.now ∧ e.handled = s.handled e.action ∧
    ∃ t', s.run e.now e.action = some t' ∧ t = { t' with clock := e.now }

end Relay.Inbox
