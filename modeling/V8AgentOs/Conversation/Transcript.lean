import V8AgentOs.Python.Dict
import V8AgentOs.Python.Equality
import V8AgentOs.Python.Text
import V8AgentOs.Lib.Table
import Mathlib.Data.List.Sort
import Mathlib.Logic.Function.Basic

-- core/conversation_schema.py, core/chat_transcript_repository.py and core/database.py: the canonical messages of a
-- session, the deletions that hide them, and the revision that SQL triggers count.
namespace Conversation

open Python (Dict Json Text strip)

-- A row of `chat_canonical_messages`, hydrated. Whoever creates a message makes its id of a UUID, so that it is not
-- empty and comes without blanks around it.
structure Message where
  id            : String
  sessionId     : String
  runId         : Option String
  ordinal       : ℤ
  role          : String
  state         : String
  nodes         : List Dict
  artifacts     : List Json
  contentText   : Option String
  reasoningText : Option String
  metadata      : Dict
  version       : ℕ
  createdAt     : String
  updatedAt     : String
  finalizedAt   : Option String
  trimmed       : strip id = id
  named         : id ≠ ""
  deriving DecidableEq

-- The `source` of a deletion
inductive Source
  | legacyMessage
  | canonicalMessage
  | canonicalProjectionAlias
  | runtimeEventProjection
  | clientProjection
  | conversationRevision
  deriving DecidableEq

-- A row of `chat_message_deletions`
structure Tombstone where
  sessionId          : String
  messageId          : String
  canonicalMessageId : Option String
  runId              : Option String
  source             : Source
  metadata           : Dict
  deletedAt          : String

def Tombstone.key (t : Tombstone) : String × String :=
  (t.sessionId, t.messageId)

def Tombstone.normalized (t : Tombstone) : Tombstone :=
  { t with sessionId := strip t.sessionId, messageId := strip t.messageId }

-- A row of `sessions`. Its id is not empty and comes without blanks around it.
structure Session where
  id      : String
  title   : String
  userId  : String
  trimmed : strip id = id
  named   : id ≠ ""

-- A row of `chat_session_transcript_state`
structure TranscriptState where
  transcriptRevision       : ℕ := 0
  contextEpoch             : ℕ := 0
  activeCheckpointThreadId : String

-- A row of `run_records`. Whoever creates a run makes its id of a UUID or takes one that is not empty.
structure Run where
  id           : String
  sessionId    : String
  contextEpoch : ℕ
  named        : id ≠ ""

-- A row of `chat_message_revisions`
structure Revision where
  revisionId               : String
  sessionId                : String
  messageId                : String
  baseMessageVersion       : ℕ
  resultMessageVersion     : ℕ
  baseTranscriptRevision   : ℕ
  resultTranscriptRevision : ℕ
  previousSnapshot         : Message
  replacementText          : String
  supersededIds            : List String
  editedBy                 : String
  mode                     : String
  contextEpoch             : ℕ
  createdAt                : String

-- A row of `chat_conversation_branches`
structure Branch where
  childSessionId           : String
  rootSessionId            : String
  parentSessionId          : String
  anchorTurnId             : String
  anchorLastOrdinal        : ℤ
  sourceTranscriptRevision : ℕ
  branchNumber             : ℕ
  rootTitle                : String
  createdBy                : String

-- A row of `messages`, of which a deletion reads little
structure Legacy where
  id        : String
  sessionId : String
  role      : Json

-- A row of `runtime_events`
structure Event where
  id        : String
  sessionId : String
  runId     : Option String
  topic     : String

structure Database where
  sessions   : Table Session.id
  states     : String → Option TranscriptState
  messages   : Table Message.id
  tombstones : Table Tombstone.key
  runs       : Table Run.id
  revisions  : Table Revision.revisionId
  branches   : Table Branch.childSessionId
  legacy     : Table Legacy.id
  events     : Table Event.id

-- Whether a deletion hides a message
def Tombstone.hides (t : Tombstone) (m : Message) : Bool :=
  t.sessionId = m.sessionId && (t.messageId = m.id || t.canonicalMessageId = some m.id)

namespace Database

def empty : Database where
  sessions   := .empty
  states _   := none
  messages   := .empty
  tombstones := .empty
  runs       := .empty
  revisions  := .empty
  branches   := .empty
  legacy     := .empty
  events     := .empty

variable (db : Database)

def hidden (m : Message) : Bool :=
  db.tombstones.any (·.hides m)

-- `_rows`. No two messages of a session have one ordinal.
def visible (sessionId : String) : List Message :=
  (db.messages.rows.filter fun m => m.sessionId = sessionId && !db.hidden m).insertionSort (·.ordinal ≤ ·.ordinal)

-- `transcript_state`
def transcriptState (sessionId : String) : TranscriptState :=
  (db.states sessionId).getD { activeCheckpointThreadId := sessionId }

def revision (sessionId : String) : ℕ :=
  (db.transcriptState sessionId).transcriptRevision

def epoch (sessionId : String) : ℕ :=
  (db.transcriptState sessionId).contextEpoch

def knows (sessionId : String) : Bool :=
  (db.sessions.get? sessionId).isSome

-- What the triggers on a statement do: the revision of each session goes up by the number of its rows.
def bump (rows : String → ℕ) : Database :=
  { db with states := fun sessionId => (db.states sessionId).map fun state =>
      { state with transcriptRevision := state.transcriptRevision + rows sessionId } }

def bumpOne (sessionId : String) : Database :=
  db.bump fun s => if s = sessionId then 1 else 0

-- The numbers of messages of each session that meet a condition
def countMessages (p : Message → Bool) (sessionId : String) : ℕ :=
  db.messages.rows.countP fun m => p m && m.sessionId = sessionId

-- `INSERT INTO chat_canonical_messages`, which refers to a session and to a run
def insertMessage (m : Message) : Option Database := do
  if !db.knows m.sessionId || m.runId.any fun runId => (db.runs.get? runId).isNone then none
  else if db.messages.any fun other => other.sessionId = m.sessionId && other.ordinal = m.ordinal then none
  else
    let messages ← db.messages.insert? m
    some ({ db with messages }.bumpOne m.sessionId)

-- `UPDATE chat_canonical_messages SET f WHERE p`
def updateMessages (p : Message → Bool) (f : Message → Message) (hf : ∀ m, (f m).id = m.id) : Database :=
  { db with messages := db.messages.update p f hf }.bump (db.countMessages p)

-- `DELETE FROM chat_canonical_messages WHERE p`
def deleteMessages (p : Message → Bool) : Database :=
  { db with messages := db.messages.delete p }.bump (db.countMessages p)

-- What a deletion that is there takes from a new one
def mergeTombstone (new old : Tombstone) : Tombstone :=
  { old with
    canonicalMessageId := new.canonicalMessageId.or old.canonicalMessageId
    runId              := new.runId.or old.runId
    source             := new.source
    metadata           := new.metadata
    deletedAt          := new.deletedAt }

theorem key_mergeTombstone {new old : Tombstone} : (mergeTombstone new old).key = old.key := rfl

-- `_record_chat_message_deletion`. A trigger fires where the row is new.
def recordDeletion (t : Tombstone) : Option Database :=
  if strip t.sessionId = "" ∨ strip t.messageId = "" then some db
  else if !db.knows (strip t.sessionId) then none
  else match db.tombstones.insert? t.normalized with
    | some tombstones => some ({ db with tombstones }.bumpOne (strip t.sessionId))
    | none            => some { db with
      tombstones := db.tombstones.update (·.key = t.normalized.key) (mergeTombstone t.normalized) fun _ =>
        key_mergeTombstone }

-- `DELETE FROM chat_message_deletions WHERE p`
def deleteTombstones (p : Tombstone → Bool) : Database :=
  { db with tombstones := db.tombstones.delete p }.bump fun sessionId =>
    db.tombstones.rows.countP fun t => p t && t.sessionId = sessionId

-- `INSERT INTO sessions`, with its trigger
def insertSession (session : Session) : Option Database := do
  let sessions ← db.sessions.insert? session
  some { db with
    sessions
    states := Function.update db.states session.id
      (some ((db.states session.id).getD { activeCheckpointThreadId := session.id })) }

-- `assert_run_epoch`
def runCurrent (sessionId : String) (runId : Option String) : Bool :=
  match runId with
  | none       => true
  | some runId => runId = "" || (db.runs.get? runId).any fun run =>
    run.sessionId = sessionId && run.contextEpoch = db.epoch sessionId

-- `create_run_record`. Replacing the row sets the run of its messages to NULL.
def createRun (runId sessionId : String) (named : runId ≠ "") : Option Database := do
  if (db.runs.get? runId).isSome && !db.runCurrent sessionId (some runId) then none
  else
    let orphaned := db.updateMessages (fun m => m.runId = some runId) (fun m => { m with runId := none }) fun _ => rfl
    let runs ← (db.runs.delete (·.id = runId)).insert? ⟨runId, sessionId, db.epoch sessionId, named⟩
    some { orphaned with runs }

end Database

-- The arguments of `update_chat_canonical_message`
structure Update where
  messageId       : String
  state           : Option String := none
  nodes           : Option (List Dict) := none
  artifacts       : Option (List Json) := none
  contentText     : Option String := none
  reasoningText   : Option String := none
  metadata        : Option Dict := none
  finalizedAt     : Option String := none
  expectedVersion : Option ℕ := none

-- The row after an update
def Update.over (u : Update) (now : String) (m : Message) : Message :=
  { m with
    state         := match u.state.filter (· ≠ "") with
      | some state => state
      | none       => if m.state = "" then "pending" else m.state
    nodes         := u.nodes.getD m.nodes
    artifacts     := u.artifacts.getD m.artifacts
    contentText   := u.contentText.or m.contentText
    reasoningText := u.reasoningText.or m.reasoningText
    metadata      := u.metadata.getD m.metadata
    version       := m.version + 1
    updatedAt     := now
    finalizedAt   := u.finalizedAt.or m.finalizedAt }

theorem Update.id_over {u : Update} {now : String} {m : Message} : (u.over now m).id = m.id := rfl

namespace Database

variable (db : Database)

-- `create_chat_canonical_message`. The version and the times of the row are set here.
def create (now : String) (m : Message) : Option Database :=
  if !db.runCurrent m.sessionId m.runId then none
  else db.insertMessage { m with version := 1, createdAt := now, updatedAt := now }

-- `update_chat_canonical_message`. The row is read before the transaction; its version is checked in it.
def update (now : String) (u : Update) : Option Database := do
  let existing ← db.messages.get? u.messageId
  if u.expectedVersion.any (· ≠ existing.version) then none
  else if !db.runCurrent existing.sessionId existing.runId then none
  else some (db.updateMessages (·.id = u.messageId) (u.over now) fun _ => Update.id_over)

end Database
end Conversation
