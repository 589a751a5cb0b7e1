import V8AgentOs.Conversation.Transcript

-- core/database.py and core/conversation_recovery.py: deletions, user-authored revisions and branches.
namespace Conversation

open Python (Dict Json Text strip)

-- What a transaction meets: the time, whether the conversation is idle (no lane, run, approval, question, episode,
-- queued message, effect or assignment of it is unsettled), and the new ids of a revision, of the messages of a branch
-- and of its session.
structure Moment where
  now    : String
  idle   : Bool
  ids    : ℕ → String
  copies : ℕ → { id : String // strip id = id ∧ id ≠ "" }
  child  : { id : String // strip id = id ∧ id ≠ "" }

-- What the turns and the branches take from elsewhere: `sha256`, the title of a branch, and what a branch inherits of
-- the nodes, the artifacts and the metadata of a message
structure Rules where
  text        : Text
  turnId      : String → Message → String
  branchTitle : String → ℕ → String
  inherited   : String → Message → List Dict × List Json × Dict

namespace Message

variable (text : Text) (m : Message)

def narrative (node : Dict) : Bool :=
  node.get "kind" = .str "narrative"

-- The ids under which a projection may show a message
def aliases : List String :=
  [m.id, text.stripped (m.metadata.get "messageId"), text.stripped (m.metadata.get "clientMessageId")] ++
    m.nodes.map (fun node => text.stripped (node.get "id")) ++
    m.artifacts.flatMap fun artifact => match artifact with
      | .dict members => [text.stripped (Dict.get members "id"), text.stripped (Dict.get members "messageId")]
      | _             => []

def namedBy (id : String) : Bool :=
  (m.aliases text).contains id || (m.id ≠ "" && (m.id ++ ":").toList.isPrefixOf id.toList)

-- `TERMINAL_MESSAGES`
def terminal : Bool :=
  ["completed", "failed", "cancelled"].contains m.state

-- `_editable`
def editable : Bool :=
  ["user", "assistant"].contains m.role && m.terminal &&
    !(m.role = "assistant" && !m.nodes.any narrative && !m.contentText.any (· ≠ ""))

-- The first narrative node gets the content, the other ones become empty.
def narrate : String → List Dict → List Dict
  | _, []               => []
  | content, node :: nodes =>
    if narrative node then node.set "content" (.str content) :: narrate "" nodes
    else node :: narrate content nodes

def rewritten (content : String) : List Dict :=
  if m.nodes.any narrative then narrate content m.nodes
  else m.nodes ++ [[("id", .str (m.id ++ ":revision")), ("kind", .str "narrative"), ("content", .str content)]]

-- The row after a revision
def revised (content now : String) : Message :=
  { m with
    nodes       := m.rewritten content
    contentText := some content
    metadata    := (m.metadata.merge [("edited", .bool true), ("editedBy", .str "user"), ("editedAt", .str now),
      ("revisionVersion", .int (m.version + 1)), ("contentOrigin", .str "user_revision")]).without
        "_v8_provider_continuation"
    version     := m.version + 1
    updatedAt   := now }

variable {m}

theorem id_revised {content now : String} : (m.revised content now).id = m.id := rfl

end Message

namespace Database

variable (db : Database)

def firstNonempty (s t : String) : String :=
  if s = "" then t else s

-- The row that an id names in a session, though it is not its id
def aliased (text : Text) (sessionId id : String) : Option Message :=
  if sessionId = "" then none
  else ((db.messages.rows.filter (·.sessionId = sessionId)).insertionSort (·.ordinal ≤ ·.ordinal)).find? fun m =>
    m.namedBy text id

-- The deletions of a message under another id and under its own
def recordAlias (now sessionId id : String) (m : Message) : Option Database := do
  let recorded ← db.recordDeletion {
    sessionId          := sessionId
    messageId          := id
    canonicalMessageId := some m.id
    runId              := m.runId
    source             := .canonicalProjectionAlias
    metadata           := [("role", .str m.role), ("state", .str m.state)]
    deletedAt          := now }
  if id = m.id then some recorded
  else recorded.recordDeletion {
    sessionId          := sessionId
    messageId          := m.id
    canonicalMessageId := some m.id
    runId              := m.runId
    source             := .canonicalProjectionAlias
    metadata           := [("alias", .str id)]
    deletedAt          := now }

-- `delete_message`
def deleteMessage (text : Text) (now messageId sessionId : String) : Option Database :=
  let id      := strip messageId
  let session := strip sessionId
  if id = "" then some db
  else match db.legacy.get? id with
  | some legacy => { db with legacy := db.legacy.delete (·.id = id) }.recordDeletion {
      sessionId          := firstNonempty legacy.sessionId session
      messageId          := id
      canonicalMessageId := none
      runId              := none
      source             := .legacyMessage
      metadata           := [("role", legacy.role)]
      deletedAt          := now }
  | none => match db.messages.get? id with
    | some m => (db.deleteMessages (·.id = id)).recordDeletion {
        sessionId          := firstNonempty m.sessionId session
        messageId          := id
        canonicalMessageId := some id
        runId              := m.runId
        source             := .canonicalMessage
        metadata           := [("role", .str m.role), ("state", .str m.state)]
        deletedAt          := now }
    | none => match db.aliased text session id with
      | some m => (db.deleteMessages (·.id = m.id)).recordAlias now session id m
      | none => match db.events.get? id with
        | some event => db.recordDeletion {
            sessionId          := firstNonempty event.sessionId session
            messageId          := id
            canonicalMessageId := none
            runId              := event.runId
            source             := .runtimeEventProjection
            metadata           := [("topic", .str event.topic)]
            deletedAt          := now }
        | none => if session = "" then some db else db.recordDeletion {
            sessionId          := session
            messageId          := id
            canonicalMessageId := none
            runId              := none
            source             := .clientProjection
            metadata           := [("fallback", .bool true)]
            deletedAt          := now }

-- The first two checks of `_owned_idle`, and the others
def ownedIdle (m : Moment) (sessionId owner : String) : Bool :=
  m.idle && (db.sessions.get? sessionId).any fun session => owner ≠ "" && session.userId = owner

-- `_rotate`, as far as the transcript goes
def rotate (sessionId thread : String) : Database :=
  { db with states := Function.update db.states sessionId ((db.states sessionId).map fun state =>
      { state with contextEpoch := state.contextEpoch + 1, activeCheckpointThreadId := thread }) }

def insertEvent (id sessionId topic : String) : Option Database := do
  let events ← db.events.insert? ⟨id, sessionId, none, topic⟩
  some { db with events }

def buryDescendant (now sessionId anchorId : String) (descendant : Message) : Option Database :=
  db.recordDeletion {
    sessionId          := sessionId
    messageId          := descendant.id
    canonicalMessageId := some descendant.id
    runId              := descendant.runId
    source             := .conversationRevision
    metadata           := [("anchorMessageId", .str anchorId)]
    deletedAt          := now }

-- What `_revise` is about
structure Revising where
  sessionId : String
  owner     : String
  row       : Message
  rows      : List Message
  -- A restored content may be NULL.
  content   : Option String
  truncate  : Bool
  mode      : String

def Revising.descendants (v : Revising) : List Message :=
  v.rows.filter (v.row.ordinal < ·.ordinal)

def Revising.names (v : Revising) (m : Message) : Bool :=
  m.id = v.row.id && m.version = v.row.version

-- The row of `chat_message_revisions` that a revision leaves
def Revising.ledger (v : Revising) (m : Moment) (content : String) (before after : Database) : Revision where
  revisionId               := "revision_" ++ m.ids 1
  sessionId                := v.sessionId
  messageId                := v.row.id
  baseMessageVersion       := v.row.version
  resultMessageVersion     := v.row.version + 1
  baseTranscriptRevision   := before.revision v.sessionId
  resultTranscriptRevision := after.revision v.sessionId
  previousSnapshot         := v.row
  replacementText          := content
  supersededIds            := v.descendants.map (·.id)
  editedBy                 := v.owner
  mode                     := v.mode
  contextEpoch             := after.epoch v.sessionId
  createdAt                := m.now

def edit (v : Revising) (content now : String) : Database :=
  db.updateMessages v.names (·.revised content now) fun _ => Message.id_revised

def bury (m : Moment) (v : Revising) : Option Database :=
  v.descendants.foldlM (·.buryDescendant m.now v.sessionId v.row.id) db

-- `_revise`, and the id of the revision
def revise (m : Moment) (v : Revising) : Option (Database × String) := do
  if !v.row.editable || (!v.truncate && !v.descendants.isEmpty) then none
  else
    -- `replacement_text` is NOT NULL.
    let content ← v.content
    if !db.messages.any v.names then none
    else
      let buried ← (db.edit v content m.now).bury m v
      let rotated := buried.rotate v.sessionId ("conversation_" ++ m.ids 0)
      let ledger := v.ledger m content db rotated
      let revisions ← rotated.revisions.insert? ledger
      let told ← { rotated with revisions }.insertEvent ("evt_" ++ m.ids 2) v.sessionId "message.revised"
      some (told, ledger.revisionId)

-- `_expected`
def expected (sessionId : String) (revision : ℕ) (message : Message) (version : Option ℕ) : Bool :=
  db.revision sessionId = revision && version.all (· = message.version)

end Database

-- `_text`
def validText (content : String) : Bool :=
  strip content ≠ "" && Python.bytes content.toList ≤ 1000000 &&
    content.toList.all fun c => 32 ≤ c.toNat || ['\n', '\r', '\t'].contains c

inductive TailPolicy
  | reject
  | rejectIfDescendants
  | truncate
  deriving DecidableEq

-- The arguments of `revise_message`
structure Revise where
  sessionId                  : String
  messageId                  : String
  owner                      : String
  content                    : String
  expectedMessageVersion     : ℕ
  expectedTranscriptRevision : ℕ
  tailPolicy                 : TailPolicy := .reject

-- The arguments of `restore_revision`
structure Restore where
  sessionId                  : String
  messageId                  : String
  revisionId                 : String
  owner                      : String
  expectedMessageVersion     : ℕ
  expectedTranscriptRevision : ℕ

namespace Database

variable (db : Database)

-- `revise_message`
def reviseMessage (m : Moment) (c : Revise) : Option (Database × String) := do
  if !validText c.content || !db.ownedIdle m c.sessionId c.owner then none
  else
    let rows := db.visible c.sessionId
    let row ← rows.find? (·.id = c.messageId)
    if !db.expected c.sessionId c.expectedTranscriptRevision row (some c.expectedMessageVersion) then none
    else db.revise m {
      sessionId := c.sessionId
      owner     := c.owner
      row
      rows
      content   := some c.content
      truncate  := c.tailPolicy = .truncate
      mode      := if c.tailPolicy = .truncate then "replace_and_truncate" else "in_place" }

-- What a restoration takes away of the deletions
def superseding (sessionId : String) (ids : List String) (t : Tombstone) : Bool :=
  t.sessionId = sessionId && t.source = .conversationRevision && t.canonicalMessageId.any ids.contains

-- `restore_revision`
def restoreRevision (m : Moment) (c : Restore) : Option (Database × String) := do
  if !db.ownedIdle m c.sessionId c.owner then none
  else
    let ledger ← db.revisions.get? c.revisionId
    if ledger.sessionId ≠ c.sessionId ∨ ledger.messageId ≠ c.messageId then none
    else
      let rows := db.visible c.sessionId
      let row ← rows.find? (·.id = c.messageId)
      if !db.expected c.sessionId c.expectedTranscriptRevision row (some c.expectedMessageVersion) then none
      else if !ledger.supersededIds.isEmpty && rows.any (row.ordinal < ·.ordinal) then none
      else (db.deleteTombstones (superseding c.sessionId ledger.supersededIds)).revise m {
        sessionId := c.sessionId
        owner     := c.owner
        row
        rows
        content   := ledger.previousSnapshot.contentText
        truncate  := false
        mode      := "restore" }

end Database

-- `group_canonical_turn_rows`
structure Grouping where
  groups         : List (List Message) := []
  current        : List Message := []
  orphanKey      : String := ""
  startsWithUser : Bool := false

def orphanKeyOf (text : Text) (row : Message) : String :=
  let runId := Database.firstNonempty (strip (row.runId.getD "")) (text.orEmpty (row.metadata.get "sourceRunId"))
  if runId = "" then "" else "run:" ++ runId

def Grouping.add (text : Text) (g : Grouping) (row : Message) : Grouping :=
  if text.lower (strip row.role) = "user" then
    { groups         := if g.current.isEmpty then g.groups else g.groups ++ [g.current]
      current        := [row]
      orphanKey      := ""
      startsWithUser := true }
  else if g.startsWithUser then { g with current := g.current ++ [row] }
  else
    let key := orphanKeyOf text row
    if !g.current.isEmpty && g.orphanKey ≠ "" && key ≠ "" && g.orphanKey ≠ key then
      { g with groups := g.groups ++ [g.current], current := [row], orphanKey := key }
    else { g with current := g.current ++ [row], orphanKey := if g.current.isEmpty then key else g.orphanKey }

def groupTurns (text : Text) (rows : List Message) : List (List Message) :=
  let g := rows.foldl (Grouping.add text) {}
  if g.current.isEmpty then g.groups else g.groups ++ [g.current]

-- The arguments of `create_branch`
structure CreateBranch where
  sessionId                  : String
  owner                      : String
  turnId                     : String
  expectedTranscriptRevision : ℕ
  expectedMessageVersion     : Option ℕ := none
  messageId                  : Option String := none
  content                    : Option String := none

namespace Database

variable (db : Database)

-- The message that a branch makes of one of the source
def copy (r : Rules) (now child : String) (id : { id : String // strip id = id ∧ id ≠ "" }) (row : Message) : Message :=
  let (nodes, artifacts, metadata) := r.inherited child row
  { row with
    id        := id.val
    trimmed   := id.property.left
    named     := id.property.right
    sessionId := child
    runId     := none
    nodes
    artifacts
    metadata
    version   := 1
    updatedAt := now }

-- The root of the branches of a session and its title
def branchRoot (source : Session) : String × String :=
  let parent := (db.branches.get? source.id).or
    ((db.branches.rows.filter (·.rootSessionId = source.id)).insertionSort (·.branchNumber ≤ ·.branchNumber)).head?
  (parent.map fun branch => (branch.rootSessionId, branch.rootTitle)).getD (source.id, source.title)

-- The first number that no branch of the root has
def branchNumber (root : String) : ℕ :=
  let used := (db.branches.rows.filter (·.rootSessionId = root)).map (·.branchNumber)
  (((List.range (used.length + 1)).map (· + 1)).find? fun number => !used.contains number).getD 0

-- What `create_branch` finds: the last message of the turn, the anchor in it, and the messages up to the turn
structure Found where
  source : Session
  last   : Message
  anchor : Message
  rows   : List Message

-- The checks of `create_branch`
def findTurn (r : Rules) (m : Moment) (c : CreateBranch) : Option Found := do
  if c.content.any fun content =>
      !validText content || !c.messageId.any (· ≠ "") || c.expectedMessageVersion.isNone then none
  else if !db.ownedIdle m c.sessionId c.owner then none
  else
    let source ← db.sessions.get? c.sessionId
    let rows := db.visible c.sessionId
    let group ← (groupTurns r.text rows).find? fun group =>
      group.head?.any fun first => r.turnId c.sessionId first = c.turnId
    let last ← group.getLast?
    let anchor ← match c.messageId.filter (· ≠ "") with
      | some messageId => group.find? (·.id = messageId)
      | none           => some last
    let rows := rows.filter (·.ordinal ≤ last.ordinal)
    if !db.expected c.sessionId c.expectedTranscriptRevision anchor c.expectedMessageVersion then none
    else if !rows.all (·.terminal) then none
    else some { source, last, anchor, rows }

-- The session of the branch and its lineage
def openBranch (r : Rules) (m : Moment) (c : CreateBranch) (found : Found) : Option Database := do
  let (root, rootTitle) := db.branchRoot found.source
  let number := db.branchNumber root
  let opened ← db.insertSession
    ⟨m.child.val, r.branchTitle rootTitle number, c.owner, m.child.property.left, m.child.property.right⟩
  let branches ← opened.branches.insert? {
    childSessionId           := m.child.val
    rootSessionId            := root
    parentSessionId          := c.sessionId
    anchorTurnId             := c.turnId
    anchorLastOrdinal        := found.last.ordinal
    sourceTranscriptRevision := db.revision c.sessionId
    branchNumber             := number
    rootTitle                := rootTitle
    createdBy                := c.owner }
  some { opened with branches }

def insertCopies (r : Rules) (m : Moment) (rows : List Message) : Option Database :=
  (rows.zipIdx.map fun row => copy r m.now m.child.val (m.copies row.2) row.1).foldlM insertMessage db

-- The revision of the copy of the anchor, which has its ordinal
def reviseCopy (m : Moment) (c : CreateBranch) (anchor : Message) : Option Database :=
  match c.content with
  | none         => some db
  | some content => do
    let rows := db.visible m.child.val
    let row ← rows.find? (·.ordinal = anchor.ordinal)
    let revised ← db.revise m {
      sessionId := m.child.val
      owner     := c.owner
      row
      rows
      content   := some content
      truncate  := true
      mode      := "branch_with_revision" }
    some revised.1

-- `create_branch`
def createBranch (r : Rules) (m : Moment) (c : CreateBranch) : Option Database := do
  let found ← db.findTurn r m c
  let opened ← db.openBranch r m c found
  let filled ← opened.insertCopies r m found.rows
  let revised ← (filled.rotate m.child.val ("conversation_" ++ m.ids 3)).reviseCopy m c found.anchor
  let told ← revised.insertEvent ("evt_" ++ m.ids 4) c.sessionId "session.branch.created"
  told.insertEvent ("evt_" ++ m.ids 5) m.child.val "session.branch.created"

end Database

-- The calls that change the transcript of a conversation, and those that others make of its tables
inductive Operation
  | create (message : Message)
  | update (arguments : Update)
  | delete (messageId sessionId : String)
  | revise (arguments : Revise)
  | restore (arguments : Restore)
  | branch (arguments : CreateBranch)
  | createRun (runId sessionId : String) (named : runId ≠ "")
  | createSession (session : Session)
  | addMessage (message : Legacy)
  | emit (event : Event)

-- A call is one transaction. Where it is refused, its transaction is rolled back.
def perform (r : Rules) (m : Moment) (db : Database) : Operation → Option Database
  | .create message                  => db.create m.now message
  | .update arguments                => db.update m.now arguments
  | .delete messageId sessionId      => db.deleteMessage r.text m.now messageId sessionId
  | .revise arguments                => (db.reviseMessage m arguments).map (·.1)
  | .restore arguments               => (db.restoreRevision m arguments).map (·.1)
  | .branch arguments                => db.createBranch r m arguments
  | .createRun runId sessionId named => db.createRun runId sessionId named
  | .createSession session           => db.insertSession session
  | .addMessage message              => do
    let legacy ← db.legacy.insert? message
    some { db with legacy }
  | .emit event                      => do
    let events ← db.events.insert? event
    some { db with events }

end Conversation
