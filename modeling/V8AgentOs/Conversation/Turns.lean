import V8AgentOs.Conversation.Recovery
import V8AgentOs.Lib.Segments
import V8AgentOs.Transcript.Builder

-- erc/chat_canonical_transcript.py: the turns of a session, the index of them, and windows of them
namespace Conversation

open Python (Json strip)

-- What the turns take from elsewhere: `hashlib.sha256(...).hexdigest()`, and the column that `json_extract` makes of a
-- value
structure Surface where
  text       : Transcript.Unicode
  sha256     : String → String
  column     : Json → Json
  hexdigest  : ∀ s, ∀ c ∈ (sha256 s).toList, ('0' ≤ c ∧ c ≤ '9') ∨ ('a' ≤ c ∧ c ≤ 'f')
  columnNull : column .null = .null
  columnText : ∀ s, column (.str s) = .str s

-- `ORDER BY ordinal, created_at`, and the key by which the rows are sorted again
def Message.Upto (a b : Message) : Prop :=
  a.ordinal < b.ordinal ∨ a.ordinal = b.ordinal ∧ a.createdAt ≤ b.createdAt

instance : DecidableRel Message.Upto :=
  fun a b => inferInstanceAs (Decidable (a.ordinal < b.ordinal ∨ a.ordinal = b.ordinal ∧ a.createdAt ≤ b.createdAt))

def sortedRows (rows : List Message) : List Message :=
  rows.insertionSort Message.Upto

-- `int(value or default)`
def orDefault (value default : ℤ) : ℤ :=
  if value = 0 then default else value

-- `max(low, min(value, high))`
def clamp (low high value : ℤ) : ℕ :=
  (max low (min value high)).toNat

-- The numbers of turns and of rows that a window is made with
def turnLimit (limitTurns : ℤ) : ℕ :=
  clamp 1 20 (orDefault limitTurns 1)

def chunkLimit (scanLimit : ℤ) : ℕ :=
  clamp 50 2000 (orDefault scanLimit 500)

def earliestOrdinal (rows : List Message) : ℤ :=
  (rows.map (·.ordinal)).min?.getD 0

def latestOrdinal (rows : List Message) : ℤ :=
  (rows.map (·.ordinal)).max?.getD 0

namespace Database

variable (db : Database) (sessionId : String)

def getChatCanonicalMessagesBeforeOrdinal (beforeOrdinal : Option ℤ) (limit : ℤ) : List Message :=
  ((db.visible sessionId).filter fun m => beforeOrdinal.all (m.ordinal < ·)).reverse.take
    (clamp 1 2000 (orDefault limit 500))

def hasChatCanonicalMessageBeforeOrdinal (beforeOrdinal : ℤ) : Bool :=
  (db.visible sessionId).any (·.ordinal < beforeOrdinal)

def getChatCanonicalMessagesInOrdinalRange (firstOrdinal lastOrdinal : ℤ) : List Message :=
  (db.visible sessionId).filter fun m =>
    min firstOrdinal lastOrdinal ≤ m.ordinal && m.ordinal ≤ max firstOrdinal lastOrdinal

end Database

namespace Surface

variable (surface : Surface) (db : Database) (sessionId : String)

-- A row of the index has the column `source_run_id` in place of the metadata, and the first characters of the content.
def indexRow (m : Message) : Message :=
  { m with
    contentText := some (Python.take 241 (m.contentText.getD ""))
    metadata    := [("sourceRunId", surface.column (m.metadata.get "sourceRunId"))] }

def getChatCanonicalTurnIndexRows : List Message :=
  (db.visible sessionId).map surface.indexRow

-- `group_canonical_turn_rows`
def groups (rows : List Message) : List (List Message) :=
  groupTurns surface.text.toText rows

def anchor : List Message → String
  | []         => "0"
  | first :: _ => if strip first.id = "" then toString first.ordinal else strip first.id

-- `_stable_turn_id`
def stableTurnId (rows : List Message) : String :=
  "turn_" ++ Python.take 24 (surface.sha256 ("canonical-turn-v1\x00" ++ sessionId ++ "\x00message\x00" ++ anchor rows))

def roleOf (m : Message) : String :=
  surface.text.lower (strip m.role)

-- `_turn_preview`
def turnPreview (rows : List Message) : String :=
  let candidates := rows.filter (surface.roleOf · = "user") ++ rows.filter (surface.roleOf · = "assistant")
  let previews := candidates.map fun m =>
    let visible := (Transcript.splitInlineReasoning surface.text (.str (m.contentText.getD ""))).1
    strip (String.ofList (Transcript.squeeze false visible.toList))
  match previews.find? (· ≠ "") with
  | none         => ""
  | some preview =>
    if preview.length ≤ 160 then preview
    else String.ofList ((preview.toList.take 159).rdropWhile Python.isSpace) ++ "…"

end Surface

-- An entry of the index
structure Entry where
  turnId       : String
  position     : ℕ
  firstOrdinal : ℤ
  lastOrdinal  : ℤ
  messageCount : ℕ
  preview      : String
  state        : String
  createdAt    : String
  updatedAt    : String

-- A page of the index
structure IndexPage where
  turns           : List Entry
  hasOlder        : Bool
  hasNewer        : Bool
  beforeCursor    : Option ℕ
  loadedTurnCount : ℕ
  totalTurnCount  : ℕ
  firstPosition   : Option ℕ
  lastPosition    : Option ℕ

-- A message as a window shows it
structure Shown where
  row          : Message
  turnId       : Option String
  isTurnEnd    : Option Bool
  turnPosition : Option ℕ

-- The arguments of `build_canonical_chat_turn_window`
structure WindowRequest where
  beforeOrdinal : Option ℤ := none
  limitTurns    : ℤ := 1
  scanLimit     : ℤ := 500
  aroundTurnId  : String := ""
  neighborTurns : ℤ := 0

-- A window. A cursor is an ordinal, written as a text that the next request reads back; `hasMore` is `hasOlder`.
structure Window where
  messages            : List Shown
  hasOlder            : Bool
  hasNewer            : Bool
  beforeCursor        : Option ℤ := none
  afterCursor         : Option ℤ := none
  loadedTurnCount     : ℕ
  totalTurnCount      : Option ℕ := none
  firstTurnId         : Option String := none
  lastTurnId          : Option String := none
  anchorTurnId        : Option String := none
  anchorPosition      : Option ℕ := none
  windowStartPosition : Option ℕ := none
  windowEndPosition   : Option ℕ := none

namespace Surface

variable (surface : Surface) (db : Database) (sessionId : String)

def entry (group : List Message) (position : ℕ) : Entry where
  turnId       := surface.stableTurnId sessionId group
  position     := position
  firstOrdinal := earliestOrdinal group
  lastOrdinal  := latestOrdinal group
  messageCount := group.length
  preview      := surface.turnPreview group
  state        := (group.getLast?.map (·.state)).filter (· ≠ "") |>.getD "unknown"
  createdAt    := (group.head?.map (·.createdAt)).getD ""
  updatedAt    := (group.map (·.updatedAt)).foldl (fun a b => if a < b then b else a) ""

def buildCanonicalTurnIndexEntries (rows : List Message) : List Entry :=
  ((surface.groups rows).zipIdx 1).map fun group => surface.entry sessionId group.1 group.2

-- The entries that the index and the windows around a turn are made of
def entries : List Entry :=
  surface.buildCanonicalTurnIndexEntries sessionId (surface.getChatCanonicalTurnIndexRows db sessionId)

def buildCanonicalChatTurnIndex (beforePosition : Option ℤ) (limitTurns : ℤ) : IndexPage :=
  let entries := surface.entries db sessionId
  let safeLimit := clamp 1 500 (orDefault limitTurns 200)
  let endIndex := match beforePosition with
    | none        => entries.length
    | some before => clamp 0 entries.length (before - 1)
  let startIndex := endIndex - safeLimit
  let selected := (entries.take endIndex).drop startIndex
  let hasOlder := 0 < startIndex
  { turns           := selected
    hasOlder
    hasNewer        := endIndex < entries.length
    beforeCursor    := if hasOlder then selected.head?.map (·.position) else none
    loadedTurnCount := selected.length
    totalTurnCount  := entries.length
    firstPosition   := selected.head?.map (·.position)
    lastPosition    := selected.getLast?.map (·.position) }

-- The last group that has a message of the id, and its position
def turnOf (groups : List (List Message)) (id : String) : Option (List Message × ℕ) :=
  (groups.zipIdx 1).reverse.find? fun group => group.1.any (·.id = id)

-- `format_canonical_chat_rows`, with the turns of `all_rows`. What a message shows besides its turn is its row.
def formatCanonicalChatRows (rows allRows : List Message) (includeTurnPositions : Bool) : List Shown :=
  rows.map fun row =>
    let turn := turnOf (surface.groups allRows) (strip row.id)
    { row
      turnId       := turn.map fun group => surface.stableTurnId sessionId group.1
      isTurnEnd    := turn.map fun group => group.1.getLast?.any (·.id = row.id)
      turnPosition := if includeTurnPositions then turn.map (·.2) else none }

def selectCanonicalTurnWindowRows (rowsDesc : List Message) (safeLimit : ℕ) : List Message × ℕ :=
  let selected := (surface.groups (sortedRows rowsDesc)).rtake safeLimit
  (selected.flatten, selected.length)

-- The loop that reads rows until they have more turns than the window or are all there are. Each chunk is of rows
-- before the last one, so that the number of rows bounds the number of steps.
def scan (safeLimit : ℕ) (chunkLimit : ℤ) : ℕ → Option ℤ → List Message → Option (List Message)
  | 0, _, _                        => none
  | n + 1, scanBefore, rowsDesc =>
    let chunk := db.getChatCanonicalMessagesBeforeOrdinal sessionId scanBefore chunkLimit
    if chunk = [] then some rowsDesc
    else
      let rowsDesc := rowsDesc ++ chunk
      let earliest := earliestOrdinal rowsDesc
      if safeLimit < (surface.groups (sortedRows rowsDesc)).length ||
          !db.hasChatCanonicalMessageBeforeOrdinal sessionId earliest then some rowsDesc
      else scan safeLimit chunkLimit n (some earliest) rowsDesc

-- `build_canonical_chat_turn_window` without `around_turn_id`
def windowBefore (beforeOrdinal : Option ℤ) (limitTurns scanLimit : ℤ) : Option Window := do
  let safeLimit := turnLimit limitTurns
  let rowsDesc ← surface.scan db sessionId safeLimit (chunkLimit scanLimit) ((db.visible sessionId).length + 1)
    beforeOrdinal []
  let (selectedRows, loadedTurnCount) := surface.selectCanonicalTurnWindowRows rowsDesc safeLimit
  if selectedRows = [] then
    some { messages := [], hasOlder := false, hasNewer := beforeOrdinal.isSome, loadedTurnCount := 0 }
  else
    let selectedGroups := surface.groups selectedRows
    let turnByOrdinal (ordinal : ℤ) := (selectedGroups.reverse.find? (·.any (·.ordinal = ordinal))).map
      (surface.stableTurnId sessionId)
    let formatted := surface.formatCanonicalChatRows sessionId selectedRows selectedRows false
    let firstOrdinal := earliestOrdinal selectedRows
    some {
      messages     := formatted.map fun m => { m with turnId := (turnByOrdinal m.row.ordinal).or m.turnId }
      hasOlder     := db.hasChatCanonicalMessageBeforeOrdinal sessionId firstOrdinal
      hasNewer     := beforeOrdinal.isSome
      beforeCursor := some firstOrdinal
      afterCursor  := some (latestOrdinal selectedRows)
      loadedTurnCount
      firstTurnId  := selectedGroups.head?.map (surface.stableTurnId sessionId)
      lastTurnId   := selectedGroups.getLast?.map (surface.stableTurnId sessionId) }

-- `build_canonical_chat_turn_window` with `around_turn_id`, which may be the id of no turn
def windowAround (aroundTurnId : String) (neighborTurns : ℤ) : Option Window := do
  let indexRows := surface.getChatCanonicalTurnIndexRows db sessionId
  let entries := surface.buildCanonicalTurnIndexEntries sessionId indexRows
  let anchorIndex ← entries.findIdx? (·.turnId = aroundTurnId)
  let anchorEntry ← entries[anchorIndex]?
  let safeNeighbors := clamp 0 5 neighborTurns
  let windowStart := anchorIndex - safeNeighbors
  let windowEnd := min entries.length (anchorIndex + safeNeighbors + 1)
  let selectedEntries := (entries.take windowEnd).drop windowStart
  match selectedEntries.head?, selectedEntries.getLast? with
  | some first, some last =>
    let selectedRows := db.getChatCanonicalMessagesInOrdinalRange sessionId first.firstOrdinal last.lastOrdinal
    let turnByOrdinal (ordinal : ℤ) := selectedEntries.reverse.find? fun entry =>
      entry.firstOrdinal ≤ ordinal && ordinal ≤ entry.lastOrdinal
    let formatted := surface.formatCanonicalChatRows sessionId selectedRows indexRows true
    some {
      messages            := formatted.map fun m => match turnByOrdinal m.row.ordinal with
        | none       => m
        | some entry => { m with turnId := some entry.turnId, turnPosition := some entry.position }
      hasOlder            := 0 < windowStart
      hasNewer            := windowEnd < entries.length
      beforeCursor        := some first.firstOrdinal
      afterCursor         := some last.lastOrdinal
      loadedTurnCount     := selectedEntries.length
      totalTurnCount      := some entries.length
      firstTurnId         := some first.turnId
      lastTurnId          := some last.turnId
      anchorTurnId        := some anchorEntry.turnId
      anchorPosition      := some anchorEntry.position
      windowStartPosition := some first.position
      windowEndPosition   := some last.position }
  | _, _                  =>
    some {
      messages        := []
      hasOlder        := false
      hasNewer        := !entries.isEmpty
      loadedTurnCount := 0
      totalTurnCount  := some entries.length }

-- No window comes back where a turn is asked for that the session does not have.
def buildCanonicalChatTurnWindow (r : WindowRequest) : Option Window :=
  if strip r.aroundTurnId = "" then surface.windowBefore db sessionId r.beforeOrdinal r.limitTurns r.scanLimit
  else surface.windowAround db sessionId (strip r.aroundTurnId) r.neighborTurns

-- The windows that a client gets that follows the cursor until there is no more, the latest one first
def follow (r : WindowRequest) : ℕ → Option (List Window)
  | 0     => none
  | n + 1 => do
    let window ← surface.buildCanonicalChatTurnWindow db sessionId r
    if window.hasOlder then (window :: ·) <$> follow { r with beforeOrdinal := window.beforeCursor } n
    else some [window]

def windows (limitTurns scanLimit : ℤ) : Option (List Window) :=
  surface.follow db sessionId { limitTurns, scanLimit } ((db.visible sessionId).length + 1)

-- The pages of the index, the latest one first
def followIndex (limitTurns : ℤ) : Option ℤ → ℕ → Option (List IndexPage)
  | _, 0              => none
  | beforePosition, n + 1 =>
    let page := surface.buildCanonicalChatTurnIndex db sessionId beforePosition limitTurns
    if page.hasOlder then (page :: ·) <$> followIndex limitTurns (page.beforeCursor.map (Nat.cast ·)) n
    else some [page]

def index (limitTurns : ℤ) : Option (List IndexPage) :=
  surface.followIndex db sessionId limitTurns none ((db.visible sessionId).length + 1)

end Surface
end Conversation
