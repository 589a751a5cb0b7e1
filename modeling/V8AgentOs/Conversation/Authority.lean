import V8AgentOs.Conversation.Calls

-- The authority of a session over its transcript, over all orders of the calls.
namespace Conversation

open Python (strip)

def conversation (r : Rules) : Transition Database (Moment × Operation) where
  init db := db = .empty
  step db e db' := db' = (perform r e.1 db e.2).getD db

-- A call that needs the current revision of the transcript and the current version of a message of it
structure Granted (db db' : Database) (sessionId messageId : String) (revision version : ℕ) : Prop where
  revision : db.revision sessionId = revision
  version  : ∃ row ∈ db.visible sessionId, row.id = messageId ∧ row.version = version ∧
    ∃ next, db'.messages.get? messageId = some next ∧ row.version < next.version
  epoch    : db.epoch sessionId < db'.epoch sessionId

-- What is promised of a call
structure Lawful (r : Rules) (m : Moment) (db : Database) (o : Operation) (db' : Database) : Prop where
  refused  : perform r m db o = none → db' = db
  revision : ∀ s, db'.visible s ≠ db.visible s → db.revision s < db'.revision s
  revise   : ∀ c, o = .revise c → (perform r m db o).isSome →
    Granted db db' c.sessionId c.messageId c.expectedTranscriptRevision c.expectedMessageVersion
  restore  : ∀ c, o = .restore c → (perform r m db o).isSome →
    Granted db db' c.sessionId c.messageId c.expectedTranscriptRevision c.expectedMessageVersion

-- A run that is behind the epoch of its session
def Fenced (runId : String) (db : Database) : Prop :=
  ∃ run, db.runs.get? runId = some run ∧ run.contextEpoch < db.epoch run.sessionId

-- No message is created or updated for a run.
structure Silent (r : Rules) (runId : String) (db : Database) : Prop where
  create : ∀ m message, message.runId = some runId → perform r m db (.create message) = none
  update : ∀ m u existing, db.messages.get? u.messageId = some existing → existing.runId = some runId →
    perform r m db (.update u) = none

namespace Database

variable {db db' : Database} {sessionId id runId : String} {m : Moment} {r : Rules} {v : Revising} {t : Tombstone}

theorem Sound.empty : Sound .empty := by
  constructor
  case known => exact fun s hs => by cases hs
  case home  => exact fun m hm => by cases hm

theorem messages_recordDeletion (h : db.recordDeletion t = some db') : db'.messages = db.messages := by
  unfold recordDeletion at h
  split at h
  case isTrue => cases h; rfl
  split at h
  case isTrue => cases h
  split at h
  case h_1 => cases h; rfl
  case h_2 => cases h; rfl

theorem messages_bury (h : db.bury m v = some db') : db'.messages = db.messages := by
  unfold bury at h
  generalize v.descendants = ds at h
  induction ds generalizing db
  case nil => cases h; rfl
  case cons d ds hi =>
    rw [List.foldlM_cons, Option.bind_eq_bind, Option.bind_eq_some_iff] at h
    obtain ⟨next, hnext, h⟩ := h
    exact (hi h).trans (messages_recordDeletion hnext)

theorem messages_revise (hr : db.revise m v = some (db', id)) :
    ∃ content, v.content = some content ∧ db'.messages = (db.edit v content m.now).messages := by
  obtain ⟨-, -, content, buried, revisions, events, hcontent, -, hburied, -, hdb, -⟩ := of_revise hr
  have hmessages : db'.messages = buried.messages := hdb ▸ rfl
  exact ⟨content, hcontent, hmessages.trans (messages_bury hburied)⟩

-- The row of a message after its revision
theorem get?_of_revise (ho : v.Owned db) (hr : db.revise m v = some (db', id)) :
    ∃ content, v.content = some content ∧ db'.messages.get? v.row.id = some (v.row.revised content m.now) := by
  obtain ⟨content, hcontent, hmessages⟩ := messages_revise hr
  have hget : db.messages.get? v.row.id = some v.row := Table.get?_of_mem ho.row
  have hedit : (db.edit v content m.now).messages.get? v.row.id = some (v.row.revised content m.now) := by
    show (db.messages.update v.names (·.revised content m.now) fun _ => Message.id_revised).get? v.row.id = _
    simp [hget, Revising.names]
  exact ⟨content, hcontent, by rw [hmessages, hedit]⟩

theorem epoch_of_revise (h : Sound db) (ho : v.Owned db) (hr : db.revise m v = some (db', id)) :
    db.epoch v.sessionId < db'.epoch v.sessionId := by
  obtain ⟨-, -, content, buried, revisions, events, -, -, hburied, -, hdb, -⟩ := of_revise hr
  have hk : db.knows v.sessionId := ho.session ▸ h.home _ ho.row
  have hedit : Sound _ ∧ Moves (· = v.sessionId) db (db.edit v content m.now) := keeps_edit h
  have hbury : Sound buried ∧ Moves (· = v.sessionId) (db.edit v content m.now) buried :=
    keeps_bury hedit.left hburied (stripped_of_knows hk).left
  have hmoves := hedit.right.trans hbury.right
  calc db.epoch v.sessionId
    _ ≤ buried.epoch v.sessionId := hmoves.epoch _
    _ < (buried.rotate v.sessionId ("conversation_" ++ m.ids 0)).epoch v.sessionId :=
      epoch_rotate hbury.left (hmoves.known _ hk)
    _ = db'.epoch v.sessionId := by rw [hdb]; rfl

theorem granted_of_revise (h : Sound db) (ho : v.Owned db) (hv : v.row ∈ db.visible v.sessionId)
    (hr : db.revise m v = some (db', id)) :
    Granted db db' v.sessionId v.row.id (db.revision v.sessionId) v.row.version := by
  obtain ⟨content, -, hget⟩ := get?_of_revise ho hr
  exact ⟨rfl, ⟨v.row, hv, rfl, rfl, _, hget, Nat.lt_succ_self _⟩, epoch_of_revise h ho hr⟩

theorem granted_of_reviseMessage (h : Sound db) {c : Revise} (hr : db.reviseMessage m c = some (db', id)) :
    Granted db db' c.sessionId c.messageId c.expectedTranscriptRevision c.expectedMessageVersion := by
  simp only [reviseMessage, Option.bind_eq_bind] at hr
  split at hr
  case isTrue => cases hr
  case isFalse =>
    obtain ⟨row, hrow, hr⟩ := Option.bind_eq_some_iff.mp hr
    split at hr
    case isTrue => cases hr
    case isFalse hexpected =>
      have hv := List.mem_of_find?_eq_some hrow
      have hid : row.id = c.messageId := by simpa using List.find?_some hrow
      have hmem := mem_visible.mp hv
      have hexpected : db.revision c.sessionId = c.expectedTranscriptRevision ∧
          c.expectedMessageVersion = row.version := by
        simpa [expected] using hexpected
      rw [← hid, ← hexpected.left, hexpected.right]
      exact granted_of_revise h ⟨hmem.left, hmem.right.left⟩ hv hr

theorem granted_of_restoreRevision (h : Sound db) {c : Restore} (hr : db.restoreRevision m c = some (db', id)) :
    Granted db db' c.sessionId c.messageId c.expectedTranscriptRevision c.expectedMessageVersion := by
  obtain ⟨ledger, row, -, -, -, hrow, hrevision, hversion, -, hr⟩ := of_restoreRevision hr
  have hv := List.mem_of_find?_eq_some hrow
  have hid : row.id = c.messageId := by simpa using List.find?_some hrow
  have hmem := mem_visible.mp hv
  have hrevived : Sound _ ∧ Moves (fun _ => False) db
      (db.deleteTombstones (superseding c.sessionId ledger.supersededIds)) := keeps_deleteTombstones h
  obtain ⟨content, -, hget⟩ := get?_of_revise ⟨hmem.left, hmem.right.left⟩ hr
  have hepoch := epoch_of_revise hrevived.left ⟨hmem.left, hmem.right.left⟩ hr
  have hbefore := hrevived.right.epoch c.sessionId
  rw [← hid, ← hversion, ← hrevision]
  exact ⟨rfl, ⟨row, hv, rfl, rfl, _, hget, Nat.lt_succ_self _⟩, hbefore.trans_lt hepoch⟩

theorem keeps_step (h : Sound db) (hs : (conversation r).step db e db') : Keeps db db' := by
  cases hp : perform r e.1 db e.2
  case none =>
    have hs : db' = db := by simpa [conversation, hp] using hs
    subst hs
    exact ⟨h, .refl _⟩
  case some next =>
    have hs : db' = next := by simpa [conversation, hp] using hs
    exact hs ▸ keeps_perform h hp

theorem Sound.of_reachable (h : (conversation r).Reachable db) : Sound db := by
  apply h.invariant
  case h₀ => exact fun db hdb => hdb ▸ .empty
  case hI => exact fun _ _ _ h hs => (keeps_step h hs).sound

-- The epoch of a run stays the one that it was made with.
theorem fenced_of_moves (h : Fenced runId db) (hm : Moves (fun _ => False) db db') : Fenced runId db' := by
  obtain ⟨run, hrun, hlt⟩ := h
  obtain ⟨next, hnext, hs, he⟩ := hm.runs _ _ hrun
  refine ⟨next, hnext, ?_⟩
  rw [hs, he]
  exact hlt.trans_le (hm.epoch _)

theorem keeps_run (h : Sound db) (hr : (conversation r).Run db es db') : Keeps db db' := by
  induction hr
  case refl => exact ⟨h, .refl _⟩
  case trans hs _ hi =>
    have hstep := keeps_step h hs
    exact hstep.trans (hi hstep.sound)

theorem runCurrent_of_fenced (h : Fenced runId db) : db.runCurrent sessionId (some runId) = false := by
  obtain ⟨run, hrun, hlt⟩ := h
  have hne : runId ≠ "" := Table.key_of_get? hrun ▸ run.named
  have hnot : ¬(run.sessionId = sessionId ∧ run.contextEpoch = db.epoch sessionId) := by
    intro hs
    rw [hs.left] at hlt
    exact Nat.ne_of_lt hlt hs.right
  simpa [runCurrent, hne, hrun] using hnot

theorem silent_of_fenced (h : Fenced runId db) : Silent r runId db := by
  constructor
  case create =>
    intro m message hrun
    simp [perform, Database.create, hrun, runCurrent_of_fenced h]
  case update =>
    intro m u existing hget hrun
    simp [perform, Database.update, hget, hrun, runCurrent_of_fenced h]

end Database

open Database

theorem lawful_perform {db : Database} (h : Sound db) (r : Rules) (m : Moment) (o : Operation) :
    Lawful r m db o ((perform r m db o).getD db) := by
  cases hp : perform r m db o
  case none =>
    constructor
    case refused  => exact fun _ => rfl
    case revision => exact fun s hs => absurd rfl hs
    case revise   => exact fun c _ hs => by simp [hp] at hs
    case restore  => exact fun c _ hs => by simp [hp] at hs
  case some next =>
    constructor
    case refused  => exact fun hn => by simp [hp] at hn
    case revision => exact fun s hs => ((keeps_perform h hp).moves.visible s id).resolve_left hs
    case revise =>
      intro c hc _
      subst hc
      obtain ⟨⟨revised, id⟩, hr, hnext⟩ := Option.map_eq_some_iff.mp hp
      subst hnext
      exact granted_of_reviseMessage h hr
    case restore =>
      intro c hc _
      subst hc
      obtain ⟨⟨restored, id⟩, hr, hnext⟩ := Option.map_eq_some_iff.mp hp
      subst hnext
      exact granted_of_restoreRevision h hr

-- The main result: every call is lawful, and the runs that an epoch has left behind never write again.
theorem authority_holds (r : Rules) {db db' : Database} {es : List (Moment × Operation)}
    (h : (conversation r).Reachable db) (hr : (conversation r).Run db es db') :
    (∀ m o, Lawful r m db o ((perform r m db o).getD db)) ∧ ∀ runId, Fenced runId db → Silent r runId db' := by
  have hsound : Sound db := .of_reachable h
  constructor
  case left  => exact lawful_perform hsound r
  case right => exact fun runId hf => silent_of_fenced (fenced_of_moves hf (keeps_run hsound hr).moves)

def performAll (r : Rules) (db : Database) (es : List (Moment × Operation)) : Database :=
  es.foldl (fun db e => (perform r e.1 db e.2).getD db) db

theorem run_performAll (r : Rules) (db : Database) (es : List (Moment × Operation)) :
    (conversation r).Run db es (performAll r db es) := by
  induction es generalizing db
  case nil          => exact .refl
  case cons e es hi => exact .trans rfl (hi _)

section Sample

def sampleRules : Rules where
  text            := Python.asciiText
  turnId _ m      := m.id
  branchTitle s _ := s
  inherited _ m   := (m.nodes, m.artifacts, m.metadata)

def sampleMoment (tag : String) : Moment where
  now      := tag
  idle     := true
  ids _    := tag
  copies _ := ⟨"copy", by decide⟩
  child    := ⟨"child", by decide⟩

def sampleMessage (id role content : String) (ordinal : ℤ) (runId : Option String) (trimmed : strip id = id)
    (named : id ≠ "") : Message where
  id            := id
  sessionId     := "s"
  runId         := runId
  ordinal       := ordinal
  role          := role
  state         := "completed"
  nodes         := [[("id", .str id), ("kind", .str "narrative"), ("content", .str content)]]
  artifacts     := []
  contentText   := some content
  reasoningText := none
  metadata      := []
  version       := 1
  createdAt     := ""
  updatedAt     := ""
  finalizedAt   := none
  trimmed       := trimmed
  named         := named

def sampleSession : Session :=
  ⟨"s", "t", "u", by decide, by decide⟩

-- A question and its answer, which a run gave
def answeredCalls : List (Moment × Operation) :=
  [(sampleMoment "1", .createSession sampleSession),
    (sampleMoment "2", .createRun "r" "s" (by decide)),
    (sampleMoment "3", .create (sampleMessage "a" "user" "hi" 1 none (by decide) (by decide))),
    (sampleMoment "4", .create (sampleMessage "b" "assistant" "hello" 2 (some "r") (by decide) (by decide)))]

-- The question is revised, and the answer goes.
def revisedCall : Moment × Operation :=
  (sampleMoment "5", .revise {
    sessionId                  := "s"
    messageId                  := "a"
    owner                      := "u"
    content                    := "why"
    expectedMessageVersion     := 1
    expectedTranscriptRevision := 2
    tailPolicy                 := .truncate })

def askedCall : Moment × Operation :=
  (sampleMoment "6", .create (sampleMessage "c" "user" "and" 3 none (by decide) (by decide)))

def behind (runId : String) (db : Database) : Bool :=
  (db.runs.get? runId).any fun run => run.contextEpoch < db.epoch run.sessionId

theorem authority_holds_sample : ∃ db db' : Database,
    (db.visible "s").map (fun m => (m.id, m.contentText)) = [("a", some "why")] ∧
    (db'.visible "s").map (fun m => (m.id, m.contentText)) = [("a", some "why"), ("c", some "and")] ∧
    Fenced "r" db ∧ (∀ m o, Lawful sampleRules m db o ((perform sampleRules m db o).getD db)) ∧
      Silent sampleRules "r" db' := by
  have hempty : (conversation sampleRules).Reachable .empty := .init rfl
  have hrevised := hempty.run (run_performAll sampleRules .empty (answeredCalls ++ [revisedCall]))
  obtain ⟨hlawful, hsilent⟩ := authority_holds sampleRules hrevised (run_performAll sampleRules _ [askedCall])
  have hbehind : behind "r" (performAll sampleRules .empty (answeredCalls ++ [revisedCall])) := by
    decide +kernel
  obtain ⟨run, hrun, hlt⟩ := (Option.any_eq_true _ _).mp hbehind
  have hfenced : Fenced "r" _ := ⟨run, hrun, of_decide_eq_true hlt⟩
  refine ⟨_, _, ?_, ?_, hfenced, hlawful, hsilent "r" hfenced⟩
  case _ => decide +kernel
  case _ => decide +kernel

end Sample
end Conversation
