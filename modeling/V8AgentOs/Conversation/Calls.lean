import V8AgentOs.Conversation.Revisions
import V8AgentOs.Lib.Transition

-- What the calls keep: each of them is a row of statements.
namespace Conversation

open Python (Dict Json Text strip)

namespace Database

variable {db db' db₁ : Database} {s sessionId id revisionId : String} {m : Moment} {row : Message} {v : Revising}
  {r : Rules}

-- What a call keeps
structure Keeps (db db' : Database) : Prop where
  sound : Sound db'
  moves : Moves (fun _ => False) db db'

theorem Keeps.trans (h₁ : Keeps db db₁) (h₂ : Keeps db₁ db') : Keeps db db' :=
  ⟨h₂.sound, h₁.moves.trans h₂.moves⟩

theorem Keeps.of_update (h : Sound db) {p : Message → Bool} {f : Message → Message} {hf : ∀ m, (f m).id = m.id}
    (hs : ∀ m, (f m).sessionId = m.sessionId) : Keeps db (db.updateMessages p f hf) := by
  obtain ⟨hsound, hmoves⟩ := keeps_updateMessages h hs
  exact ⟨hsound, hmoves⟩

-- A session has an id that `strip` leaves as it is.
theorem stripped_of_knows (h : db.knows s) : strip s = s ∧ s ≠ "" := by
  obtain ⟨session, hsession⟩ := Option.isSome_iff_exists.mp h
  have hid : session.id = s := Table.key_of_get? hsession
  exact hid ▸ ⟨session.trimmed, session.named⟩

theorem firstNonempty_of_ne (h : s ≠ "") : firstNonempty s sessionId = s := by
  simp [firstNonempty, h]

-- Statements that only touch other tables
theorem Sound.of_eq (h : Sound db) (hsessions : db'.sessions = db.sessions) (hstates : db'.states = db.states)
    (hmessages : db'.messages = db.messages) : Sound db' := by
  constructor
  case known => exact fun s hs => hstates ▸ h.known s (by simpa [knows, hsessions] using hs)
  case home =>
    intro m hm
    simpa [knows, hsessions] using h.home m (hmessages ▸ hm)

-- After a statement that makes a new revision of a session, messages of it may come to be hidden or visible.
theorem Keeps.of_revision (loose : String → Prop) (h₁ : Sound db₁ ∧ Moves loose db db₁)
    (hr : ∀ s, loose s → db.revision s < db₁.revision s) (h₂ : Sound db' ∧ Moves loose db₁ db') : Keeps db db' := by
  refine ⟨h₂.left, (h₁.right.trans h₂.right).tighten fun s hs => ?_⟩
  exact (hr s hs).trans_le (h₂.right.revision s)

theorem aliased_eq {text : Text} (h : db.aliased text s id = some row) :
    row ∈ db.messages.rows ∧ row.sessionId = s := by
  unfold aliased at h
  split at h
  case isTrue => cases h
  case isFalse =>
    have hmem := List.mem_of_find?_eq_some h
    simpa using hmem

-- `DELETE` of a message, and what comes after it in its session
theorem Keeps.of_delete (h : Sound db) (hmem : row ∈ db.messages.rows)
    (h₂ : Sound (db.deleteMessages (·.id = row.id)) → Sound db' ∧
      Moves (· = row.sessionId) (db.deleteMessages (·.id = row.id)) db') : Keeps db db' := by
  have hfirst : Sound _ ∧ Moves (· = row.sessionId) db (db.deleteMessages (·.id = row.id)) := keeps_deleteMessages h
  exact .of_revision _ hfirst (fun s hs => hs ▸ revision_of_count h hmem (by simp)) (h₂ hfirst.left)

theorem keeps_recordAlias (h : Sound db) {now : String} (hr : db.recordAlias now sessionId id row = some db')
    {loose : String → Prop} (hloose : loose (strip sessionId)) : Sound db' ∧ Moves loose db db' := by
  simp only [recordAlias, Option.bind_eq_bind, Option.bind_eq_some_iff] at hr
  obtain ⟨recorded, hrecorded, hr⟩ := hr
  obtain ⟨hsound, hmoves⟩ := keeps_recordDeletion h hrecorded (.inr hloose)
  split at hr
  case isTrue => cases hr; exact ⟨hsound, hmoves⟩
  case isFalse =>
    obtain ⟨hsound', hmoves'⟩ := keeps_recordDeletion hsound hr (.inr hloose)
    exact ⟨hsound', hmoves.trans hmoves'⟩

theorem keeps_deleteMessage (h : Sound db) {text : Text} {now messageId : String}
    (hd : db.deleteMessage text now messageId sessionId = some db') : Keeps db db' := by
  simp only [deleteMessage] at hd
  split at hd
  case isTrue => cases hd; exact ⟨h, .refl _⟩
  split at hd
  case h_1 legacy _ =>
    have hfirst : Moves (fun _ => False) db { db with legacy := db.legacy.delete (·.id = strip messageId) } :=
      .of_eq rfl rfl rfl rfl rfl
    have hother : Sound { db with legacy := db.legacy.delete (·.id = strip messageId) } := h.of_eq rfl rfl rfl
    obtain ⟨hsound, hmoves⟩ := keeps_recordDeletion hother hd (.inl rfl)
    exact ⟨hsound, hfirst.trans hmoves⟩
  split at hd
  case h_1 row hrow =>
    have hmem := Table.mem_of_get? hrow
    obtain ⟨hstrip, hne⟩ := stripped_of_knows (h.home row hmem)
    rw [← Table.key_of_get? hrow] at hd
    apply Keeps.of_delete h hmem
    intro hsound
    exact keeps_recordDeletion hsound hd (.inr (by rw [firstNonempty_of_ne hne, hstrip]))
  split at hd
  case h_1 row hrow =>
    obtain ⟨hmem, hsession⟩ := aliased_eq hrow
    apply Keeps.of_delete h hmem
    intro hsound
    exact keeps_recordAlias hsound hd (by rw [Python.strip_strip, hsession])
  split at hd
  case h_1 =>
    obtain ⟨hsound, hmoves⟩ := keeps_recordDeletion h hd (.inl rfl)
    exact ⟨hsound, hmoves⟩
  split at hd
  case isTrue => cases hd; exact ⟨h, .refl _⟩
  case isFalse =>
    obtain ⟨hsound, hmoves⟩ := keeps_recordDeletion h hd (.inl rfl)
    exact ⟨hsound, hmoves⟩

-- What a revision has found and what it has done
theorem of_revise (h : db.revise m v = some (db', id)) : v.row.editable ∧
    (v.truncate = false → v.descendants = []) ∧ ∃ content buried revisions events, v.content = some content ∧
      db.messages.any v.names ∧ (db.edit v content m.now).bury m v = some buried ∧
      (buried.rotate v.sessionId ("conversation_" ++ m.ids 0)).revisions.insert?
        (v.ledger m content db (buried.rotate v.sessionId ("conversation_" ++ m.ids 0))) = some revisions ∧
      db' = { buried.rotate v.sessionId ("conversation_" ++ m.ids 0) with revisions, events } ∧
      id = "revision_" ++ m.ids 1 := by
  simp only [revise, Option.bind_eq_bind] at h
  split at h
  case isTrue => cases h
  case isFalse hguard =>
    simp only [Bool.or_eq_true, not_or, Bool.not_eq_true', Bool.not_eq_false, Bool.and_eq_true] at hguard
    obtain ⟨content, hcontent, h⟩ := Option.bind_eq_some_iff.mp h
    split at h
    case isTrue => cases h
    case isFalse hany =>
      simp only [insertEvent, Option.bind_eq_bind, Option.bind_eq_some_iff] at h
      obtain ⟨buried, hburied, revisions, hrevisions, told, ⟨events, hevents, htold⟩, h⟩ := h
      cases htold
      cases h
      refine ⟨hguard.left, fun ht => ?_, content, buried, revisions, events, hcontent, by simpa using hany, hburied,
        hrevisions, rfl, rfl⟩
      simpa [ht] using hguard.right

theorem keeps_edit (h : Sound db) {content now : String} {loose : String → Prop} :
    Sound (db.edit v content now) ∧ Moves loose db (db.edit v content now) := by
  apply keeps_updateMessages h
  exact fun _ => rfl

theorem keeps_bury (h : Sound db) (hb : db.bury m v = some db') {loose : String → Prop}
    (hloose : loose (strip v.sessionId)) : Sound db' ∧ Moves loose db db' := by
  unfold bury at hb
  generalize v.descendants = ds at hb
  induction ds generalizing db
  case nil => cases hb; exact ⟨h, .refl _⟩
  case cons d ds hi =>
    rw [List.foldlM_cons, Option.bind_eq_bind, Option.bind_eq_some_iff] at hb
    obtain ⟨next, hnext, hb⟩ := hb
    obtain ⟨hsound, hmoves⟩ := keeps_recordDeletion h hnext (.inr hloose)
    obtain ⟨hsound', hmoves'⟩ := hi hsound hb
    exact ⟨hsound', hmoves.trans hmoves'⟩

-- A row that the session has
structure Revising.Owned (v : Revising) (db : Database) : Prop where
  row     : v.row ∈ db.messages.rows
  session : v.row.sessionId = v.sessionId

theorem keeps_revise (h : Sound db) (ho : v.Owned db) (hr : db.revise m v = some (db', id)) : Keeps db db' := by
  obtain ⟨-, -, content, buried, revisions, events, -, -, hburied, -, hdb, -⟩ := of_revise hr
  have hk : db.knows v.sessionId := ho.session ▸ h.home _ ho.row
  have hedit : Sound _ ∧ Moves (· = v.sessionId) db (db.edit v content m.now) := keeps_edit h
  apply Keeps.of_revision _ hedit
  case hr =>
    intro s hs
    subst hs
    rw [← ho.session]
    exact revision_of_count h ho.row (by simp [Revising.names])
  case h₂ =>
    have hbury : Sound buried ∧ Moves (· = v.sessionId) (db.edit v content m.now) buried :=
      keeps_bury hedit.left hburied (stripped_of_knows hk).left
    have hrotate : Sound _ ∧ Moves (· = v.sessionId) buried (buried.rotate v.sessionId ("conversation_" ++ m.ids 0)) :=
      keeps_rotate hbury.left
    subst hdb
    exact ⟨hrotate.left.of_eq rfl rfl rfl, (hbury.right.trans hrotate.right).trans (.of_eq rfl rfl rfl rfl rfl)⟩

theorem keeps_reviseMessage (h : Sound db) {c : Revise} (hr : db.reviseMessage m c = some (db', id)) :
    Keeps db db' := by
  simp only [reviseMessage, Option.bind_eq_bind] at hr
  split at hr
  case isTrue => cases hr
  case isFalse =>
    obtain ⟨row, hrow, hr⟩ := Option.bind_eq_some_iff.mp hr
    split at hr
    case isTrue => cases hr
    case isFalse =>
      have hmem := mem_visible.mp (List.mem_of_find?_eq_some hrow)
      exact keeps_revise h ⟨hmem.left, hmem.right.left⟩ hr

-- What a restoration has found
theorem of_restoreRevision {c : Restore} (hr : db.restoreRevision m c = some (db', id)) : ∃ ledger row,
    db.revisions.get? c.revisionId = some ledger ∧ ledger.sessionId = c.sessionId ∧ ledger.messageId = c.messageId ∧
      (db.visible c.sessionId).find? (·.id = c.messageId) = some row ∧
      db.revision c.sessionId = c.expectedTranscriptRevision ∧ row.version = c.expectedMessageVersion ∧
      (ledger.supersededIds ≠ [] → ∀ other ∈ db.visible c.sessionId, ¬row.ordinal < other.ordinal) ∧
      (db.deleteTombstones (superseding c.sessionId ledger.supersededIds)).revise m {
        sessionId := c.sessionId
        owner     := c.owner
        row
        rows      := db.visible c.sessionId
        content   := ledger.previousSnapshot.contentText
        truncate  := false
        mode      := "restore" } = some (db', id) := by
  simp only [restoreRevision, Option.bind_eq_bind] at hr
  split at hr
  case isTrue => cases hr
  obtain ⟨ledger, hledger, hr⟩ := Option.bind_eq_some_iff.mp hr
  split at hr
  case isTrue => cases hr
  case isFalse hnames =>
    obtain ⟨row, hrow, hr⟩ := Option.bind_eq_some_iff.mp hr
    split at hr
    case isTrue => cases hr
    case isFalse hexpected =>
      split at hr
      case isTrue => cases hr
      case isFalse htail =>
        simp only [not_or, not_not] at hnames
        have hexpected : db.revision c.sessionId = c.expectedTranscriptRevision ∧
            c.expectedMessageVersion = row.version := by
          simpa [expected] using hexpected
        refine ⟨ledger, row, hledger, hnames.left, hnames.right, hrow, hexpected.left, hexpected.right.symm, ?_, hr⟩
        intro hne other hother hlt
        have hany : (db.visible c.sessionId).any (row.ordinal < ·.ordinal) :=
          List.any_eq_true.mpr ⟨other, hother, decide_eq_true hlt⟩
        simp [hne, hany] at htail

theorem keeps_restoreRevision (h : Sound db) {c : Restore} (hr : db.restoreRevision m c = some (db', id)) :
    Keeps db db' := by
  obtain ⟨ledger, row, -, -, -, hrow, -, -, -, hr⟩ := of_restoreRevision hr
  have hmem := mem_visible.mp (List.mem_of_find?_eq_some hrow)
  obtain ⟨hsound, hmoves⟩ := keeps_deleteTombstones (p := superseding c.sessionId ledger.supersededIds) h
  exact .trans ⟨hsound, hmoves⟩ (keeps_revise hsound ⟨hmem.left, hmem.right.left⟩ hr)

theorem keeps_insertEvent (h : Sound db) {topic : String} (hi : db.insertEvent id sessionId topic = some db') :
    Keeps db db' := by
  obtain ⟨events, -, hi⟩ := Option.bind_eq_some_iff.mp hi
  cases hi
  exact ⟨h.of_eq rfl rfl rfl, .of_eq rfl rfl rfl rfl rfl⟩

theorem keeps_openBranch (h : Sound db) {c : CreateBranch} {found : Found}
    (ho : db.openBranch r m c found = some db') : Keeps db db' := by
  simp only [openBranch, Option.bind_eq_bind, Option.bind_eq_some_iff] at ho
  obtain ⟨opened, hopened, branches, -, ho⟩ := ho
  cases ho
  obtain ⟨hsound, hmoves⟩ := keeps_insertSession h hopened
  exact ⟨hsound.of_eq rfl rfl rfl, hmoves.trans (.of_eq rfl rfl rfl rfl rfl)⟩

theorem keeps_insertCopies (h : Sound db) {rows : List Message} (hr : db.insertCopies r m rows = some db') :
    Keeps db db' := by
  unfold insertCopies at hr
  generalize rows.zipIdx.map _ = copies at hr
  induction copies generalizing db
  case nil => cases hr; exact ⟨h, .refl _⟩
  case cons row rows hi =>
    rw [List.foldlM_cons, Option.bind_eq_bind, Option.bind_eq_some_iff] at hr
    obtain ⟨next, hnext, hr⟩ := hr
    obtain ⟨hsound, hmoves⟩ := keeps_insertMessage h hnext
    exact .trans ⟨hsound, hmoves⟩ (hi hsound hr)

theorem keeps_reviseCopy (h : Sound db) {c : CreateBranch} {anchor : Message}
    (hr : db.reviseCopy m c anchor = some db') : Keeps db db' := by
  unfold reviseCopy at hr
  split at hr
  case h_1 => cases hr; exact ⟨h, .refl _⟩
  case h_2 =>
    simp only [Option.bind_eq_bind, Option.bind_eq_some_iff] at hr
    obtain ⟨row, hrow, revised, hrevised, hr⟩ := hr
    cases hr
    have hmem := mem_visible.mp (List.mem_of_find?_eq_some hrow)
    exact keeps_revise h ⟨hmem.left, hmem.right.left⟩ hrevised

theorem keeps_createBranch (h : Sound db) {c : CreateBranch} (hc : db.createBranch r m c = some db') :
    Keeps db db' := by
  simp only [createBranch, Option.bind_eq_bind, Option.bind_eq_some_iff] at hc
  obtain ⟨found, -, opened, hopened, filled, hfilled, revised, hrevised, told, htold, hc⟩ := hc
  have hopen := keeps_openBranch h hopened
  have hfill := keeps_insertCopies hopen.sound hfilled
  have hrotate : Keeps filled (filled.rotate m.child.val ("conversation_" ++ m.ids 3)) := by
    obtain ⟨hsound, hmoves⟩ := keeps_rotate hfill.sound
    exact ⟨hsound, hmoves⟩
  have hrevise := keeps_reviseCopy hrotate.sound hrevised
  have htell := keeps_insertEvent hrevise.sound htold
  exact ((((hopen.trans hfill).trans hrotate).trans hrevise).trans htell).trans (keeps_insertEvent htell.sound hc)

theorem keeps_createRun (h : Sound db) {runId : String} {named : runId ≠ ""}
    (hc : db.createRun runId sessionId named = some db') : Keeps db db' := by
  simp only [createRun, Option.bind_eq_bind] at hc
  split at hc
  case isTrue => cases hc
  case isFalse hcurrent =>
    obtain ⟨runs, hinsert, hc⟩ := Option.bind_eq_some_iff.mp hc
    cases hc
    let orphaned := db.updateMessages (fun m => m.runId = some runId) (fun m => { m with runId := none }) fun _ => rfl
    have horphaned : Keeps db orphaned := .of_update h (by exact fun _ => rfl)
    obtain ⟨hsound, hmoves⟩ := horphaned
    refine ⟨hsound.of_eq rfl rfl rfl, hmoves.trans (moves_runs fun id run hrun => ?_)⟩
    have hrun : db.runs.get? id = some run := hrun
    rw [Table.get?_insert hinsert, Table.get?_delete, hrun]
    by_cases hid : runId = id
    case neg =>
      have hkey : run.id = id := Table.key_of_get? hrun
      exact ⟨run, by simp [hid, hkey, Option.filter, Ne.symm hid], rfl, rfl⟩
    case pos =>
      subst hid
      have hcurrent : db.runCurrent sessionId (some runId) := by simpa [hrun] using hcurrent
      simp only [runCurrent, hrun, Option.any_some, Bool.or_eq_true, decide_eq_true_eq, Bool.and_eq_true] at hcurrent
      obtain ⟨hsession, hepoch⟩ := hcurrent.resolve_left named
      exact ⟨_, if_pos rfl, hsession.symm, hepoch.symm⟩

theorem keeps_perform (h : Sound db) {o : Operation} (hp : perform r m db o = some db') : Keeps db db' := by
  cases o
  case create message =>
    simp only [perform, create] at hp
    split at hp
    case isTrue  => cases hp
    case isFalse =>
      obtain ⟨hsound, hmoves⟩ := keeps_insertMessage h hp
      exact ⟨hsound, hmoves⟩
  case update arguments =>
    simp only [perform, update, Option.bind_eq_bind] at hp
    obtain ⟨existing, -, hp⟩ := Option.bind_eq_some_iff.mp hp
    split at hp
    case isTrue => cases hp
    split at hp
    case isTrue => cases hp
    case isFalse =>
      cases hp
      apply Keeps.of_update h
      exact fun _ => rfl
  case delete => exact keeps_deleteMessage h hp
  case revise =>
    obtain ⟨⟨next, id⟩, hr, hp⟩ := Option.map_eq_some_iff.mp hp
    cases hp
    exact keeps_reviseMessage h hr
  case restore =>
    obtain ⟨⟨next, id⟩, hr, hp⟩ := Option.map_eq_some_iff.mp hp
    cases hp
    exact keeps_restoreRevision h hr
  case branch    => exact keeps_createBranch h hp
  case createRun => exact keeps_createRun h hp
  case createSession =>
    obtain ⟨hsound, hmoves⟩ := keeps_insertSession h hp
    exact ⟨hsound, hmoves⟩
  case addMessage =>
    simp only [perform, Option.bind_eq_bind, Option.bind_eq_some_iff] at hp
    obtain ⟨legacy, -, hp⟩ := hp
    cases hp
    exact ⟨h.of_eq rfl rfl rfl, .of_eq rfl rfl rfl rfl rfl⟩
  case emit =>
    simp only [perform, Option.bind_eq_bind, Option.bind_eq_some_iff] at hp
    obtain ⟨events, -, hp⟩ := hp
    cases hp
    exact ⟨h.of_eq rfl rfl rfl, .of_eq rfl rfl rfl rfl rfl⟩

end Database
end Conversation
