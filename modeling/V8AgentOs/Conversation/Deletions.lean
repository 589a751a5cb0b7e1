import V8AgentOs.Conversation.Tombstones

-- What the calls do to the deletions of a session.
namespace Conversation

open Python (Dict Json Text strip)

namespace Database

variable {db db' db₁ : Database} {s sessionId id now : String} {m row : Message} {t : Tombstone} {v : Revising}

-- A deletion by the user
structure Erases (db db' : Database) : Prop where
  evolves   : Evolves db db'
  rows      : ∀ m ∈ db'.messages.rows, m ∈ db.messages.rows
  erased    : ∀ m ∈ db.messages.rows, m ∈ db'.messages.rows ∨ db'.Buried m.sessionId m.id
  marks     : ∀ s id, db'.mark s id = db.mark s id ∨ db'.Buried s id
  revisions : db'.revisions = db.revisions

theorem Erases.of_eq (h : Backed db) (hm : db'.messages = db.messages) (ht : db'.tombstones = db.tombstones)
    (hr : db'.revisions = db.revisions) : Erases db db' := by
  constructor
  case evolves   => exact .of_eq h ht hm
  case rows      => exact fun m hmem => hm ▸ hmem
  case erased    => exact fun m hmem => .inl (hm ▸ hmem)
  case marks     => exact fun s id => .inl (by rw [mark, ht, mark])
  case revisions => exact hr

theorem Recorded.marks (h : Recorded t db db') (hsource : t.source ≠ .conversationRevision) (s id : String) :
    db'.mark s id = db.mark s id ∨ db'.Buried s id := by
  unfold Buried
  rw [h.mark]
  split
  case isTrue  => exact .inr ⟨t.source, rfl, hsource⟩
  case isFalse => exact .inl rfl

-- A deletion that names no message
theorem erases_of_recordDeletion (h : Backed db) (hr : db.recordDeletion t = some db')
    (hc : t.canonicalMessageId = none) (hsource : t.source ≠ .conversationRevision) : Erases db db' := by
  cases recorded_or_blank hr
  case inl hr => rw [hr.right]; exact .of_eq h rfl rfl rfl
  case inr hr =>
    constructor
    case rows      => exact fun m hm => hr.messages ▸ hm
    case erased    => exact fun m hm => .inl (hr.messages ▸ hm)
    case marks     => exact hr.marks hsource
    case revisions => exact hr.revisions
    case evolves =>
      apply Evolves.of_recorded h hr
      case hc      => exact fun c h => by rw [hc] at h; cases h
      case hsource => exact fun h => absurd h hsource
      case hb      => exact fun h => absurd h hsource

-- The row of a message goes, and a deletion bears its id.
theorem erases_of_row (hmem : row ∈ db.messages.rows) (hbacked : Backed db')
    (hburied : ∀ s id, db.Buried s id → db'.Buried s id) (hrow : db'.Buried row.sessionId row.id)
    (hm : db'.messages = db.messages.delete (·.id = row.id))
    (hmarks : ∀ s id, db'.mark s id = db.mark s id ∨ db'.Buried s id) (hr : db'.revisions = db.revisions) :
    Erases db db' := by
  have hrows : ∀ m, m ∈ db'.messages.rows ↔ m ∈ db.messages.rows ∧ m.id ≠ row.id := by
    intro m
    rw [hm]
    simp [Table.delete]
  have herased : ∀ m ∈ db.messages.rows, m ∈ db'.messages.rows ∨ db'.Buried m.sessionId m.id := by
    intro m hm
    by_cases hid : m.id = row.id
    case neg => exact .inl ((hrows m).mpr ⟨hm, hid⟩)
    case pos =>
      have hget : db.messages.get? m.id = some m := Table.get?_of_mem hm
      have hget' : db.messages.get? row.id = some row := Table.get?_of_mem hmem
      have hsame : m = row := Option.some.inj (hget.symm.trans (hid ▸ hget'))
      exact .inr (hsame ▸ hrow)
  constructor
  case rows      => exact fun m hm => ((hrows m).mp hm).left
  case erased    => exact herased
  case marks     => exact hmarks
  case revisions => exact hr
  case evolves =>
    refine ⟨hbacked, hburied, fun m hm => ?_⟩
    cases herased m hm
    case inl hm => exact .inr ⟨m, hm, rfl, rfl, rfl⟩
    case inr hb => exact .inl hb

-- `DELETE` of a message and its deletion
theorem erases_of_deleteMessages (h : Backed db) (hmem : row ∈ db.messages.rows)
    (hr : Recorded t (db.deleteMessages (·.id = row.id)) db') (hs : strip t.sessionId = row.sessionId)
    (hid : strip t.messageId = row.id) (hc : t.canonicalMessageId = some row.id)
    (hsource : t.source ≠ .conversationRevision) : Erases db db' := by
  have hdeleted : Backed (db.deleteMessages (·.id = row.id)) := h.of_eq rfl
  have hburied : ∀ s id, db.Buried s id → db'.Buried s id := fun s id hb => hr.buried (buried_of_eq rfl hb) hsource
  apply erases_of_row hmem
  case hburied => exact hburied
  case hrow    => exact ⟨t.source, by rw [hr.mark, if_pos ⟨hs, hid⟩], hsource⟩
  case hm      => exact hr.messages
  case hmarks  => exact hr.marks hsource
  case hr      => exact hr.revisions
  case hbacked =>
    constructor
    case revised => exact hr.revised hdeleted.revised fun h => absurd h hsource
    case backs =>
      have hbacks := hr.backs hdeleted.backs fun c hc' => .inl (by rw [hc] at hc'; cases hc'; exact hid.symm)
      exact hbacks.mono fun s id hb => hr.buried hb hsource

-- The same under another id
theorem erases_of_recordAlias (h : Backed db) (hmem : row ∈ db.messages.rows)
    (hr : (db.deleteMessages (·.id = row.id)).recordAlias now sessionId id row = some db')
    (hs : strip sessionId = row.sessionId) (hne : row.sessionId ≠ "") (hid : strip id = id) (hidne : id ≠ "") :
    Erases db db' := by
  simp only [recordAlias, Option.bind_eq_bind, Option.bind_eq_some_iff] at hr
  obtain ⟨recorded, hrecorded, hr⟩ := hr
  have hrecorded := (recorded_or_blank hrecorded).resolve_left fun hblank => by
    cases hblank.left
    case inl h => exact hne (hs.symm.trans h)
    case inr h => exact hidne (hid.symm.trans h)
  split at hr
  case isTrue he =>
    cases hr
    exact erases_of_deleteMessages h hmem hrecorded hs (hid.trans he) rfl (by simp)
  case isFalse he =>
    have hr := (recorded_or_blank hr).resolve_left fun hblank => by
      cases hblank.left
      case inl h => exact hne (hs.symm.trans h)
      case inr h => exact row.named (row.trimmed.symm.trans h)
    have hrow : db'.Buried row.sessionId row.id :=
      ⟨.canonicalProjectionAlias, by rw [hr.mark, if_pos ⟨hs, row.trimmed⟩], by simp⟩
    have hkept : ∀ s id, recorded.Buried s id → db'.Buried s id := fun s id hb => hr.buried hb (by simp)
    have hburied : ∀ s id, db.Buried s id → db'.Buried s id := fun s id hb =>
      hkept s id (hrecorded.buried (buried_of_eq rfl hb) (by simp))
    have hdeleted : Backed (db.deleteMessages (·.id = row.id)) := h.of_eq rfl
    apply erases_of_row hmem
    case hburied => exact hburied
    case hrow    => exact hrow
    case hm      => exact hr.messages.trans hrecorded.messages
    case hr      => exact hr.revisions.trans hrecorded.revisions
    case hmarks =>
      intro s id
      cases hr.marks (by simp) s id
      case inr hb => exact .inr hb
      case inl he =>
        cases hrecorded.marks (by simp) s id
        case inl he' => exact .inl (he.trans he')
        case inr hb  => exact .inr (hkept s id hb)
    case hbacked =>
      constructor
      case revised =>
        apply hr.revised
        case hb => exact hrecorded.revised hdeleted.revised fun h => by cases h
        case ht => exact fun h => by cases h
      case backs =>
        have hfinal : ∀ s id, (db.deleteMessages (·.id = row.id)).Buried s id → db'.Buried s id := fun s id hb =>
          hburied s id (buried_of_eq rfl hb)
        apply hr.backs
        case hB =>
          apply hrecorded.backs (hdeleted.backs.mono hfinal)
          intro c hc
          cases hc
          exact .inr (hs.symm ▸ hrow)
        case ht =>
          intro c hc
          cases hc
          exact .inl row.trimmed.symm

theorem erases_deleteMessage (hsound : Sound db) (h : Backed db) {text : Text} {messageId : String}
    (hd : db.deleteMessage text now messageId sessionId = some db') : Erases db db' := by
  simp only [deleteMessage] at hd
  split at hd
  case isTrue => cases hd; exact .of_eq h rfl rfl rfl
  have hid : strip messageId ≠ "" := ‹_›
  split at hd
  case h_1 =>
    have hfirst : Evolves db { db with legacy := db.legacy.delete (·.id = strip messageId) } := .of_eq h rfl rfl
    have he := erases_of_recordDeletion hfirst.backed hd rfl (by simp)
    exact ⟨hfirst.trans he.evolves, he.rows, he.erased, he.marks, he.revisions⟩
  split at hd
  case h_1 found hfound =>
    have hmem := Table.mem_of_get? hfound
    have hkey : found.id = strip messageId := Table.key_of_get? hfound
    obtain ⟨hstrip, hne⟩ := stripped_of_knows (hsound.home found hmem)
    rw [← hkey] at hd
    have hr := (recorded_or_blank hd).resolve_left fun hblank => by
      cases hblank.left
      case inl h => rw [firstNonempty_of_ne hne, hstrip] at h; exact hne h
      case inr h => exact found.named (found.trimmed.symm.trans h)
    exact erases_of_deleteMessages h hmem hr (by rw [firstNonempty_of_ne hne, hstrip]) found.trimmed rfl (by simp)
  split at hd
  case h_1 found hfound =>
    obtain ⟨hmem, hsession⟩ := aliased_eq hfound
    obtain ⟨-, hne⟩ := stripped_of_knows (hsound.home found hmem)
    exact erases_of_recordAlias h hmem hd (by rw [Python.strip_strip, hsession]) hne (Python.strip_strip _) hid
  split at hd
  case h_1 => exact erases_of_recordDeletion h hd rfl (by simp)
  split at hd
  case isTrue  => cases hd; exact .of_eq h rfl rfl rfl
  case isFalse => exact erases_of_recordDeletion h hd rfl (by simp)

-- Messages that are marked as superseded
structure Supersedes (s : String) (ids : List String) (db db' : Database) : Prop where
  evolves : Evolves db db'
  marks   : ∀ s' id, db'.mark s' id = if s' = s ∧ id ∈ ids then some .conversationRevision else db.mark s' id

theorem Supersedes.nil (h : Evolves db db') (hm : ∀ s id, db'.mark s id = db.mark s id) : Supersedes s [] db db' :=
  ⟨h, fun s' id => by simp [hm]⟩

theorem Supersedes.not_buried {ids : List String} (h : Supersedes s ids db db') (hb : ¬db.Buried sessionId id) :
    ¬db'.Buried sessionId id := by
  intro hburied
  unfold Buried at hburied
  rw [h.marks] at hburied
  split at hburied
  case isFalse => exact hb hburied
  case isTrue =>
    obtain ⟨source, hsource, hne⟩ := hburied
    exact hne (Option.some.inj hsource).symm

theorem supersedes_buryDescendant (h : Backed db) {anchorId : String} (hs : strip s = s ∧ s ≠ "")
    (hb : ¬db.Buried s row.id) (hr : db.buryDescendant now s anchorId row = some db') :
    Supersedes s [row.id] db db' ∧ db'.revisions = db.revisions := by
  have hr := (recorded_or_blank hr).resolve_left fun hblank => by
    cases hblank.left
    case inl h => exact hs.right (hs.left.symm.trans h)
    case inr h => exact row.named (row.trimmed.symm.trans h)
  refine ⟨⟨?_, ?_⟩, hr.revisions⟩
  case _ =>
    apply Evolves.of_recorded h hr
    case hc      => exact fun c hc => by cases hc; exact row.trimmed.symm
    case hsource => exact fun _ => congrArg some row.trimmed.symm
    case hb      => exact fun _ => by rw [hs.left, row.trimmed]; exact hb
  case _ =>
    intro s' id
    rw [hr.mark]
    simp only [hs.left, row.trimmed, List.mem_singleton, eq_comm]

theorem supersedes_bury (h : Backed db) (hs : strip v.sessionId = v.sessionId ∧ v.sessionId ≠ "")
    (hfree : ∀ d ∈ v.descendants, ¬db.Buried v.sessionId d.id) {moment : Moment} (hb : db.bury moment v = some db') :
    Supersedes v.sessionId (v.descendants.map (·.id)) db db' ∧ db'.revisions = db.revisions := by
  unfold bury at hb
  generalize v.descendants = ds at hb hfree
  induction ds generalizing db
  case nil => cases hb; exact ⟨.nil (.refl h) fun _ _ => rfl, rfl⟩
  case cons d ds hi =>
    rw [List.foldlM_cons, Option.bind_eq_bind, Option.bind_eq_some_iff] at hb
    obtain ⟨next, hnext, hb⟩ := hb
    obtain ⟨hfirst, hrevisions⟩ := supersedes_buryDescendant h hs (hfree d List.mem_cons_self) hnext
    obtain ⟨hrest, hrevisions'⟩ := hi hfirst.evolves.backed hb
      fun d hd => hfirst.not_buried (hfree d (List.mem_cons_of_mem _ hd))
    refine ⟨⟨hfirst.evolves.trans hrest.evolves, fun s' id => ?_⟩, hrevisions'.trans hrevisions⟩
    rw [hrest.marks, hfirst.marks]
    by_cases hs' : s' = v.sessionId
    case neg => simp [hs']
    case pos =>
      by_cases hid : id ∈ ds.map (·.id)
      case pos => simp only [hs', hid, List.map_cons, List.mem_cons, or_true, and_true, if_true]
      case neg => simp only [hs', hid, List.map_cons, List.mem_cons, List.not_mem_nil, or_false, and_false, if_false]

theorem mark_eq (h : db'.tombstones = db.tombstones) (s id : String) : db'.mark s id = db.mark s id := by
  rw [mark, h, mark]

theorem buried_iff_of_mark (h : ∀ s id, db'.mark s id = db.mark s id) : db'.Buried s id ↔ db.Buried s id := by
  rw [Buried, h, Buried]

-- What a revision does to the deletions, and the row that it leaves of itself
theorem supersedes_revise (h : Backed db) (hs : strip v.sessionId = v.sessionId ∧ v.sessionId ≠ "")
    (hfree : ∀ d ∈ v.descendants, ¬db.Buried v.sessionId d.id) {moment : Moment}
    (hr : db.revise moment v = some (db', id)) :
    Supersedes v.sessionId (v.descendants.map (·.id)) db db' ∧ ∃ ledger : Revision,
      db'.revisions.rows = db.revisions.rows ++ [ledger] ∧ ledger.revisionId = id ∧ ledger.sessionId = v.sessionId ∧
      ledger.messageId = v.row.id ∧ ledger.previousSnapshot = v.row ∧
      ledger.supersededIds = v.descendants.map (·.id) := by
  obtain ⟨-, -, content, buried, revisions, events, -, -, hburied, hrevisions, hdb, hid⟩ := of_revise hr
  have hedit : Evolves db (db.edit v content moment.now) := .of_update h (fun _ => rfl) (fun _ => rfl)
  have hfree' : ∀ d ∈ v.descendants, ¬(db.edit v content moment.now).Buried v.sessionId d.id := fun d hd =>
    (buried_iff_of_mark (mark_eq rfl)).not.mpr (hfree d hd)
  obtain ⟨hbury, hkept⟩ := supersedes_bury hedit.backed hs hfree' hburied
  have hlast : Evolves buried db' := .of_eq hbury.evolves.backed (hdb ▸ rfl) (hdb ▸ rfl)
  have hmark : ∀ s id, db'.mark s id = buried.mark s id := mark_eq (hdb ▸ rfl)
  constructor
  case left =>
    refine ⟨(hedit.trans hbury.evolves).trans hlast, fun s' id => ?_⟩
    rw [hmark, hbury.marks]
    rfl
  case right =>
    let rotated := buried.rotate v.sessionId ("conversation_" ++ moment.ids 0)
    have hkept : rotated.revisions = db.revisions := hkept
    have hrows : db'.revisions = revisions := hdb ▸ rfl
    refine ⟨v.ledger moment content db rotated, ?_, hid.symm, rfl, rfl, rfl, rfl⟩
    rw [hrows, Table.rows_of_insert hrevisions, hkept]

-- Messages that are no longer marked as superseded
structure Revives (s : String) (ids : List String) (db db' : Database) : Prop where
  evolves : Evolves db db'
  marks   : ∀ s' id, db'.mark s' id =
    if s' = s ∧ id ∈ ids ∧ db.mark s' id = some .conversationRevision then none else db.mark s' id

theorem mark_deleteTombstones (h : Backed db) {ids : List String} (s' id : String) :
    (db.deleteTombstones (superseding s ids)).mark s' id =
      if s' = s ∧ id ∈ ids ∧ db.mark s' id = some .conversationRevision then none else db.mark s' id := by
  have hget : (db.deleteTombstones (superseding s ids)).tombstones.get? (s', id) =
      (db.tombstones.get? (s', id)).filter fun t => !superseding s ids t := Table.get?_delete
  unfold mark
  rw [hget]
  cases ht : db.tombstones.get? (s', id)
  case none => simp
  case some t =>
    have hkey : t.key = (s', id) := Table.key_of_get? ht
    have hs : t.sessionId = s' := congrArg Prod.fst hkey
    have hid : t.messageId = id := congrArg Prod.snd hkey
    have hcanonical := h.revised t (Table.mem_of_get? ht)
    by_cases hsource : t.source = .conversationRevision
    case neg => simp [Option.filter, superseding, hsource]
    case pos =>
      by_cases hi : s' = s ∧ id ∈ ids
      case pos => simp [Option.filter, superseding, hsource, hs, hid, hcanonical hsource, hi]
      case neg =>
        have hnot : superseding s ids t = false := by simpa [superseding, hsource, hs, hid, hcanonical hsource] using hi
        have hcond : ¬(s' = s ∧ id ∈ ids ∧ (some t).map (·.source) = some .conversationRevision) := fun hc =>
          hi ⟨hc.left, hc.right.left⟩
        rw [if_neg hcond]
        simp [Option.filter, hnot]

theorem revives_deleteTombstones (h : Backed db) {ids : List String} :
    Revives s ids db (db.deleteTombstones (superseding s ids)) := by
  have hburied : ∀ s' id, db.Buried s' id → (db.deleteTombstones (superseding s ids)).Buried s' id := by
    intro s' id hb
    obtain ⟨source, hsource, hne⟩ := hb
    refine ⟨source, ?_, hne⟩
    rw [mark_deleteTombstones h, if_neg, hsource]
    intro hc
    exact hne (Option.some.inj (hsource.symm.trans hc.right.right))
  have hrows : ∀ t ∈ (db.deleteTombstones (superseding s ids)).tombstones.rows, t ∈ db.tombstones.rows := fun t ht =>
    List.mem_of_mem_filter ht
  refine ⟨⟨⟨?_, ?_⟩, hburied, fun m hm => .inr ⟨m, hm, rfl, rfl, rfl⟩⟩, mark_deleteTombstones h⟩
  case _ => exact fun t ht c hc => (h.backs t (hrows t ht) c hc).imp_right (hburied _ _)
  case _ => exact fun t ht => h.revised t (hrows t ht)

section Calls

variable {moment : Moment}

-- What is visible is not marked.
theorem mark_of_visible (h : Backed db) (hm : m ∈ db.visible s) : db.mark s m.id = none := by
  obtain ⟨-, hs, hhidden⟩ := mem_visible.mp hm
  rw [hidden_eq h, hs] at hhidden
  exact Option.not_isSome_iff_eq_none.mp (by simp [hhidden])

theorem not_buried_of_visible (h : Backed db) (hm : m ∈ db.visible s) : ¬db.Buried s m.id := by
  intro hb
  obtain ⟨source, hsource, -⟩ := hb
  rw [mark_of_visible h hm] at hsource
  cases hsource

-- What a revision of the user has found
theorem of_reviseMessage {c : Revise} (hr : db.reviseMessage moment c = some (db', id)) : ∃ row,
    (db.visible c.sessionId).find? (·.id = c.messageId) = some row ∧ db.revise moment {
      sessionId := c.sessionId
      owner     := c.owner
      row
      rows      := db.visible c.sessionId
      content   := some c.content
      truncate  := c.tailPolicy = .truncate
      mode      := if c.tailPolicy = .truncate then "replace_and_truncate" else "in_place" } = some (db', id) := by
  simp only [reviseMessage, Option.bind_eq_bind] at hr
  split at hr
  case isTrue => cases hr
  case isFalse =>
    obtain ⟨row, hrow, hr⟩ := Option.bind_eq_some_iff.mp hr
    split at hr
    case isTrue  => cases hr
    case isFalse => exact ⟨row, hrow, hr⟩

-- A revision of a message that is visible, with all that is visible
theorem supersedes_of_visible (hsound : Sound db) (h : Backed db) (hrows : v.rows = db.visible v.sessionId)
    (hrow : v.row ∈ v.rows) (hr : db.revise moment v = some (db', id)) :
    Supersedes v.sessionId (v.descendants.map (·.id)) db db' ∧ ∃ ledger : Revision,
      db'.revisions.rows = db.revisions.rows ++ [ledger] ∧ ledger.revisionId = id ∧ ledger.sessionId = v.sessionId ∧
      ledger.messageId = v.row.id ∧ ledger.previousSnapshot = v.row ∧
      ledger.supersededIds = v.descendants.map (·.id) := by
  have hmem := mem_visible.mp (hrows ▸ hrow)
  have hk : db.knows v.sessionId := hmem.right.left ▸ hsound.home _ hmem.left
  have hfree : ∀ d ∈ v.descendants, ¬db.Buried v.sessionId d.id := fun d hd =>
    not_buried_of_visible h (hrows ▸ List.mem_of_mem_filter hd)
  exact supersedes_revise h (stripped_of_knows hk) hfree hr

-- A restoration revises without a tail.
theorem supersedes_of_restore (hsound : Sound db) (h : Backed db) {c : Restore}
    (hr : db.restoreRevision moment c = some (db', id)) :
    ∃ ledger revived, db.revisions.get? c.revisionId = some ledger ∧
      Revives c.sessionId ledger.supersededIds db revived ∧ Supersedes c.sessionId [] revived db' := by
  obtain ⟨ledger, row, hledger, -, -, hrow, -, -, -, hr⟩ := of_restoreRevision hr
  have hmem := mem_visible.mp (List.mem_of_find?_eq_some hrow)
  have hk : db.knows c.sessionId := hmem.right.left ▸ hsound.home _ hmem.left
  have hrevives : Revives c.sessionId ledger.supersededIds db _ := revives_deleteTombstones h
  have hnil := (of_revise hr).right.left rfl
  have hsuper := (supersedes_revise hrevives.evolves.backed (stripped_of_knows hk) (by rw [hnil]; simp) hr).left
  rw [hnil] at hsuper
  exact ⟨ledger, _, hledger, hrevives, hsuper⟩

theorem evolves_insertCopies (h : Backed db) {r : Rules} {rows : List Message}
    (hr : db.insertCopies r moment rows = some db') : Evolves db db' := by
  unfold insertCopies at hr
  generalize rows.zipIdx.map _ = copies at hr
  induction copies generalizing db
  case nil => cases hr; exact .refl h
  case cons row rows hi =>
    rw [List.foldlM_cons, Option.bind_eq_bind, Option.bind_eq_some_iff] at hr
    obtain ⟨next, hnext, hr⟩ := hr
    have hfirst : Evolves db next := .of_insert h hnext
    exact hfirst.trans (hi hfirst.backed hr)

theorem evolves_insertEvent (h : Backed db) {topic : String} (hi : db.insertEvent id sessionId topic = some db') :
    Evolves db db' := by
  obtain ⟨events, -, hi⟩ := Option.bind_eq_some_iff.mp hi
  cases hi
  exact .of_eq h rfl rfl

theorem evolves_insertSession (h : Backed db) {session : Session} (hi : db.insertSession session = some db') :
    Evolves db db' := by
  obtain ⟨sessions, -, hi⟩ := Option.bind_eq_some_iff.mp hi
  cases hi
  exact .of_eq h rfl rfl

theorem evolves_openBranch (h : Backed db) {r : Rules} {c : CreateBranch} {found : Found}
    (ho : db.openBranch r moment c found = some db') : Evolves db db' := by
  simp only [openBranch, Option.bind_eq_bind, Option.bind_eq_some_iff] at ho
  obtain ⟨opened, hopened, branches, -, ho⟩ := ho
  cases ho
  have hopen := evolves_insertSession h hopened
  exact hopen.trans (.of_eq hopen.backed rfl rfl)

theorem evolves_reviseCopy (hsound : Sound db) (h : Backed db) {c : CreateBranch} {anchor : Message}
    (hr : db.reviseCopy moment c anchor = some db') : Evolves db db' := by
  unfold reviseCopy at hr
  split at hr
  case h_1 => cases hr; exact .refl h
  case h_2 =>
    simp only [Option.bind_eq_bind, Option.bind_eq_some_iff] at hr
    obtain ⟨row, hrow, revised, hrevised, hr⟩ := hr
    cases hr
    exact (supersedes_of_visible hsound h rfl (List.mem_of_find?_eq_some hrow) hrevised).left.evolves

theorem evolves_createBranch (hsound : Sound db) (h : Backed db) {r : Rules} {c : CreateBranch}
    (hc : db.createBranch r moment c = some db') : Evolves db db' := by
  simp only [createBranch, Option.bind_eq_bind, Option.bind_eq_some_iff] at hc
  obtain ⟨found, -, opened, hopened, filled, hfilled, revised, hrevised, told, htold, hc⟩ := hc
  have hopen := evolves_openBranch h hopened
  have hfill := evolves_insertCopies hopen.backed hfilled
  let rotated := filled.rotate moment.child.val ("conversation_" ++ moment.ids 3)
  have hrotate : Evolves filled rotated := .of_eq hfill.backed rfl rfl
  have hkeeps := keeps_insertCopies (keeps_openBranch hsound hopened).sound hfilled
  have hrotated : Sound rotated ∧ Moves (fun _ => False) filled rotated := keeps_rotate hkeeps.sound
  have hrevise := evolves_reviseCopy hrotated.left hrotate.backed hrevised
  have htell := evolves_insertEvent hrevise.backed htold
  exact ((((hopen.trans hfill).trans hrotate).trans hrevise).trans htell).trans (evolves_insertEvent htell.backed hc)

theorem evolves_perform (hsound : Sound db) (h : Backed db) {r : Rules} {o : Operation}
    (hp : perform r moment db o = some db') : Evolves db db' := by
  cases o
  case create message =>
    simp only [perform, create] at hp
    split at hp
    case isTrue  => cases hp
    case isFalse => exact .of_insert h hp
  case update arguments =>
    simp only [perform, update, Option.bind_eq_bind] at hp
    obtain ⟨existing, -, hp⟩ := Option.bind_eq_some_iff.mp hp
    split at hp
    case isTrue => cases hp
    split at hp
    case isTrue  => cases hp
    case isFalse => cases hp; exact .of_update h (fun _ => rfl) (fun _ => rfl)
  case delete => exact (erases_deleteMessage hsound h hp).evolves
  case revise =>
    obtain ⟨⟨next, id⟩, hr, hp⟩ := Option.map_eq_some_iff.mp hp
    cases hp
    obtain ⟨row, hrow, hr⟩ := of_reviseMessage hr
    exact (supersedes_of_visible hsound h rfl (List.mem_of_find?_eq_some hrow) hr).left.evolves
  case restore =>
    obtain ⟨⟨next, id⟩, hr, hp⟩ := Option.map_eq_some_iff.mp hp
    cases hp
    obtain ⟨ledger, revived, -, hrevives, hsuper⟩ := supersedes_of_restore hsound h hr
    exact hrevives.evolves.trans hsuper.evolves
  case branch => exact evolves_createBranch hsound h hp
  case createRun runId sessionId named =>
    simp only [perform, Database.createRun, Option.bind_eq_bind] at hp
    split at hp
    case isTrue => cases hp
    case isFalse =>
      obtain ⟨runs, -, hp⟩ := Option.bind_eq_some_iff.mp hp
      cases hp
      let orphaned := db.updateMessages (fun m => m.runId = some runId) (fun m => { m with runId := none }) fun _ => rfl
      have horphaned : Evolves db orphaned := .of_update h (by exact fun _ => rfl) (by exact fun _ => rfl)
      exact horphaned.trans (.of_eq horphaned.backed rfl rfl)
  case createSession => exact evolves_insertSession h hp
  case addMessage =>
    simp only [perform, Option.bind_eq_bind, Option.bind_eq_some_iff] at hp
    obtain ⟨legacy, -, hp⟩ := hp
    cases hp
    exact .of_eq h rfl rfl
  case emit =>
    simp only [perform, Option.bind_eq_bind, Option.bind_eq_some_iff] at hp
    obtain ⟨events, -, hp⟩ := hp
    cases hp
    exact .of_eq h rfl rfl

end Calls
end Database
end Conversation
