import V8AgentOs.Conversation.Recovery

-- What the statements of a transaction do to the revision of a session and to what is visible of it.
namespace Conversation

open Python (Dict Json Text strip)

namespace Database

variable {db db' : Database} {s sessionId : String} {rows : String → ℕ} {p : Message → Bool} {f : Message → Message}
  {m : Message} {t : Tombstone}

-- What the schema promises: a session has its row of the transcript state, and a message its session.
structure Sound (db : Database) : Prop where
  known : ∀ s, db.knows s → (db.states s).isSome
  home  : ∀ m ∈ db.messages.rows, db.knows m.sessionId

-- What every statement keeps. A session counts as loose where its messages may come to be visible or hidden without a
-- new revision.
structure Moves (loose : String → Prop) (db db' : Database) : Prop where
  known    : ∀ s, db.knows s → db'.knows s
  revision : ∀ s, db.revision s ≤ db'.revision s
  epoch    : ∀ s, db.epoch s ≤ db'.epoch s
  visible  : ∀ s, ¬loose s → db'.visible s = db.visible s ∨ db.revision s < db'.revision s
  runs     : ∀ id run, db.runs.get? id = some run → ∃ next, db'.runs.get? id = some next ∧
    next.sessionId = run.sessionId ∧ next.contextEpoch = run.contextEpoch

namespace Moves

variable {loose : String → Prop} {db₁ db₂ db₃ : Database}

theorem refl (db : Database) : Moves loose db db :=
  ⟨fun _ => id, fun _ => Nat.le_refl _, fun _ => Nat.le_refl _, fun _ _ => .inl rfl, fun _ run h => ⟨run, h, rfl, rfl⟩⟩

theorem trans (h₁ : Moves loose db₁ db₂) (h₂ : Moves loose db₂ db₃) : Moves loose db₁ db₃ := by
  constructor
  case known    => exact fun s h => h₂.known s (h₁.known s h)
  case revision => exact fun s => (h₁.revision s).trans (h₂.revision s)
  case epoch    => exact fun s => (h₁.epoch s).trans (h₂.epoch s)
  case visible =>
    intro s hs
    cases h₁.visible s hs
    case inr h => exact .inr (h.trans_le (h₂.revision s))
    case inl h =>
      cases h₂.visible s hs
      case inl h' => exact .inl (h'.trans h)
      case inr h' => exact .inr ((h₁.revision s).trans_lt h')
  case runs =>
    intro id run h
    obtain ⟨next, hnext, hs, he⟩ := h₁.runs id run h
    obtain ⟨last, hlast, hs', he'⟩ := h₂.runs id next hnext
    exact ⟨last, hlast, hs'.trans hs, he'.trans he⟩

-- A session with a new revision may be loose.
theorem tighten (h : Moves loose db db') (hr : ∀ s, loose s → db.revision s < db'.revision s) {loose' : String → Prop} :
    Moves loose' db db' := by
  constructor
  case known    => exact h.known
  case revision => exact h.revision
  case epoch    => exact h.epoch
  case runs     => exact h.runs
  case visible =>
    intro s _
    by_cases hs : loose s
    case pos => exact .inr (hr s hs)
    case neg => exact h.visible s hs

-- Statements that only touch other tables
theorem of_eq (hsessions : db'.sessions = db.sessions) (hstates : db'.states = db.states)
    (hmessages : db'.messages = db.messages) (htombstones : db'.tombstones = db.tombstones)
    (hruns : db'.runs = db.runs) : Moves loose db db' := by
  have hstate : ∀ s, db'.transcriptState s = db.transcriptState s := fun s => by simp [transcriptState, hstates]
  constructor
  case known    => exact fun s h => by simpa [knows, hsessions] using h
  case revision => exact fun s => by simp [Database.revision, hstate]
  case epoch    => exact fun s => by simp [Database.epoch, hstate]
  case visible  => exact fun s _ => .inl (by simp [Database.visible, hidden, hmessages, htombstones])
  case runs     => exact fun id run h => ⟨run, by rw [hruns, h], rfl, rfl⟩

end Moves

theorem transcriptState_bump : (db.bump rows).transcriptState s = if (db.states s).isSome
    then { db.transcriptState s with transcriptRevision := db.revision s + rows s } else db.transcriptState s := by
  cases h : db.states s
  case none   => simp [transcriptState, bump, h]
  case some _ => simp [transcriptState, Database.revision, bump, h]

theorem revision_bump : (db.bump rows).revision s = db.revision s + if (db.states s).isSome then rows s else 0 := by
  rw [Database.revision, transcriptState_bump]
  cases (db.states s).isSome
  case true  => simp
  case false => simp [Database.revision]

theorem epoch_bump : (db.bump rows).epoch s = db.epoch s := by
  rw [Database.epoch, transcriptState_bump]
  cases (db.states s).isSome
  case true  => simp [Database.epoch]
  case false => simp [Database.epoch]

theorem Sound.bump (h : Sound db) : Sound (db.bump rows) := by
  constructor
  case home  => exact h.home
  case known => exact fun s hs => by simpa [Database.bump] using h.known s hs

-- Statements on the messages and the deletions, with their triggers: where no row of a session is counted, what is
-- visible of it stays.
theorem moves_bump (h : Sound db) {messages : Table Message.id} {tombstones : Table Tombstone.key}
    {loose : String → Prop}
    (hvisible : ∀ s, ¬loose s → rows s = 0 → ({ db with messages, tombstones } : Database).visible s = db.visible s)
    (hunknown : ∀ s, ¬db.knows s → ({ db with messages, tombstones } : Database).visible s = db.visible s) :
    Moves loose db ({ db with messages, tombstones }.bump rows) := by
  have hrevision : ∀ s, ({ db with messages, tombstones } : Database).revision s = db.revision s := fun _ => rfl
  constructor
  case known => exact fun s hs => hs
  case revision =>
    intro s
    rw [revision_bump, hrevision]
    exact Nat.le_add_right _ _
  case epoch => exact fun s => by rw [epoch_bump]; exact Nat.le_refl _
  case runs  => exact fun id run hr => ⟨run, hr, rfl, rfl⟩
  case visible =>
    intro s hs
    by_cases hk : db.knows s
    case neg => exact .inl (hunknown s hk)
    case pos =>
      by_cases hr : rows s = 0
      case pos => exact .inl (hvisible s hs hr)
      case neg =>
        rw [revision_bump, hrevision]
        simp only [h.known s hk, if_true]
        exact .inr (Nat.lt_add_of_pos_right (Nat.pos_of_ne_zero hr))

-- Whether a message is one of the visible ones of a session
def shows (db : Database) (s : String) (m : Message) : Bool :=
  m.sessionId = s && !db.hidden m

theorem visible_congr (h : db'.messages.rows.filter (db'.shows s) = db.messages.rows.filter (db.shows s)) :
    db'.visible s = db.visible s :=
  congrArg (List.insertionSort _) h

theorem mem_visible : m ∈ db.visible s ↔ m ∈ db.messages.rows ∧ m.sessionId = s ∧ db.hidden m = false := by
  simp [visible]

theorem Sound.visible_eq_nil (h : Sound db) (hs : ¬db.knows s) : db.visible s = [] := by
  apply List.eq_nil_iff_forall_not_mem.mpr
  intro m hm
  obtain ⟨hm, hms, -⟩ := mem_visible.mp hm
  exact hs (hms ▸ h.home m hm)

theorem not_mem_of_count (h : db.countMessages p s = 0) (hm : m ∈ db.messages.rows) (hs : m.sessionId = s) :
    p m = false := by
  have hn := List.countP_eq_zero.mp h m hm
  simpa [hs] using hn

-- `UPDATE` and `DELETE` of messages
theorem keeps_updateMessages (h : Sound db) {hf : ∀ m, (f m).id = m.id} (hs : ∀ m, (f m).sessionId = m.sessionId)
    {loose : String → Prop} :
    Sound (db.updateMessages p f hf) ∧ Moves loose db (db.updateMessages p f hf) := by
  have hhome : ∀ m ∈ (db.messages.update p f hf).rows, db.knows m.sessionId := by
    intro m hm
    obtain ⟨prior, hprior, hm⟩ := List.mem_map.mp hm
    subst hm
    split
    case isTrue  => exact hs prior ▸ h.home prior hprior
    case isFalse => exact h.home prior hprior
  have hsound : Sound { db with messages := db.messages.update p f hf } := ⟨h.known, hhome⟩
  refine ⟨hsound.bump, ?_⟩
  unfold updateMessages
  apply moves_bump h
  case hunknown => exact fun s hk => by rw [h.visible_eq_nil hk, hsound.visible_eq_nil hk]
  case hvisible =>
    intro s _ hcount
    apply visible_congr
    apply Rows.filter_map_of_untouched
    intro m hm
    cases hp : p m
    case false => exact .inl (by simp)
    case true =>
      have hne : m.sessionId ≠ s := by
        intro hms
        have := not_mem_of_count hcount hm hms
        rw [hp] at this
        cases this
      exact .inr ⟨by simp [shows, hne], by simp [shows, hs, hne]⟩

theorem keeps_deleteMessages (h : Sound db) {loose : String → Prop} :
    Sound (db.deleteMessages p) ∧ Moves loose db (db.deleteMessages p) := by
  have hsound : Sound { db with messages := db.messages.delete p } :=
    ⟨h.known, fun m hm => h.home m (List.mem_of_mem_filter hm)⟩
  refine ⟨hsound.bump, ?_⟩
  unfold deleteMessages
  apply moves_bump h
  case hunknown => exact fun s hk => by rw [h.visible_eq_nil hk, hsound.visible_eq_nil hk]
  case hvisible =>
    intro s _ hcount
    apply visible_congr
    apply Rows.filter_filter_of_untouched
    intro m hm hp
    have hp : p m = true := by simpa using hp
    have hne : m.sessionId ≠ s := by
      intro hms
      have := not_mem_of_count hcount hm hms
      rw [hp] at this
      cases this
    simp [shows, hne]

-- A statement on a message of a session makes a new revision of the session.
theorem revision_of_count (h : Sound db) (hm : m ∈ db.messages.rows) (hp : p m) {messages : Table Message.id} :
    db.revision m.sessionId < ({ db with messages }.bump (db.countMessages p)).revision m.sessionId := by
  rw [revision_bump, h.known _ (h.home m hm), if_pos rfl]
  exact Nat.lt_add_of_pos_right (List.countP_pos_iff.mpr ⟨m, hm, by simp [hp]⟩)

theorem keeps_insertMessage (h : Sound db) (hi : db.insertMessage m = some db') {loose : String → Prop} :
    Sound db' ∧ Moves loose db db' := by
  simp only [insertMessage, Option.bind_eq_bind] at hi
  split at hi
  case isTrue => cases hi
  split at hi
  case isTrue => cases hi
  case isFalse hk _ =>
    have hk : db.knows m.sessionId := by
      cases hk' : db.knows m.sessionId
      case true  => rfl
      case false => exact absurd (by simp [hk']) hk
    obtain ⟨messages, hmessages, hi⟩ := Option.bind_eq_some_iff.mp hi
    cases hi
    have hrows := Table.rows_of_insert hmessages
    have hsound : Sound { db with messages } := by
      constructor
      case known => exact h.known
      case home =>
        intro other hother
        cases List.mem_append.mp (hrows ▸ hother)
        case inl ho => exact h.home other ho
        case inr ho => exact List.mem_singleton.mp ho ▸ hk
    refine ⟨hsound.bump, ?_⟩
    unfold bumpOne
    apply moves_bump h
    case hunknown => exact fun s hks => by rw [h.visible_eq_nil hks, hsound.visible_eq_nil hks]
    case hvisible =>
      intro s _ hcount
      have hne : m.sessionId ≠ s := by
        intro hms
        simp [hms] at hcount
      apply visible_congr
      show messages.rows.filter _ = _
      rw [hrows, List.filter_append, List.filter_singleton]
      have : ({ db with messages } : Database).shows s m = false := by simp [shows, hne]
      simp [this]
      rfl

theorem Sound.of_tombstones (h : Sound db) (tombstones : Table Tombstone.key) : Sound { db with tombstones } :=
  ⟨h.known, h.home⟩

theorem visible_of_hidden {tombstones : Table Tombstone.key}
    (h : ∀ m, m.sessionId = s → tombstones.any (·.hides m) = db.hidden m) :
    ({ db with tombstones } : Database).visible s = db.visible s := by
  apply visible_congr
  apply List.filter_congr
  intro m _
  by_cases hm : m.sessionId = s
  case neg => simp [shows, hm]
  case pos => simp [shows, hm, hidden, h m hm]

-- Deletions that are changed without a trigger
theorem moves_tombstones {tombstones : Table Tombstone.key} {loose : String → Prop}
    (hv : ∀ s, ¬loose s → ({ db with tombstones } : Database).visible s = db.visible s) :
    Moves loose db { db with tombstones } :=
  ⟨fun _ h => h, fun _ => Nat.le_refl _, fun _ => Nat.le_refl _, fun s hs => .inl (hv s hs),
    fun _ run h => ⟨run, h, rfl, rfl⟩⟩

theorem moves_runs {runs : Table Run.id} {loose : String → Prop}
    (h : ∀ id run, db.runs.get? id = some run → ∃ next, runs.get? id = some next ∧
      next.sessionId = run.sessionId ∧ next.contextEpoch = run.contextEpoch) : Moves loose db { db with runs } :=
  ⟨fun _ h => h, fun _ => Nat.le_refl _, fun _ => Nat.le_refl _, fun _ _ => .inl rfl, h⟩

-- A deletion that is there may come to hide another message, if the new one names it.
theorem keeps_recordDeletion (h : Sound db) (hr : db.recordDeletion t = some db') {loose : String → Prop}
    (hloose : t.canonicalMessageId = none ∨ loose (strip t.sessionId)) : Sound db' ∧ Moves loose db db' := by
  unfold recordDeletion at hr
  split at hr
  case isTrue => cases hr; exact ⟨h, .refl _⟩
  split at hr
  case isTrue => cases hr
  split at hr
  case h_1 tombstones hinsert =>
    cases hr
    refine ⟨(h.of_tombstones _).bump, ?_⟩
    unfold bumpOne
    apply moves_bump h
    case hunknown => exact fun s hs => by rw [h.visible_eq_nil hs, (h.of_tombstones tombstones).visible_eq_nil hs]
    case hvisible =>
      intro s _ hcount
      have hne : strip t.sessionId ≠ s := by
        intro hs
        simp [hs] at hcount
      apply visible_of_hidden
      intro m hm
      rw [Table.any_insert hinsert]
      simp [Tombstone.normalized, Tombstone.hides, hm, hne, hidden]
  case h_2 =>
    cases hr
    refine ⟨h.of_tombstones _, moves_tombstones fun s hs => visible_of_hidden fun m hm => ?_⟩
    apply Table.any_update
    intro old hold
    have hkey : old.sessionId = strip t.sessionId := congrArg Prod.fst (of_decide_eq_true hold)
    cases hloose
    case inl hnone => simp [mergeTombstone, Tombstone.normalized, Tombstone.hides, hnone]
    case inr hl =>
      have hne : old.sessionId ≠ m.sessionId := by
        intro he
        exact hs (hm ▸ he ▸ hkey ▸ hl)
      simp [mergeTombstone, Tombstone.hides, hne]

theorem keeps_deleteTombstones {p : Tombstone → Bool} (h : Sound db) {loose : String → Prop} :
    Sound (db.deleteTombstones p) ∧ Moves loose db (db.deleteTombstones p) := by
  refine ⟨(h.of_tombstones _).bump, ?_⟩
  unfold deleteTombstones
  apply moves_bump h
  case hunknown =>
    intro s hs
    rw [h.visible_eq_nil hs, (h.of_tombstones (db.tombstones.delete p)).visible_eq_nil hs]
  case hvisible =>
    intro s _ hcount
    apply visible_of_hidden
    intro m hm
    apply Table.any_delete
    intro t ht hp
    have hne : t.sessionId ≠ m.sessionId := by
      intro he
      have := List.countP_eq_zero.mp hcount t ht
      simp [hp, he, hm] at this
    simp [Tombstone.hides, hne]

theorem transcriptState_rotate {thread : String} : (db.rotate sessionId thread).transcriptState s =
    if s = sessionId ∧ (db.states s).isSome then
      { db.transcriptState s with contextEpoch := db.epoch s + 1, activeCheckpointThreadId := thread }
    else db.transcriptState s := by
  by_cases he : s = sessionId
  case neg => simp [transcriptState, rotate, he]
  case pos =>
    subst he
    cases h : db.states s
    case none   => simp [transcriptState, rotate, h]
    case some _ => simp [transcriptState, Database.epoch, rotate, h]

-- The epoch of a session goes up.
theorem keeps_rotate (h : Sound db) {thread : String} {loose : String → Prop} :
    Sound (db.rotate sessionId thread) ∧ Moves loose db (db.rotate sessionId thread) := by
  constructor
  case left =>
    refine ⟨fun s hs => ?_, h.home⟩
    have := h.known s hs
    by_cases he : s = sessionId
    case pos => subst he; simpa [rotate] using this
    case neg => simpa [rotate, he] using this
  case right =>
    constructor
    case known   => exact fun _ h => h
    case visible => exact fun _ _ => .inl rfl
    case runs    => exact fun _ run h => ⟨run, h, rfl, rfl⟩
    case revision =>
      intro s
      rw [Database.revision, Database.revision, transcriptState_rotate]
      split
      case isTrue  => exact Nat.le_refl _
      case isFalse => exact Nat.le_refl _
    case epoch =>
      intro s
      rw [Database.epoch, Database.epoch, transcriptState_rotate]
      split
      case isTrue  => exact Nat.le_succ _
      case isFalse => exact Nat.le_refl _

theorem epoch_rotate (h : Sound db) (hk : db.knows s) {thread : String} :
    db.epoch s < (db.rotate s thread).epoch s := by
  rw [Database.epoch, Database.epoch, transcriptState_rotate, if_pos ⟨rfl, h.known s hk⟩]
  exact Nat.lt_succ_self _

theorem keeps_insertSession (h : Sound db) {session : Session} (hi : db.insertSession session = some db')
    {loose : String → Prop} : Sound db' ∧ Moves loose db db' := by
  obtain ⟨sessions, hinsert, hi⟩ := Option.bind_eq_some_iff.mp hi
  cases hi
  have hget : ∀ s, sessions.get? s = if session.id = s then some session else db.sessions.get? s := fun s =>
    Table.get?_insert hinsert
  have hknows : ∀ s, db.knows s → (sessions.get? s).isSome := by
    intro s hs
    rw [hget]
    split
    case isTrue  => rfl
    case isFalse => exact hs
  have hstate : ∀ s, Database.transcriptState { db with
      sessions
      states := Function.update db.states session.id
        (some ((db.states session.id).getD { activeCheckpointThreadId := session.id })) } s = db.transcriptState s := by
    intro s
    by_cases hs : s = session.id
    case pos => subst hs; simp [transcriptState]
    case neg => simp [transcriptState, hs]
  constructor
  case left =>
    constructor
    case home => exact fun m hm => hknows _ (h.home m hm)
    case known =>
      intro s hs
      by_cases he : s = session.id
      case pos => simp [he]
      case neg =>
        have hs : (sessions.get? s).isSome := hs
        rw [hget, if_neg (Ne.symm he)] at hs
        simpa [he] using h.known s hs
  case right =>
    constructor
    case known    => exact hknows
    case revision => exact fun s => by rw [Database.revision, Database.revision, hstate]
    case epoch    => exact fun s => by rw [Database.epoch, Database.epoch, hstate]
    case visible  => exact fun _ _ => .inl rfl
    case runs     => exact fun _ run hr => ⟨run, hr, rfl, rfl⟩

end Database
end Conversation
