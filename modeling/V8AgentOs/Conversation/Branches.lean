import Mathlib.Data.List.Perm.Subperm
import V8AgentOs.Conversation.Undone

-- A branch leaves the sessions that are there as they are.
namespace Conversation

open Python (Text strip)

-- An `UPDATE` of rows that a query does not ask for
theorem filter_update {α β : Type} {key : α → β} {t : Table key} {p q : α → Bool} {f : α → α}
    {h : ∀ a, key (f a) = key a} (hq : ∀ a ∈ t.rows, p a → q a = false ∧ q (f a) = false) :
    (t.update p f h).rows.filter q = t.rows.filter q := by
  show (t.rows.map _).filter q = t.rows.filter q
  generalize t.rows = rows at hq
  induction rows
  case nil => rfl
  case cons a rows hi =>
    have hrest := hi fun b hb => hq b (List.mem_cons_of_mem a hb)
    rw [List.map_cons, List.filter_cons, List.filter_cons, hrest]
    cases hp : p a
    case false => simp
    case true =>
      obtain ⟨hleft, hright⟩ := hq a List.mem_cons_self hp
      simp [hleft, hright]

namespace Database

variable {db db' db₁ : Database} {child s id topic : String} {m : Moment} {r : Rules} {row : Message} {t : Tombstone}
  {v : Revising} {c : CreateBranch}

-- What holds of each statement of a loop, and of statements one after the other, holds of the loop.
theorem of_foldlM {α : Type} {R : Database → Database → Prop} {f : Database → α → Option Database} {rows : List α}
    (hr : rows.foldlM f db = some db') (hrefl : ∀ a, R a a) (htrans : ∀ a b c, R a b → R b c → R a c)
    (hf : ∀ row ∈ rows, ∀ a b, f a row = some b → R a b) : R db db' := by
  induction rows generalizing db
  case nil => cases hr; exact hrefl _
  case cons row rows hi =>
    rw [List.foldlM_cons, Option.bind_eq_bind, Option.bind_eq_some_iff] at hr
    obtain ⟨next, hnext, hr⟩ := hr
    have hrest : R next db' := hi hr fun other hother => hf other (List.mem_cons_of_mem row hother)
    exact htrans _ _ _ (hf row List.mem_cons_self _ _ hnext) hrest

-- The copies of messages that a branch starts with
def copiesOf (r : Rules) (m : Moment) (rows : List Message) : List Message :=
  rows.zipIdx.map fun row => copy r m.now m.child.val (m.copies row.2) row.1

theorem mem_copiesOf {rows : List Message} (h : row ∈ copiesOf r m rows) :
    row.sessionId = m.child.val ∧ row.runId = none := by
  obtain ⟨_, _, hcopy⟩ := List.mem_map.mp h
  exact hcopy ▸ ⟨rfl, rfl⟩

-- What a statement about one session leaves of the others
structure Elsewhere (child : String) (db db' : Database) : Prop where
  messages   : db'.messages.rows.filter (·.sessionId ≠ child) = db.messages.rows.filter (·.sessionId ≠ child)
  tombstones : db'.tombstones.rows.filter (·.sessionId ≠ child) = db.tombstones.rows.filter (·.sessionId ≠ child)
  revisions  : db'.revisions.rows.filter (·.sessionId ≠ child) = db.revisions.rows.filter (·.sessionId ≠ child)
  states     : ∀ s, s ≠ child → db'.states s = db.states s

namespace Elsewhere

theorem refl : Elsewhere child db db where
  messages   := rfl
  tombstones := rfl
  revisions  := rfl
  states _ _ := rfl

theorem trans (h₁ : Elsewhere child db db₁) (h₂ : Elsewhere child db₁ db') : Elsewhere child db db' where
  messages      := h₂.messages.trans h₁.messages
  tombstones    := h₂.tombstones.trans h₁.tombstones
  revisions     := h₂.revisions.trans h₁.revisions
  states s hs   := (h₂.states s hs).trans (h₁.states s hs)

theorem hidden (h : Elsewhere child db db') (hm : row.sessionId ≠ child) : db'.hidden row = db.hidden row := by
  have hsame (db : Database) :
      db.hidden row = (db.tombstones.rows.filter (·.sessionId ≠ child)).any (·.hides row) := by
    rw [List.any_filter]
    show db.tombstones.rows.any _ = _
    congr 1
    funext t
    by_cases ht : t.sessionId = child
    case pos => simp [Tombstone.hides, ht, hm.symm]
    case neg => simp [ht]
  rw [hsame db', hsame db, h.tombstones]

theorem visible (h : Elsewhere child db db') (hs : s ≠ child) : db'.visible s = db.visible s := by
  have hsame (db : Database) (hidden : Message → Bool) :
      db.messages.rows.filter (fun m => m.sessionId = s && !hidden m) =
      (db.messages.rows.filter (·.sessionId ≠ child)).filter fun m => m.sessionId = s && !hidden m := by
    rw [List.filter_filter]
    apply List.filter_congr
    intro m _
    by_cases hm : m.sessionId = s
    case pos => simp [hm, hs]
    case neg => simp [hm]
  have hhidden : (db'.messages.rows.filter (·.sessionId ≠ child)).filter (fun m => m.sessionId = s && !db'.hidden m) =
      (db.messages.rows.filter (·.sessionId ≠ child)).filter fun m => m.sessionId = s && !db.hidden m := by
    rw [h.messages]
    apply List.filter_congr
    intro m _
    by_cases hm : m.sessionId = s
    case pos => rw [h.hidden (hm ▸ hs)]
    case neg => simp [hm]
  unfold Database.visible
  rw [hsame db' db'.hidden, hsame db db.hidden, hhidden]

end Elsewhere

theorem states_bump {rows : String → ℕ} (h : rows s = 0) : (db.bump rows).states s = db.states s := by
  simp [bump, h]

theorem elsewhere_insertMessage (hi : db.insertMessage row = some db') (hs : row.sessionId = child) :
    Elsewhere child db db' := by
  simp only [insertMessage, Option.bind_eq_bind] at hi
  split at hi
  case isTrue => cases hi
  split at hi
  case isTrue => cases hi
  case isFalse =>
    obtain ⟨messages, hmessages, hi⟩ := Option.bind_eq_some_iff.mp hi
    cases hi
    constructor
    case messages   => simp [bumpOne, bump, Table.rows_of_insert hmessages, hs]
    case tombstones => rfl
    case revisions  => rfl
    case states     => exact fun s hne => states_bump (if_neg fun heq => hne (heq.trans hs))

theorem elsewhere_recordDeletion (hr : db.recordDeletion t = some db') (hs : strip t.sessionId = child) :
    Elsewhere child db db' := by
  unfold recordDeletion at hr
  split at hr
  case isTrue => cases hr; exact .refl
  split at hr
  case isTrue => cases hr
  split at hr
  case h_1 tombstones htombstones =>
    cases hr
    constructor
    case messages   => rfl
    case tombstones => simp [bumpOne, bump, Table.rows_of_insert htombstones, Tombstone.normalized, hs]
    case revisions  => rfl
    case states     => exact fun s hne => states_bump (if_neg fun heq => hne (heq.trans hs))
  case h_2 =>
    cases hr
    constructor
    case messages   => rfl
    case tombstones =>
      refine filter_update (h := fun _ => key_mergeTombstone) ?_
      intro old _ hkey
      have hold : old.sessionId = child := by
        have hkey : old.key = t.normalized.key := of_decide_eq_true hkey
        exact (congrArg Prod.fst hkey).trans hs
      simp [mergeTombstone, hold]
    case revisions  => rfl
    case states     => exact fun _ _ => rfl

theorem elsewhere_bury (hb : db.bury m v = some db') (hs : strip v.sessionId = child) : Elsewhere child db db' :=
  of_foldlM hb (fun _ => .refl) (fun _ _ _ => .trans) fun _ _ _ _ hr => elsewhere_recordDeletion hr hs

-- No two messages have one id.
theorem eq_of_id {other : Message} (hrow : row ∈ db.messages.rows) (hother : other ∈ db.messages.rows)
    (hid : other.id = row.id) : other = row := by
  have hget : db.messages.get? row.id = some other := hid ▸ Table.get?_of_mem hother
  exact Option.some.inj (hget.symm.trans (Table.get?_of_mem hrow))

theorem elsewhere_edit {content now : String} (hrow : v.row ∈ db.messages.rows) (hs : v.row.sessionId = child) :
    Elsewhere child db (db.edit v content now) := by
  have hnames (other : Message) (hother : other ∈ db.messages.rows) (h : v.names other) : other.sessionId = child := by
    have hid : other.id = v.row.id := by simp [Revising.names] at h; exact h.left
    exact eq_of_id hrow hother hid ▸ hs
  constructor
  case messages =>
    refine filter_update (h := fun _ => Message.id_revised) ?_
    intro other hother h
    simp [hnames other hother h, Message.revised]
  case tombstones => rfl
  case revisions  => rfl
  case states =>
    intro s hne
    apply states_bump
    apply List.countP_eq_zero.mpr
    intro other hother h
    simp only [Bool.and_eq_true, decide_eq_true_eq] at h
    exact hne (h.right.symm.trans (hnames other hother h.left))

theorem elsewhere_rotate {thread : String} : Elsewhere child db (db.rotate child thread) where
  messages      := rfl
  tombstones    := rfl
  revisions     := rfl
  states _ hs   := Function.update_of_ne hs ..

theorem elsewhere_insertEvent (hi : db.insertEvent id s topic = some db') : Elsewhere child db db' := by
  obtain ⟨events, _, hi⟩ := Option.bind_eq_some_iff.mp hi
  cases hi
  exact ⟨rfl, rfl, rfl, fun _ _ => rfl⟩

theorem elsewhere_revise (hr : db.revise m v = some (db', id)) (hrow : v.row ∈ db.messages.rows)
    (hsession : v.row.sessionId = v.sessionId) (hs : strip v.sessionId = v.sessionId) :
    Elsewhere v.sessionId db db' := by
  obtain ⟨-, -, content, buried, revisions, events, -, -, hburied, hrevisions, hdb, -⟩ := of_revise hr
  have hedit : Elsewhere v.sessionId db (db.edit v content m.now) := elsewhere_edit hrow hsession
  have hledger : Elsewhere v.sessionId (buried.rotate v.sessionId ("conversation_" ++ m.ids 0)) db' := by
    subst hdb
    constructor
    case messages   => rfl
    case tombstones => rfl
    case revisions  => simp [Table.rows_of_insert hrevisions, Revising.ledger]
    case states     => exact fun _ _ => rfl
  exact ((hedit.trans (elsewhere_bury hburied hs)).trans elsewhere_rotate).trans hledger

theorem elsewhere_insertCopies {rows : List Message} (hr : db.insertCopies r m rows = some db') :
    Elsewhere m.child.val db db' :=
  of_foldlM hr (fun _ => .refl) (fun _ _ _ => .trans) fun _ hrow _ _ hi =>
    elsewhere_insertMessage hi (mem_copiesOf hrow).left

theorem elsewhere_openBranch {found : Found} (ho : db.openBranch r m c found = some db') :
    ¬db.knows m.child.val ∧ Elsewhere m.child.val db db' := by
  simp only [openBranch, Option.bind_eq_bind, Option.bind_eq_some_iff] at ho
  obtain ⟨opened, hopened, branches, _, ho⟩ := ho
  cases ho
  simp only [insertSession, Option.bind_eq_bind, Option.bind_eq_some_iff] at hopened
  obtain ⟨sessions, hsessions, hopened⟩ := hopened
  cases hopened
  constructor
  case left =>
    have hnone : db.sessions.get? m.child.val = none := Table.get?_none_of_insert hsessions
    simp [knows, hnone]
  case right => exact ⟨rfl, rfl, rfl, fun s hs => Function.update_of_ne hs ..⟩

theorem elsewhere_reviseCopy {anchor : Message} (hr : db.reviseCopy m c anchor = some db') :
    Elsewhere m.child.val db db' := by
  unfold reviseCopy at hr
  split at hr
  case h_1 => cases hr; exact .refl
  case h_2 =>
    simp only [Option.bind_eq_bind, Option.bind_eq_some_iff] at hr
    obtain ⟨row, hrow, revised, hrevised, hr⟩ := hr
    cases hr
    obtain ⟨hmem, hsession, _⟩ := mem_visible.mp (List.mem_of_find?_eq_some hrow)
    exact elsewhere_revise hrevised hmem hsession m.child.property.left

theorem elsewhere_createBranch (hc : db.createBranch r m c = some db') :
    ¬db.knows m.child.val ∧ Elsewhere m.child.val db db' := by
  simp only [createBranch, Option.bind_eq_bind, Option.bind_eq_some_iff] at hc
  obtain ⟨found, _, opened, hopened, filled, hfilled, revised, hrevised, told, htold, hc⟩ := hc
  obtain ⟨hnew, hopen⟩ := elsewhere_openBranch hopened
  have hrotate : Elsewhere m.child.val db (filled.rotate m.child.val ("conversation_" ++ m.ids 3)) :=
    (hopen.trans (elsewhere_insertCopies hfilled)).trans elsewhere_rotate
  have htell := (hrotate.trans (elsewhere_reviseCopy hrevised)).trans (elsewhere_insertEvent htold)
  exact ⟨hnew, htell.trans (elsewhere_insertEvent hc)⟩

-- What calls that open no branch leave: deletions are about sessions that are there.
structure Steady (db db' : Database) : Prop where
  known    : ∀ s, db.knows s → db'.knows s
  housed   : ∀ t ∈ db'.tombstones.rows, db'.knows t.sessionId ∨ ∃ old ∈ db.tombstones.rows, old.sessionId = t.sessionId
  branches : db'.branches = db.branches

namespace Steady

theorem of_sub (hs : db'.sessions = db.sessions) (ht : ∀ t ∈ db'.tombstones.rows, t ∈ db.tombstones.rows)
    (hb : db'.branches = db.branches) : Steady db db' where
  known s h     := by rwa [knows, hs]
  housed t h    := .inr ⟨t, ht t h, rfl⟩
  branches      := hb

theorem of_eq (hs : db'.sessions = db.sessions) (ht : db'.tombstones = db.tombstones)
    (hb : db'.branches = db.branches) : Steady db db' :=
  of_sub hs (fun _ h => ht ▸ h) hb

theorem refl : Steady db db :=
  of_eq rfl rfl rfl

theorem trans (h₁ : Steady db db₁) (h₂ : Steady db₁ db') : Steady db db' where
  known s h     := h₂.known s (h₁.known s h)
  branches      := h₂.branches.trans h₁.branches
  housed t h    := by
    cases h₂.housed t h
    case inl hknown => exact .inl hknown
    case inr hold =>
      obtain ⟨old, hmem, hs⟩ := hold
      cases h₁.housed old hmem
      case inl hknown => exact .inl (hs ▸ h₂.known _ hknown)
      case inr holder =>
        obtain ⟨older, holder, hs'⟩ := holder
        exact .inr ⟨older, holder, hs'.trans hs⟩

end Steady

theorem steady_recordDeletion (hr : db.recordDeletion t = some db') : Steady db db' := by
  unfold recordDeletion at hr
  split at hr
  case isTrue => cases hr; exact .refl
  split at hr
  case isTrue => cases hr
  case isFalse hknown =>
    split at hr
    case h_1 tombstones htombstones =>
      cases hr
      constructor
      case known    => exact fun _ h => h
      case branches => rfl
      case housed =>
        intro u hu
        cases List.mem_append.mp (Table.rows_of_insert htombstones ▸ hu)
        case inl hu => exact .inr ⟨u, hu, rfl⟩
        case inr hu =>
          have hu : u = t.normalized := List.mem_singleton.mp hu
          have hknown : db.knows (strip t.sessionId) := by simpa using hknown
          exact .inl (hu ▸ hknown)
    case h_2 =>
      cases hr
      constructor
      case known    => exact fun _ h => h
      case branches => rfl
      case housed =>
        intro u hu
        obtain ⟨old, hold, hu⟩ := List.mem_map.mp hu
        refine .inr ⟨old, hold, ?_⟩
        rw [← hu]
        split
        case isTrue  => rfl
        case isFalse => rfl

theorem steady_recordAlias {now sessionId : String} (hr : db.recordAlias now sessionId id row = some db') :
    Steady db db' := by
  simp only [recordAlias, Option.bind_eq_bind, Option.bind_eq_some_iff] at hr
  obtain ⟨recorded, hrecorded, hr⟩ := hr
  have hfirst := steady_recordDeletion hrecorded
  split at hr
  case isTrue  => cases hr; exact hfirst
  case isFalse => exact hfirst.trans (steady_recordDeletion hr)

theorem steady_deleteMessages {p : Message → Bool} : Steady db (db.deleteMessages p) :=
  .of_eq rfl rfl rfl

theorem steady_deleteMessage {text : Text} {now messageId sessionId : String}
    (hd : db.deleteMessage text now messageId sessionId = some db') : Steady db db' := by
  simp only [deleteMessage] at hd
  split at hd
  case isTrue => cases hd; exact .refl
  split at hd
  case h_1 =>
    have hfirst : Steady db { db with legacy := db.legacy.delete (·.id = strip messageId) } := .of_eq rfl rfl rfl
    exact hfirst.trans (steady_recordDeletion hd)
  split at hd
  case h_1 => exact steady_deleteMessages.trans (steady_recordDeletion hd)
  split at hd
  case h_1 => exact steady_deleteMessages.trans (steady_recordAlias hd)
  split at hd
  case h_1 => exact steady_recordDeletion hd
  split at hd
  case isTrue  => cases hd; exact .refl
  case isFalse => exact steady_recordDeletion hd

theorem steady_insertMessage (hi : db.insertMessage row = some db') : Steady db db' := by
  simp only [insertMessage, Option.bind_eq_bind] at hi
  split at hi
  case isTrue => cases hi
  split at hi
  case isTrue => cases hi
  case isFalse =>
    obtain ⟨messages, _, hi⟩ := Option.bind_eq_some_iff.mp hi
    cases hi
    exact .of_eq rfl rfl rfl

theorem steady_bury (hb : db.bury m v = some db') : Steady db db' :=
  of_foldlM hb (fun _ => .refl) (fun _ _ _ => .trans) fun _ _ _ _ hr => steady_recordDeletion hr

theorem steady_revise (hr : db.revise m v = some (db', id)) : Steady db db' := by
  obtain ⟨-, -, content, buried, revisions, events, -, -, hburied, -, hdb, -⟩ := of_revise hr
  have hedit : Steady db (db.edit v content m.now) := .of_eq rfl rfl rfl
  exact (hedit.trans (steady_bury hburied)).trans (hdb ▸ .of_eq rfl rfl rfl)

theorem steady_insertEvent (hi : db.insertEvent id s topic = some db') : Steady db db' := by
  obtain ⟨events, _, hi⟩ := Option.bind_eq_some_iff.mp hi
  cases hi
  exact .of_eq rfl rfl rfl

theorem steady_insertSession {session : Session} (hi : db.insertSession session = some db') : Steady db db' := by
  obtain ⟨sessions, hsessions, hi⟩ := Option.bind_eq_some_iff.mp hi
  cases hi
  constructor
  case known =>
    intro s h
    rw [knows, Table.get?_insert hsessions]
    split
    case isTrue  => rfl
    case isFalse => exact h
  case housed   => exact fun t ht => .inr ⟨t, ht, rfl⟩
  case branches => rfl

theorem steady_insertCopies {rows : List Message} (hr : db.insertCopies r m rows = some db') : Steady db db' :=
  of_foldlM hr (fun _ => .refl) (fun _ _ _ => .trans) fun _ _ _ _ hi => steady_insertMessage hi

theorem steady_reviseCopy {anchor : Message} (hr : db.reviseCopy m c anchor = some db') : Steady db db' := by
  unfold reviseCopy at hr
  split at hr
  case h_1 => cases hr; exact .refl
  case h_2 =>
    simp only [Option.bind_eq_bind, Option.bind_eq_some_iff] at hr
    obtain ⟨row, _, revised, hrevised, hr⟩ := hr
    cases hr
    exact steady_revise hrevised

theorem steady_perform {o : Operation} (hp : perform r m db o = some db') (ho : ∀ arguments, o ≠ .branch arguments) :
    Steady db db' := by
  cases o
  case create =>
    simp only [perform, create] at hp
    split at hp
    case isTrue  => cases hp
    case isFalse => exact steady_insertMessage hp
  case update =>
    simp only [perform, update, Option.bind_eq_bind] at hp
    obtain ⟨existing, _, hp⟩ := Option.bind_eq_some_iff.mp hp
    split at hp
    case isTrue => cases hp
    split at hp
    case isTrue  => cases hp
    case isFalse => cases hp; exact .of_eq rfl rfl rfl
  case delete => exact steady_deleteMessage hp
  case revise =>
    obtain ⟨⟨next, id⟩, hr, hp⟩ := Option.map_eq_some_iff.mp hp
    cases hp
    obtain ⟨_, _, hr⟩ := of_reviseMessage hr
    exact steady_revise hr
  case restore =>
    obtain ⟨⟨next, id⟩, hr, hp⟩ := Option.map_eq_some_iff.mp hp
    cases hp
    obtain ⟨ledger, _, -, -, -, -, -, -, -, hr⟩ := of_restoreRevision hr
    have hdelete (p : Tombstone → Bool) : Steady db (db.deleteTombstones p) :=
      .of_sub rfl (fun _ ht => List.mem_of_mem_filter ht) rfl
    exact (hdelete _).trans (steady_revise hr)
  case branch arguments => exact absurd rfl (ho arguments)
  case createRun =>
    simp only [perform, createRun, Option.bind_eq_bind] at hp
    split at hp
    case isTrue => cases hp
    case isFalse =>
      obtain ⟨runs, _, hp⟩ := Option.bind_eq_some_iff.mp hp
      cases hp
      exact .of_eq rfl rfl rfl
  case createSession => exact steady_insertSession hp
  case addMessage =>
    simp only [perform, Option.bind_eq_bind, Option.bind_eq_some_iff] at hp
    obtain ⟨legacy, _, hp⟩ := hp
    cases hp
    exact .of_eq rfl rfl rfl
  case emit =>
    simp only [perform, Option.bind_eq_bind, Option.bind_eq_some_iff] at hp
    obtain ⟨events, _, hp⟩ := hp
    cases hp
    exact .of_eq rfl rfl rfl

def numbered (branch : Branch) : String × ℕ :=
  (branch.rootSessionId, branch.branchNumber)

-- What holds of the branches and of the deletions in every state
structure Branched (db : Database) : Prop where
  housed  : ∀ t ∈ db.tombstones.rows, db.knows t.sessionId
  numbers : (db.branches.rows.map numbered).Nodup

namespace Branched

theorem empty : Branched .empty where
  housed _ h := by cases h
  numbers    := List.nodup_nil

theorem steady (h : Branched db) (hs : Steady db db') : Branched db' where
  numbers := hs.branches ▸ h.numbers
  housed t ht := by
    cases hs.housed t ht
    case inl hknown => exact hknown
    case inr hold =>
      obtain ⟨old, hmem, hsession⟩ := hold
      exact hsession ▸ hs.known _ (h.housed old hmem)

end Branched

-- The number of a new branch is not one that its root has: one of the first numbers is free.
theorem branchNumber_free (db : Database) (root : String) :
    db.branchNumber root ∉ (db.branches.rows.filter (·.rootSessionId = root)).map (·.branchNumber) := by
  unfold branchNumber
  simp only
  generalize (db.branches.rows.filter (·.rootSessionId = root)).map (·.branchNumber) = used
  cases hfind : ((List.range (used.length + 1)).map (· + 1)).find? fun number => !used.contains number
  case some number =>
    have hfree := List.find?_some hfind
    simpa using hfree
  case none =>
    have hused : (List.range (used.length + 1)).map (· + 1) ⊆ used := by
      intro number hnumber
      simpa using List.find?_eq_none.mp hfind number hnumber
    have hnodup : ((List.range (used.length + 1)).map (· + 1)).Nodup :=
      List.nodup_range.map fun _ _ heq => Nat.succ.inj heq
    have hle := (List.Nodup.subperm hnodup hused).length_le
    simp at hle

theorem branched_openBranch (h : Branched db) {found : Found} (ho : db.openBranch r m c found = some db') :
    Branched db' := by
  simp only [openBranch, Option.bind_eq_bind, Option.bind_eq_some_iff] at ho
  obtain ⟨opened, hopened, branches, hbranches, ho⟩ := ho
  cases ho
  have hsteady := steady_insertSession hopened
  have hopen := h.steady hsteady
  constructor
  case housed => exact hopen.housed
  case numbers =>
    have hrows := Table.rows_of_insert hbranches
    rw [hrows, List.map_append, List.nodup_append]
    refine ⟨hopen.numbers, List.nodup_singleton _, ?_⟩
    intro other hother new hnew heq
    obtain ⟨branch, hbranch, hnumbered⟩ := List.mem_map.mp hother
    rw [heq, List.mem_singleton.mp hnew] at hnumbered
    have hbranch : branch ∈ db.branches.rows := hsteady.branches ▸ hbranch
    have hroot : branch.rootSessionId = (db.branchRoot found.source).1 := congrArg Prod.fst hnumbered
    have hnumber : branch.branchNumber = db.branchNumber (db.branchRoot found.source).1 := congrArg Prod.snd hnumbered
    apply branchNumber_free db (db.branchRoot found.source).1
    exact hnumber ▸ List.mem_map_of_mem (List.mem_filter.mpr ⟨hbranch, decide_eq_true hroot⟩)

theorem branched_createBranch (h : Branched db) (hc : db.createBranch r m c = some db') : Branched db' := by
  simp only [createBranch, Option.bind_eq_bind, Option.bind_eq_some_iff] at hc
  obtain ⟨found, _, opened, hopened, filled, hfilled, revised, hrevised, told, htold, hc⟩ := hc
  have hrotate : Steady filled (filled.rotate m.child.val ("conversation_" ++ m.ids 3)) := .of_eq rfl rfl rfl
  have hrest := (((steady_insertCopies hfilled).trans hrotate).trans (steady_reviseCopy hrevised)).trans
    (steady_insertEvent htold)
  exact (branched_openBranch h hopened).steady (hrest.trans (steady_insertEvent hc))

theorem branched_perform (h : Branched db) {o : Operation} (hp : perform r m db o = some db') : Branched db' := by
  by_cases hbranch : ∃ arguments, o = .branch arguments
  case neg => exact h.steady (steady_perform hp fun arguments heq => hbranch ⟨arguments, heq⟩)
  case pos =>
    obtain ⟨arguments, heq⟩ := hbranch
    rw [heq] at hp
    exact branched_createBranch h hp

theorem Branched.of_reachable (h : (conversation r).Reachable db) : Branched db := by
  apply h.invariant
  case h₀ => exact fun db hdb => hdb ▸ .empty
  case hI =>
    intro db e db' h hs
    cases hp : perform r e.1 db e.2
    case none =>
      have hs : db' = db := by simpa [conversation, hp] using hs
      exact hs ▸ h
    case some next =>
      have hs : db' = next := by simpa [conversation, hp] using hs
      exact hs ▸ branched_perform h hp

-- What another session sees of a call that changes one
structure Untouched (s : String) (db db' : Database) : Prop where
  visible    : db'.visible s = db.visible s
  states     : db'.states s = db.states s
  messages   : db'.messages.rows.filter (·.sessionId = s) = db.messages.rows.filter (·.sessionId = s)
  tombstones : db'.tombstones.rows.filter (·.sessionId = s) = db.tombstones.rows.filter (·.sessionId = s)
  revisions  : db'.revisions.rows.filter (·.sessionId = s) = db.revisions.rows.filter (·.sessionId = s)

theorem filter_of_filter_ne {α : Type} {sessionId : α → String} {rows rows' : List α} (hs : s ≠ child)
    (h : rows'.filter (sessionId · ≠ child) = rows.filter (sessionId · ≠ child)) :
    rows'.filter (sessionId · = s) = rows.filter (sessionId · = s) := by
  have hsame (rows : List α) :
      (rows.filter (sessionId · ≠ child)).filter (sessionId · = s) = rows.filter (sessionId · = s) := by
    rw [List.filter_filter]
    apply List.filter_congr
    intro a _
    by_cases ha : sessionId a = s
    case pos => simp [ha, hs]
    case neg => simp [ha]
  rw [← hsame rows', ← hsame rows, h]

theorem Elsewhere.untouched (h : Elsewhere child db db') (hs : s ≠ child) : Untouched s db db' where
  visible    := h.visible hs
  states     := h.states s hs
  messages   := filter_of_filter_ne hs h.messages
  tombstones := filter_of_filter_ne hs h.tombstones
  revisions  := filter_of_filter_ne hs h.revisions

end Database

open Database

-- The main result on what is there: a branch is a session that was not known, and it changes no other session, the one
-- that it leaves included.
theorem branch_inert {r : Rules} {m : Moment} {c : CreateBranch} {db db' : Database}
    (hc : db.createBranch r m c = some db') :
    ¬db.knows m.child.val ∧ ∀ s, s ≠ m.child.val → Untouched s db db' := by
  obtain ⟨hnew, helsewhere⟩ := elsewhere_createBranch hc
  exact ⟨hnew, fun s hs => helsewhere.untouched hs⟩

section Sample

def branchMoment (tag : String) (child : { id : String // strip id = id ∧ id ≠ "" }) : Moment where
  now      := tag
  idle     := true
  ids n    := tag ++ String.ofList (List.replicate n 'e')
  copies n := if n = 0 then ⟨"x", by decide⟩ else ⟨"y", by decide⟩
  child    := child

-- A branch at the question, which it asks otherwise
def branchCall : CreateBranch where
  sessionId                  := "s"
  owner                      := "u"
  turnId                     := "a"
  expectedTranscriptRevision := 2
  expectedMessageVersion     := some 1
  messageId                  := some "a"
  content                    := some "why"

def branched : Database :=
  (answered.createBranch sampleRules (branchMoment "5" ⟨"branch", by decide⟩) branchCall).getD answered

theorem branch_inert_sample :
    (answered.visible "s").map (fun m => (m.id, m.contentText)) = [("a", some "hi"), ("b", some "hello")] ∧
    (branched.visible "branch").map (fun m => (m.id, m.contentText)) = [("x", some "why")] ∧
      ¬answered.knows "branch" ∧ Untouched "s" answered branched := by
  have hc : answered.createBranch sampleRules (branchMoment "5" ⟨"branch", by decide⟩) branchCall = some branched :=
    eq_some_getD _ (by decide +kernel)
  obtain ⟨hnew, huntouched⟩ := branch_inert hc
  refine ⟨?_, ?_, hnew, huntouched "s" (by decide)⟩
  case _ => decide +kernel
  case _ => decide +kernel

end Sample

-- The main result on the numbers: in no state do two branches of one root have one number. So the constraint of the
-- table on the root and the number refuses no branch.
theorem branch_numbers {r : Rules} {db : Database} (h : (conversation r).Reachable db) :
    (db.branches.rows.map numbered).Nodup :=
  (Branched.of_reachable h).numbers

section Sample

-- A second branch, without a change
def branchCalls : List (Moment × Operation) :=
  [(branchMoment "5" ⟨"branch", by decide⟩, .branch branchCall),
    ({ branchMoment "6" ⟨"other", by decide⟩ with
        copies := fun n => if n = 0 then ⟨"z", by decide⟩ else ⟨"w", by decide⟩ },
      .branch { branchCall with expectedMessageVersion := none, messageId := none, content := none })]

theorem branch_numbers_sample :
    (performAll sampleRules answered branchCalls).branches.rows.map numbered = [("s", 1), ("s", 2)] ∧
      ((performAll sampleRules answered branchCalls).branches.rows.map numbered).Nodup := by
  have hempty : (conversation sampleRules).Reachable .empty := .init rfl
  have hanswered : (conversation sampleRules).Reachable answered := hempty.run (run_performAll _ _ answeredCalls)
  refine ⟨?_, branch_numbers (hanswered.run (run_performAll _ _ branchCalls))⟩
  decide +kernel

end Sample
end Conversation
