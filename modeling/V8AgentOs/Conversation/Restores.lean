import V8AgentOs.Conversation.Deletions

-- The views of a session: a restoration shows what one of the states before has shown.
namespace Conversation

open Python (strip)
open Timeline (Coherent Restores)

-- The session of a message, its id and its position
def Message.place (m : Message) : String × String × ℤ :=
  (m.sessionId, m.id, m.ordinal)

namespace Database

variable {db db' : Database} {s id : String} {m row : Message} {x y : String × ℤ}

def places (db : Database) (s : String) : Set (String × ℤ) :=
  { x | (s, x) ∈ db.messages.rows.map Message.place }

-- What is visible of a session
def view (db : Database) (s : String) : Set (String × ℤ) :=
  { x | x ∈ db.places s ∧ db.mark s x.1 = none }

-- What the user has deleted of it
def gone (db : Database) (s : String) : Set (String × ℤ) :=
  { x | db.Buried s x.1 }

-- No two messages of a session have one ordinal.
def Placed (db : Database) : Prop :=
  ∀ s, ∀ x ∈ db.places s, ∀ y ∈ db.places s, x.2 = y.2 → x = y

theorem mem_places : x ∈ db.places s ↔ ∃ m ∈ db.messages.rows, m.sessionId = s ∧ (m.id, m.ordinal) = x := by
  simp [places, Message.place]

theorem place_of_id (hx : x ∈ db.places s) (hy : y ∈ db.places s) (h : x.1 = y.1) : x = y := by
  obtain ⟨m, hm, -, hmx⟩ := mem_places.mp hx
  obtain ⟨n, hn, -, hny⟩ := mem_places.mp hy
  have hid : m.id = n.id := by
    rw [← hmx, ← hny] at h
    exact h
  have hget : db.messages.get? m.id = some m := Table.get?_of_mem hm
  have hget' : db.messages.get? n.id = some n := Table.get?_of_mem hn
  have hsame : m = n := Option.some.inj (hget.symm.trans (hid ▸ hget'))
  rw [← hmx, ← hny, hsame]

theorem mem_view (h : Backed db) : x ∈ db.view s ↔ ∃ m ∈ db.visible s, (m.id, m.ordinal) = x := by
  constructor
  case mp =>
    intro hx
    obtain ⟨m, hm, hs, hmx⟩ := mem_places.mp hx.left
    have hid : m.id = x.1 := congrArg Prod.fst hmx
    refine ⟨m, mem_visible.mpr ⟨hm, hs, ?_⟩, hmx⟩
    rw [hidden_eq h, hs, hid, hx.right]
    rfl
  case mpr =>
    intro hx
    obtain ⟨m, hm, hmx⟩ := hx
    obtain ⟨hmem, hs, -⟩ := mem_visible.mp hm
    exact ⟨mem_places.mpr ⟨m, hmem, hs, hmx⟩, hmx ▸ mark_of_visible h hm⟩

theorem view_of_visible (h : Backed db) (hm : m ∈ db.visible s) : (m.id, m.ordinal) ∈ db.view s :=
  (mem_view h).mpr ⟨m, hm, rfl⟩

theorem not_gone_of_view (hx : x ∈ db.view s) : x ∉ db.gone s := by
  intro hg
  obtain ⟨source, hsource, -⟩ := hg
  rw [hx.right] at hsource
  cases hsource

theorem gone_subset (h : Evolves db db') : db.gone s ⊆ db'.gone s :=
  fun x hx => h.buried s x.1 hx

theorem view_eq (hp : db'.places s = db.places s) (hm : ∀ id, db'.mark s id = db.mark s id) :
    db'.view s = db.view s := by
  simp only [view, hp, hm]

theorem places_of_rows (h : db'.messages.rows.map Message.place = db.messages.rows.map Message.place) :
    db'.places s = db.places s := by
  rw [places, h, places]

theorem places_update {p : Message → Bool} {f : Message → Message} {hf : ∀ m, (f m).id = m.id}
    (h : ∀ m, (f m).place = m.place) : (db.updateMessages p f hf).places s = db.places s := by
  apply places_of_rows
  show (db.messages.rows.map fun m => if p m then f m else m).map Message.place = _
  rw [List.map_map]
  apply List.map_congr_left
  intro m _
  simp only [Function.comp_apply]
  split
  case isTrue  => exact h m
  case isFalse => rfl

theorem places_revise {moment : Moment} {v : Revising} (hr : db.revise moment v = some (db', id)) :
    db'.places s = db.places s := by
  obtain ⟨content, -, hmessages⟩ := messages_revise hr
  have hedit : (db.edit v content moment.now).places s = db.places s := places_update fun _ => rfl
  rw [← hedit, places, places, hmessages]

-- A revision names what was above its message in a view.
def Founded (ledger : Revision) (D : Set (String × ℤ)) : Prop :=
  ∃ a ∈ D, a.1 = ledger.messageId ∧ (∀ x ∈ D, a.2 < x.2 → x.1 ∈ ledger.supersededIds) ∧
    ∀ id ∈ ledger.supersededIds, ∃ x ∈ D, x.1 = id ∧ a.2 < x.2

-- What the views of the states so far have to do with the state that they have led to
structure Chronicle (s : String) (H : Set (Set (String × ℤ))) (db : Database) : Prop where
  coherent : Coherent Prod.snd (db.gone s) H
  now      : db.view s ∈ H
  written  : ∀ S ∈ H, ∀ x ∈ S, x ∈ db.places s ∨ x ∈ db.gone s
  alone    : ∀ S ∈ H, ∀ x ∈ S, ∀ y ∈ S, x.2 = y.2 → x = y
  founded  : ∀ ledger ∈ db.revisions.rows, ledger.sessionId = s → ledger.supersededIds ≠ [] →
    ∃ D ∈ H, Founded ledger D

namespace Chronicle

variable {H : Set (Set (String × ℤ))}

theorem extend (h : Chronicle s H db) (he : Evolves db db') (hp : Placed db')
    (hc : Coherent Prod.snd (db'.gone s) (insert (db'.view s) H))
    (hr : ∀ ledger ∈ db'.revisions.rows, ledger ∈ db.revisions.rows ∨
      (ledger.sessionId = s → ledger.supersededIds ≠ [] → Founded ledger (db.view s))) :
    Chronicle s (insert (db'.view s) H) db' := by
  constructor
  case coherent => exact hc
  case now      => exact Set.mem_insert _ _
  case written =>
    intro S hS x hx
    cases Set.mem_insert_iff.mp hS
    case inl hS => exact .inl (hS ▸ hx).left
    case inr hS =>
      cases h.written S hS x hx
      case inr hg => exact .inr (gone_subset he hg)
      case inl hx =>
        obtain ⟨m, hm, hs, hmx⟩ := mem_places.mp hx
        have hid : m.id = x.1 := congrArg Prod.fst hmx
        cases he.rows m hm
        case inl hb =>
          rw [hs, hid] at hb
          exact .inr hb
        case inr hn =>
          obtain ⟨next, hnext, hs', hid', ho'⟩ := hn
          exact .inl (mem_places.mpr ⟨next, hnext, hs'.trans hs, by rw [hid', ho', hmx]⟩)
  case alone =>
    intro S hS x hx y hy
    cases Set.mem_insert_iff.mp hS
    case inl hS => subst hS; exact hp s x hx.left y hy.left
    case inr hS => exact h.alone S hS x hx y hy
  case founded =>
    intro ledger hledger hs hne
    cases hr ledger hledger
    case inl hold =>
      obtain ⟨D, hD, hf⟩ := h.founded ledger hold hs hne
      exact ⟨D, Set.mem_insert_of_mem _ hD, hf⟩
    case inr hnew => exact ⟨_, Set.mem_insert_of_mem _ h.now, hnew hs hne⟩

-- The view of a state may only have lost entries, which are gone or above all that stay.
theorem shrunk (h : Chronicle s H db) (he : Evolves db db') (hsub : db'.view s ⊆ db.view s)
    (hlower : ∀ z ∈ db'.view s, ∀ x ∈ db.view s, x.2 < z.2 → x ∉ db'.gone s → x ∈ db'.view s) :
    Coherent Prod.snd (db'.gone s) (insert (db'.view s) H) :=
  (h.coherent.mono (gone_subset he)).shrink h.now hsub hlower

theorem unchanged (h : Chronicle s H db) (he : Evolves db db') (hv : db'.view s = db.view s) :
    Coherent Prod.snd (db'.gone s) (insert (db'.view s) H) :=
  h.shrunk he (hv ▸ subset_rfl) fun _ _ _ hx _ _ => hv ▸ hx

end Chronicle
end Database
end Conversation

-- Restorations, over all orders of the calls of one conversation.
namespace Conversation

open Python (strip)
open Timeline (Coherent Restores)

-- A message is written after all messages of its session (`get_next_chat_canonical_ordinal`), and no branch is made.
def Appends (db : Database) (e : Moment × Operation) : Prop :=
  match e.2 with
  | .create message => ∀ other ∈ db.messages.rows, other.sessionId = message.sessionId → other.ordinal < message.ordinal
  | .branch _       => False
  | _               => True

namespace Database

variable {db db' : Database} {s id : String} {m row : Message} {moment : Moment} {r : Rules} {x y : String × ℤ}
  {H : Set (Set (String × ℤ))}

theorem Placed.sub (h : Placed db) (hsub : ∀ s, db'.places s ⊆ db.places s) : Placed db' :=
  fun s x hx y hy => h s x (hsub s hx) y (hsub s hy)

namespace Chronicle

-- Calls that neither write nor delete messages
theorem quiet (h : Chronicle s H db) (he : Evolves db db') (hp : Placed db) (hplaces : ∀ s, db'.places s = db.places s)
    (ht : db'.tombstones = db.tombstones) (hr : db'.revisions = db.revisions) :
    Placed db' ∧ Chronicle s (insert (db'.view s) H) db' := by
  have hplaced : Placed db' := hp.sub fun s => (hplaces s).subset
  refine ⟨hplaced, h.extend he hplaced ?_ fun ledger hledger => .inl (hr ▸ hledger)⟩
  exact h.unchanged he (view_eq (hplaces s) (mark_eq ht s))

-- What an `INSERT` of a message leaves
theorem of_insertMessage (hi : db.insertMessage m = some db') : db.messages.get? m.id = none ∧
    (∀ other ∈ db.messages.rows, other.sessionId = m.sessionId → other.ordinal ≠ m.ordinal) ∧
    db'.messages.rows = db.messages.rows ++ [m] ∧ db'.tombstones = db.tombstones ∧ db'.revisions = db.revisions := by
  simp only [insertMessage, Option.bind_eq_bind] at hi
  split at hi
  case isTrue => cases hi
  split at hi
  case isTrue => cases hi
  case isFalse hordinal =>
    obtain ⟨messages, hmessages, hi⟩ := Option.bind_eq_some_iff.mp hi
    cases hi
    refine ⟨Table.get?_none_of_insert hmessages, ?_, Table.rows_of_insert hmessages, rfl, rfl⟩
    intro other hother hs ho
    exact hordinal (List.any_eq_true.mpr ⟨other, hother, by simp [hs, ho]⟩)

theorem mem_places_of_insert (hrows : db'.messages.rows = db.messages.rows ++ [m]) :
    x ∈ db'.places s ↔ x ∈ db.places s ∨ (s = m.sessionId ∧ x = (m.id, m.ordinal)) := by
  simp [places, hrows, Message.place, Prod.ext_iff]

theorem placed_of_insert (hp : Placed db) (hi : db.insertMessage m = some db') : Placed db' := by
  obtain ⟨-, hordinal, hrows, -, -⟩ := of_insertMessage hi
  have hother : ∀ y ∈ db.places m.sessionId, y.2 ≠ m.ordinal := by
    intro y hy
    obtain ⟨n, hn, hs, hny⟩ := mem_places.mp hy
    exact hny ▸ hordinal n hn hs
  intro s x hx y hy ho
  cases (mem_places_of_insert hrows).mp hx
  case inl hx =>
    cases (mem_places_of_insert hrows).mp hy
    case inl hy => exact hp s x hx y hy ho
    case inr hy =>
      obtain ⟨hs, hy⟩ := hy
      exact absurd (ho.trans (congrArg Prod.snd hy)) (hother x (hs ▸ hx))
  case inr hx =>
    obtain ⟨hs, hx⟩ := hx
    cases (mem_places_of_insert hrows).mp hy
    case inl hy => exact absurd (ho.symm.trans (congrArg Prod.snd hx)) (hother y (hs ▸ hy))
    case inr hy => exact hx.trans hy.right.symm

-- A message that is written after all others of its session
theorem appended (h : Chronicle s H db) (hb : Backed db) (hp : Placed db)
    (hlast : ∀ other ∈ db.messages.rows, other.sessionId = m.sessionId → other.ordinal < m.ordinal)
    (hi : db.insertMessage m = some db') : Placed db' ∧ Chronicle s (insert (db'.view s) H) db' := by
  obtain ⟨hnone, -, hrows, ht, hr⟩ := of_insertMessage hi
  have he : Evolves db db' := .of_insert hb hi
  have hplaced := placed_of_insert hp hi
  have hmark := mark_eq ht
  refine ⟨hplaced, h.extend he hplaced ?_ fun ledger hledger => .inl (hr ▸ hledger)⟩
  have hmem : ∀ x, x ∈ db'.view s ↔
      x ∈ db.view s ∨ (s = m.sessionId ∧ x = (m.id, m.ordinal) ∧ db.mark s x.1 = none) := by
    intro x
    show x ∈ db'.places s ∧ db'.mark s x.1 = none ↔ _
    rw [mem_places_of_insert hrows, hmark]
    constructor
    case mp  => exact fun hx => hx.left.imp (⟨·, hx.right⟩) fun hn => ⟨hn.left, hn.right, hx.right⟩
    case mpr =>
      intro hx
      cases hx
      case inl hx => exact ⟨.inl hx.left, hx.right⟩
      case inr hx => exact ⟨.inr ⟨hx.left, hx.right.left⟩, hx.right.right⟩
  by_cases hshown : s = m.sessionId ∧ db.mark s m.id = none
  case neg =>
    apply h.unchanged he
    ext x
    rw [hmem]
    apply or_iff_left
    intro hx
    obtain ⟨hs, hx, hn⟩ := hx
    subst hx
    exact hshown ⟨hs, hn⟩
  case pos =>
    obtain ⟨hs, hn⟩ := hshown
    have hview : db'.view s = insert (m.id, m.ordinal) (db.view s) := by
      ext x
      rw [hmem, Set.mem_insert_iff, or_comm]
      apply or_congr_left
      constructor
      case mp  => exact fun hx => hx.right.left
      case mpr => intro hx; subst hx; exact ⟨hs, rfl, hn⟩
    rw [hview]
    apply (h.coherent.mono (gone_subset he)).append h.now
    case hnew =>
      intro S hS hm
      cases h.written S hS _ hm
      case inl hplace =>
        obtain ⟨n, hmem, -, hid⟩ := mem_places.mp hplace
        have hget : db.messages.get? n.id = some n := Table.get?_of_mem hmem
        rw [show n.id = m.id from congrArg Prod.fst hid, hnone] at hget
        cases hget
      case inr hg =>
        obtain ⟨source, hsource, -⟩ := hg
        rw [hn] at hsource
        cases hsource
    case hlast =>
      intro x hx
      obtain ⟨n, hmem, hns, hnx⟩ := mem_places.mp hx.left
      exact hnx ▸ hlast n hmem (hns.trans hs)

-- A deletion by the user
theorem erased (h : Chronicle s H db) (hp : Placed db) (he : Erases db db') :
    Placed db' ∧ Chronicle s (insert (db'.view s) H) db' := by
  have hsub : ∀ s, db'.places s ⊆ db.places s := by
    intro s x hx
    obtain ⟨m, hm, hs, hmx⟩ := mem_places.mp hx
    exact mem_places.mpr ⟨m, he.rows m hm, hs, hmx⟩
  have hplaced := hp.sub hsub
  refine ⟨hplaced, h.extend he.evolves hplaced ?_ fun ledger hledger => .inl (he.revisions ▸ hledger)⟩
  apply h.shrunk he.evolves
  case hsub =>
    intro x hx
    refine ⟨hsub s hx.left, ?_⟩
    cases he.marks s x.1
    case inl heq => exact heq ▸ hx.right
    case inr hb  => exact absurd hb (not_gone_of_view hx)
  case hlower =>
    intro z _ x hx _ hxg
    obtain ⟨m, hm, hs, hmx⟩ := mem_places.mp hx.left
    have hid : m.id = x.1 := congrArg Prod.fst hmx
    constructor
    case left =>
      cases he.erased m hm
      case inl hm => exact mem_places.mpr ⟨m, hm, hs, hmx⟩
      case inr hb =>
        rw [hs, hid] at hb
        exact absurd hb hxg
    case right => exact ((he.marks s x.1).resolve_right hxg).trans hx.right

-- A revision of a message that is visible takes away what is above it.
theorem revised (h : Chronicle s H db) (hsound : Sound db) (hb : Backed db) (hp : Placed db) {v : Revising}
    (hrows : v.rows = db.visible v.sessionId) (hrow : v.row ∈ v.rows) (hr : db.revise moment v = some (db', id)) :
    Placed db' ∧ Chronicle s (insert (db'.view s) H) db' := by
  obtain ⟨hsuper, ledger, hledgers, -, hledger, hmessage, -, hids⟩ := supersedes_of_visible hsound hb hrows hrow hr
  have hplaces : ∀ s, db'.places s = db.places s := fun s => places_revise hr
  have hplaced : Placed db' := hp.sub fun s => (hplaces s).subset
  have hanchor : (v.row.id, v.row.ordinal) ∈ db.view v.sessionId := view_of_visible hb (hrows ▸ hrow)
  -- The superseded ids are those of the entries above the anchor.
  have habove : ∀ x ∈ db.view v.sessionId, x.1 ∈ v.descendants.map (·.id) ↔ v.row.ordinal < x.2 := by
    intro x hx
    constructor
    case mp =>
      intro hid
      obtain ⟨d, hd, hdx⟩ := List.mem_map.mp hid
      obtain ⟨hd, hlt⟩ := List.mem_filter.mp hd
      have hdv : (d.id, d.ordinal) ∈ db.view v.sessionId := view_of_visible hb (hrows ▸ hd)
      rw [← place_of_id hdv.left hx.left hdx]
      exact of_decide_eq_true hlt
    case mpr =>
      intro hlt
      obtain ⟨d, hd, hdx⟩ := (mem_view hb).mp hx
      rw [← hdx]
      rw [← hdx] at hlt
      exact List.mem_map_of_mem (List.mem_filter.mpr ⟨hrows ▸ hd, decide_eq_true hlt⟩)
  refine ⟨hplaced, h.extend hsuper.evolves hplaced ?_ ?_⟩
  case _ =>
    by_cases hs : s = v.sessionId
    case neg =>
      apply h.unchanged hsuper.evolves
      apply view_eq (hplaces s)
      exact fun id => by rw [hsuper.marks, if_neg fun hc => hs hc.left]
    case pos =>
      have hmem : ∀ x, x ∈ db'.view s ↔ x ∈ db.view s ∧ ¬v.row.ordinal < x.2 := by
        intro x
        show x ∈ db'.places s ∧ db'.mark s x.1 = none ↔ _
        rw [hplaces, hsuper.marks]
        by_cases hid : x.1 ∈ v.descendants.map (·.id)
        case pos =>
          rw [if_pos ⟨hs, hid⟩]
          constructor
          case mp  => exact fun hx => by cases hx.right
          case mpr => exact fun hx => absurd ((habove x (hs ▸ hx.left)).mp hid) hx.right
        case neg =>
          rw [if_neg fun hc => hid hc.right]
          constructor
          case mp  => exact fun hx => ⟨hx, fun hlt => hid ((habove x (hs ▸ hx)).mpr hlt)⟩
          case mpr => exact fun hx => hx.left
      apply h.shrunk hsuper.evolves
      case hsub => exact fun x hx => ((hmem x).mp hx).left
      case hlower =>
        intro z hz x hx hlt _
        exact (hmem x).mpr ⟨hx, fun habove => ((hmem z).mp hz).right (habove.trans hlt)⟩
  case _ =>
    intro other hother
    rw [hledgers] at hother
    cases List.mem_append.mp hother
    case inl hold => exact .inl hold
    case inr hnew =>
      have hother : other = ledger := List.mem_singleton.mp hnew
      subst hother
      refine .inr fun hs _ => ⟨(v.row.id, v.row.ordinal), ?_, hmessage.symm, ?_, ?_⟩
      case _ => exact hs.symm.trans hledger ▸ hanchor
      case _ => exact fun x hx hlt => hids ▸ (habove x (hs.symm.trans hledger ▸ hx)).mpr hlt
      case _ =>
        intro id hid
        rw [hids] at hid
        obtain ⟨d, hd, hdid⟩ := List.mem_map.mp hid
        obtain ⟨hd, hlt⟩ := List.mem_filter.mp hd
        exact ⟨(d.id, d.ordinal), hs.symm.trans hledger ▸ view_of_visible hb (hrows ▸ hd), hdid, of_decide_eq_true hlt⟩

end Chronicle

-- A restoration of what a revision of a message has superseded
structure Restoration (s : String) (ledger : Revision) (row : Message) (db db' : Database) : Prop where
  evolves : Evolves db db'
  found   : ledger ∈ db.revisions.rows
  names   : ledger.sessionId = s ∧ ledger.messageId = row.id
  shown   : row ∈ db.visible s
  top     : ledger.supersededIds ≠ [] → ∀ other ∈ db.visible s, other.ordinal ≤ row.ordinal
  places  : ∀ s, db'.places s = db.places s
  marks   : ∀ s' id, db'.mark s' id =
    if s' = s ∧ id ∈ ledger.supersededIds ∧ db.mark s' id = some .conversationRevision then none else db.mark s' id
  ledgers : ∀ other ∈ db'.revisions.rows, other ∈ db.revisions.rows ∨ other.supersededIds = []

theorem restoration_of_restore (hsound : Sound db) (h : Backed db) {c : Restore}
    (hr : db.restoreRevision moment c = some (db', id)) :
    ∃ ledger row, db.revisions.get? c.revisionId = some ledger ∧ Restoration c.sessionId ledger row db db' := by
  obtain ⟨ledger, row, hledger, hs, hm, hrow, -, -, htop, hr⟩ := of_restoreRevision hr
  have hshown := List.mem_of_find?_eq_some hrow
  have hid : row.id = c.messageId := by simpa using List.find?_some hrow
  have hmem := mem_visible.mp hshown
  have hk : db.knows c.sessionId := hmem.right.left ▸ hsound.home _ hmem.left
  have hrevives : Revives c.sessionId ledger.supersededIds db _ := revives_deleteTombstones h
  have hnil := (of_revise hr).right.left rfl
  obtain ⟨hsuper, new, hledgers, -, -, -, -, hids⟩ :=
    supersedes_revise hrevives.evolves.backed (stripped_of_knows hk) (by rw [hnil]; simp) hr
  rw [hnil] at hsuper hids
  have hplaces : ∀ s, db'.places s = (db.deleteTombstones (superseding c.sessionId ledger.supersededIds)).places s :=
    fun s => places_revise hr
  refine ⟨ledger, row, hledger, ?_⟩
  constructor
  case evolves => exact hrevives.evolves.trans hsuper.evolves
  case found   => exact Table.mem_of_get? hledger
  case names   => exact ⟨hs, hm.trans hid.symm⟩
  case shown   => exact hshown
  case top     => exact fun hne other hother => not_lt.mp (htop hne other hother)
  case places  => exact hplaces
  case marks =>
    intro s' id
    rw [hsuper.marks, if_neg (by simp), hrevives.marks]
  case ledgers =>
    intro other hother
    rw [hledgers] at hother
    cases List.mem_append.mp hother
    case inl hold => exact .inl hold
    case inr hnew => exact .inr (List.mem_singleton.mp hnew ▸ hids)

namespace Restoration

variable {ledger : Revision} (hr : Restoration s ledger row db db')
include hr

theorem mark_of_none (hn : db.mark s id = none) : db'.mark s id = none := by
  rw [hr.marks, hn]
  split
  case isTrue  => rfl
  case isFalse => rfl

-- What the old view had above the message is put back.
theorem restores (h : Chronicle s H db) (hb : Backed db) (hne : ledger.supersededIds ≠ []) :
    ∃ D ∈ H, Restores Prod.snd (db'.gone s) D (db.view s) (db'.view s) (row.id, row.ordinal) := by
  obtain ⟨D, hD, a, ha, hid, hall, honly⟩ := h.founded ledger hr.found hr.names.left hne
  have hrow : (row.id, row.ordinal) ∈ db.view s := view_of_visible hb hr.shown
  have hkeep : ∀ x ∈ D, db.mark s x.1 = none ∨ db.mark s x.1 = some .conversationRevision → x ∈ db.places s := by
    intro x hx hm
    apply (h.written D hD x hx).resolve_right
    intro hg
    obtain ⟨source, hsource, hn⟩ := hg
    cases hm
    case inl hm => rw [hsource] at hm; cases hm
    case inr hm => exact hn (Option.some.inj (hsource.symm.trans hm))
  have hanchor : a = (row.id, row.ordinal) := by
    have hida : a.1 = row.id := hid.trans hr.names.right
    exact place_of_id (hkeep a ha (.inl (hida ▸ hrow.right))) hrow.left hida
  subst hanchor
  refine ⟨D, hD, ?_⟩
  constructor
  case anchored => exact ⟨ha, hrow⟩
  case top =>
    intro x hx
    obtain ⟨m, hm, hmx⟩ := (mem_view hb).mp hx
    exact hmx ▸ hr.top hne m hm
  case alone =>
    intro x hx ho
    cases (Set.mem_union _ _ _).mp hx
    case inl hx => exact h.alone D hD x hx _ ha ho
    case inr hx => exact h.alone _ h.now x hx _ hrow ho
  case kept =>
    intro x hx
    exact ⟨hr.places s ▸ hx.left, hr.mark_of_none hx.right⟩
  case revived =>
    intro x hx hnot
    have hplace : x ∈ db.places s := hr.places s ▸ hx.left
    have hmark := hx.right
    rw [hr.marks] at hmark
    split at hmark
    case isFalse => exact absurd ⟨hplace, hmark⟩ hnot
    case isTrue hc =>
      obtain ⟨y, hy, hyx, hlt⟩ := honly x.1 hc.right.left
      have hsame : y = x := place_of_id (hkeep y hy (.inr (hyx ▸ hc.right.right))) hplace hyx
      exact hsame ▸ ⟨hy, hlt⟩
  case whole =>
    intro x hx hlt hxg
    have hxg : x ∉ db.gone s := fun hg => hxg (gone_subset hr.evolves hg)
    have hplace : x ∈ db.places s := (h.written D hD x hx).resolve_right hxg
    refine ⟨(hr.places s).symm ▸ hplace, ?_⟩
    rw [hr.marks]
    split
    case isTrue => rfl
    case isFalse hc =>
      cases hm : db.mark s x.1
      case none => rfl
      case some source =>
        by_cases hsource : source = .conversationRevision
        case pos => exact absurd ⟨rfl, hall x hx hlt, hsource ▸ hm⟩ hc
        case neg => exact absurd ⟨source, hm, hsource⟩ hxg
  case present => exact fun x hx => not_gone_of_view hx

end Restoration

theorem Chronicle.restored (h : Chronicle s H db) (hb : Backed db) (hp : Placed db) {sessionId : String}
    {ledger : Revision} (hr : Restoration sessionId ledger row db db') :
    Placed db' ∧ Chronicle s (insert (db'.view s) H) db' := by
  have hplaced : Placed db' := hp.sub fun s => (hr.places s).subset
  refine ⟨hplaced, h.extend hr.evolves hplaced ?_ ?_⟩
  case _ =>
    by_cases hs : s = sessionId ∧ ledger.supersededIds ≠ []
    case pos =>
      obtain ⟨hs, hne⟩ := hs
      subst hs
      obtain ⟨D, hD, hrestores⟩ := hr.restores h hb hne
      exact (h.coherent.mono (gone_subset hr.evolves)).restore hD h.now hrestores
    case neg =>
      apply h.unchanged hr.evolves
      apply view_eq (hr.places s)
      intro id
      rw [hr.marks, if_neg]
      intro hc
      exact hs ⟨hc.left, List.ne_nil_of_mem hc.right.left⟩
  case _ =>
    intro other hother
    exact (hr.ledgers other hother).imp_right fun hnil _ hne => absurd hnil hne

-- The view after a restoration is a view of before, less what the user has deleted.
theorem view_of_restoration (h : Chronicle s H db) (hb : Backed db) {ledger : Revision}
    (hr : Restoration s ledger row db db') : ∃ D ∈ H, ∀ x, x ∈ db'.view s ↔ x ∈ D ∧ x ∉ db'.gone s := by
  by_cases hne : ledger.supersededIds = []
  case pos =>
    have hview : db'.view s = db.view s := by
      apply view_eq (hr.places s)
      exact fun id => by rw [hr.marks, if_neg]; simp [hne]
    refine ⟨db.view s, h.now, fun x => ?_⟩
    rw [← hview]
    exact ⟨fun hx => ⟨hx, not_gone_of_view hx⟩, fun hx => hx.left⟩
  case neg =>
    have hcoherent := h.coherent.mono (gone_subset hr.evolves)
    obtain ⟨D, hD, hrestores⟩ := hr.restores h hb hne
    refine ⟨D, hD, fun x => ?_⟩
    constructor
    case mp  => exact fun hx => ⟨hrestores.subset hcoherent hD h.now hx, not_gone_of_view hx⟩
    case mpr => exact fun hx => hrestores.superset hcoherent hD h.now hx.left hx.right

end Database
end Conversation
