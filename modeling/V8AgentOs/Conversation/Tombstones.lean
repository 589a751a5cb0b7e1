import V8AgentOs.Conversation.Authority
import V8AgentOs.Lib.Timeline

-- What a deletion hides: with the deletions that the calls record, a message is hidden exactly where a deletion bears
-- its id.
namespace Conversation

open Python (Dict Json Text strip)

namespace Database

variable {db db' : Database} {s id : String} {m : Message} {t : Tombstone} {B B' : String → String → Prop}

-- The source of the deletion that bears an id in a session
def mark (db : Database) (s id : String) : Option Source :=
  (db.tombstones.get? (s, id)).map (·.source)

-- The user has deleted the message: no restoration takes this deletion away.
def Buried (db : Database) (s id : String) : Prop :=
  ∃ source, db.mark s id = some source ∧ source ≠ .conversationRevision

-- Where a deletion names a message other than its own, `B` says so of the message.
def Backs (B : String → String → Prop) (db : Database) : Prop :=
  ∀ t ∈ db.tombstones.rows, ∀ c, t.canonicalMessageId = some c → c = t.messageId ∨ B t.sessionId c

structure Backed (db : Database) : Prop where
  backs   : Backs db.Buried db
  revised : ∀ t ∈ db.tombstones.rows, t.source = .conversationRevision → t.canonicalMessageId = some t.messageId

theorem Backs.mono (h : Backs B db) (hB : ∀ s c, B s c → B' s c) : Backs B' db :=
  fun t ht c hc => (h t ht c hc).imp_right (hB _ _)

theorem mark_of_mem (ht : t ∈ db.tombstones.rows) : db.mark t.sessionId t.messageId = some t.source := by
  have hget : db.tombstones.get? t.key = some t := Table.get?_of_mem ht
  exact congrArg (Option.map (·.source)) hget

theorem mem_of_mark {source : Source} (h : db.mark s id = some source) :
    ∃ t ∈ db.tombstones.rows, t.sessionId = s ∧ t.messageId = id ∧ t.source = source := by
  obtain ⟨t, hget, ht⟩ := Option.map_eq_some_iff.mp h
  have hkey : t.key = (s, id) := Table.key_of_get? hget
  exact ⟨t, Table.mem_of_get? hget, congrArg Prod.fst hkey, congrArg Prod.snd hkey, ht⟩

theorem hidden_eq (h : Backed db) : db.hidden m = (db.mark m.sessionId m.id).isSome := by
  apply Bool.eq_iff_iff.mpr
  constructor
  case mp =>
    intro hh
    obtain ⟨t, ht, hides⟩ := List.any_eq_true.mp hh
    obtain ⟨hs, hid⟩ := Bool.and_eq_true_iff.mp hides
    have hs : t.sessionId = m.sessionId := of_decide_eq_true hs
    have hmark : t.messageId = m.id → (db.mark m.sessionId m.id).isSome := by
      intro hid
      rw [← hs, ← hid, mark_of_mem ht]
      rfl
    cases Bool.or_eq_true_iff.mp hid
    case inl hid => exact hmark (of_decide_eq_true hid)
    case inr hid =>
      cases h.backs t ht m.id (of_decide_eq_true hid)
      case inl hid => exact hmark hid.symm
      case inr hb =>
        obtain ⟨source, hsource, -⟩ := hb
        rw [← hs, hsource]
        rfl
  case mpr =>
    intro hm
    obtain ⟨source, hsource⟩ := Option.isSome_iff_exists.mp hm
    obtain ⟨t, ht, hs, hid, -⟩ := mem_of_mark hsource
    exact List.any_eq_true.mpr ⟨t, ht, by simp [Tombstone.hides, hs, hid]⟩

theorem hidden_of_buried (h : Backed db) (hb : db.Buried m.sessionId m.id) : db.hidden m := by
  obtain ⟨source, hsource, -⟩ := hb
  rw [hidden_eq h, hsource]
  rfl

-- A deletion that has been recorded
structure Recorded (t : Tombstone) (db db' : Database) : Prop where
  messages   : db'.messages = db.messages
  revisions  : db'.revisions = db.revisions
  tombstones : db'.tombstones =
    db.tombstones.upsert t.normalized (mergeTombstone t.normalized) fun _ => key_mergeTombstone

theorem recorded_or_blank (h : db.recordDeletion t = some db') :
    ((strip t.sessionId = "" ∨ strip t.messageId = "") ∧ db' = db) ∨ Recorded t db db' := by
  unfold recordDeletion at h
  split at h
  case isTrue hblank => cases h; exact .inl ⟨hblank, rfl⟩
  split at h
  case isTrue => cases h
  split at h
  case h_1 tombstones hinsert =>
    cases h
    exact .inr ⟨rfl, rfl, by rw [Table.upsert, hinsert]; rfl⟩
  case h_2 hinsert =>
    cases h
    exact .inr ⟨rfl, rfl, by rw [Table.upsert, hinsert]; rfl⟩

namespace Recorded

variable (h : Recorded t db db')
include h

theorem get? {k : String × String} : db'.tombstones.get? k = if t.normalized.key = k
    then some ((db.tombstones.get? k).elim t.normalized (mergeTombstone t.normalized)) else db.tombstones.get? k := by
  rw [h.tombstones]
  exact Table.get?_upsert

theorem mark : db'.mark s id =
    if strip t.sessionId = s ∧ strip t.messageId = id then some t.source else db.mark s id := by
  have hkey : t.normalized.key = (s, id) ↔ strip t.sessionId = s ∧ strip t.messageId = id := Prod.mk_inj
  rw [Database.mark, h.get?, Database.mark]
  by_cases hk : t.normalized.key = (s, id)
  case neg => rw [if_neg hk, if_neg (hkey.not.mp hk)]
  case pos =>
    rw [if_pos hk, if_pos (hkey.mp hk)]
    cases db.tombstones.get? (s, id)
    case none   => rfl
    case some _ => rfl

theorem buried (hb : db.Buried s id) (hsource : t.source ≠ .conversationRevision) : db'.Buried s id := by
  unfold Buried
  rw [h.mark]
  split
  case isTrue  => exact ⟨t.source, rfl, hsource⟩
  case isFalse => exact hb

-- The row of a deletion is the new one, the old one that takes something from it, or another one.
theorem mem {u : Tombstone} (hu : u ∈ db'.tombstones.rows) : u = t.normalized ∨
    (∃ old ∈ db.tombstones.rows, old.key = t.normalized.key ∧ u = mergeTombstone t.normalized old) ∨
    u ∈ db.tombstones.rows := by
  have hget : db'.tombstones.get? u.key = some u := Table.get?_of_mem hu
  rw [h.get?] at hget
  split at hget
  case isFalse => exact .inr (.inr (Table.mem_of_get? hget))
  case isTrue hk =>
    cases hold : db.tombstones.get? u.key
    case none =>
      rw [hold] at hget
      exact .inl (Option.some.inj hget).symm
    case some old =>
      rw [hold] at hget
      have hkey : old.key = u.key := Table.key_of_get? hold
      exact .inr (.inl ⟨old, Table.mem_of_get? hold, hkey.trans hk.symm, (Option.some.inj hget).symm⟩)

theorem backs (hB : Backs B db)
    (ht : ∀ c, t.canonicalMessageId = some c → c = strip t.messageId ∨ B (strip t.sessionId) c) : Backs B db' := by
  intro u hu c hc
  cases h.mem hu
  case inl he => subst he; exact ht c hc
  case inr hu =>
    cases hu
    case inr hu => exact hB u hu c hc
    case inl hu =>
      obtain ⟨old, hold, hkey, hu⟩ := hu
      have hs : old.sessionId = strip t.sessionId := congrArg Prod.fst hkey
      have hid : old.messageId = strip t.messageId := congrArg Prod.snd hkey
      subst hu
      cases hcanonical : t.canonicalMessageId
      case none =>
        have hc : old.canonicalMessageId = some c := by
          simpa [mergeTombstone, Tombstone.normalized, hcanonical] using hc
        exact hB old hold c hc
      case some c' =>
        have hc : c' = c := by simpa [mergeTombstone, Tombstone.normalized, hcanonical] using hc
        rw [mergeTombstone, hs, hid]
        exact hc ▸ ht c' hcanonical

theorem revised
    (hb : ∀ u ∈ db.tombstones.rows, u.source = .conversationRevision → u.canonicalMessageId = some u.messageId)
    (ht : t.source = .conversationRevision → t.canonicalMessageId = some (strip t.messageId)) :
    ∀ u ∈ db'.tombstones.rows, u.source = .conversationRevision → u.canonicalMessageId = some u.messageId := by
  intro u hu hsource
  cases h.mem hu
  case inl he => subst he; exact ht hsource
  case inr hu =>
    cases hu
    case inr hu => exact hb u hu hsource
    case inl hu =>
      obtain ⟨old, hold, hkey, hu⟩ := hu
      have hid : old.messageId = strip t.messageId := congrArg Prod.snd hkey
      subst hu
      have ht := ht hsource
      simp [mergeTombstone, Tombstone.normalized, ht, hid]

end Recorded

theorem buried_of_eq (ht : db'.tombstones = db.tombstones) (hb : db.Buried s id) : db'.Buried s id := by
  obtain ⟨source, hsource, hne⟩ := hb
  exact ⟨source, by rw [mark, ht, ← mark, hsource], hne⟩

theorem Backed.of_eq (h : Backed db) (ht : db'.tombstones = db.tombstones) : Backed db' := by
  constructor
  case revised => exact fun t hmem => h.revised t (ht ▸ hmem)
  case backs   => exact fun t hmem c hc => (h.backs t (ht ▸ hmem) c hc).imp_right (buried_of_eq ht)

-- What every call keeps of the deletions: those of the user stay, and a message only goes with one of them.
structure Evolves (db db' : Database) : Prop where
  backed : Backed db'
  buried : ∀ s id, db.Buried s id → db'.Buried s id
  rows   : ∀ m ∈ db.messages.rows, db'.Buried m.sessionId m.id ∨
    ∃ next ∈ db'.messages.rows, next.sessionId = m.sessionId ∧ next.id = m.id ∧ next.ordinal = m.ordinal

namespace Evolves

variable {db₁ : Database}

theorem refl (h : Backed db) : Evolves db db :=
  ⟨h, fun _ _ => id, fun m hm => .inr ⟨m, hm, rfl, rfl, rfl⟩⟩

theorem trans (h₁ : Evolves db db₁) (h₂ : Evolves db₁ db') : Evolves db db' := by
  constructor
  case backed => exact h₂.backed
  case buried => exact fun s id h => h₂.buried s id (h₁.buried s id h)
  case rows =>
    intro m hm
    cases h₁.rows m hm
    case inl hb => exact .inl (h₂.buried _ _ hb)
    case inr hn =>
      obtain ⟨next, hnext, hs, hid, ho⟩ := hn
      cases h₂.rows next hnext
      case inl hb => exact .inl (hs ▸ hid ▸ hb)
      case inr hn =>
        obtain ⟨last, hlast, hs', hid', ho'⟩ := hn
        exact .inr ⟨last, hlast, hs'.trans hs, hid'.trans hid, ho'.trans ho⟩

-- Statements that leave the deletions alone
theorem of_messages (h : Backed db) (ht : db'.tombstones = db.tombstones)
    (hm : ∀ m ∈ db.messages.rows, ∃ next ∈ db'.messages.rows,
      next.sessionId = m.sessionId ∧ next.id = m.id ∧ next.ordinal = m.ordinal) : Evolves db db' := by
  constructor
  case backed => exact h.of_eq ht
  case buried => exact fun s id hb => buried_of_eq ht hb
  case rows   => exact fun m h => .inr (hm m h)

theorem of_eq (h : Backed db) (ht : db'.tombstones = db.tombstones) (hm : db'.messages = db.messages) :
    Evolves db db' :=
  of_messages h ht fun m hmem => ⟨m, hm ▸ hmem, rfl, rfl, rfl⟩

theorem of_update (h : Backed db) {p : Message → Bool} {f : Message → Message} {hf : ∀ m, (f m).id = m.id}
    (hs : ∀ m, (f m).sessionId = m.sessionId) (ho : ∀ m, (f m).ordinal = m.ordinal) :
    Evolves db (db.updateMessages p f hf) := by
  apply of_messages h
  case ht => rfl
  case hm =>
    intro m hm
    refine ⟨if p m then f m else m, List.mem_map_of_mem hm, ?_⟩
    split
    case isTrue  => exact ⟨hs m, hf m, ho m⟩
    case isFalse => exact ⟨rfl, rfl, rfl⟩

theorem of_insert (h : Backed db) (hi : db.insertMessage m = some db') : Evolves db db' := by
  simp only [insertMessage, Option.bind_eq_bind] at hi
  split at hi
  case isTrue => cases hi
  split at hi
  case isTrue => cases hi
  case isFalse =>
    obtain ⟨messages, hmessages, hi⟩ := Option.bind_eq_some_iff.mp hi
    cases hi
    have hrows : messages.rows = db.messages.rows ++ [m] := Table.rows_of_insert hmessages
    apply of_messages h
    case ht => rfl
    case hm => exact fun other hother => ⟨other, hrows ▸ List.mem_append_left _ hother, rfl, rfl, rfl⟩

-- A deletion that names its own message, or no message
theorem of_recorded (h : Backed db) (hr : Recorded t db db')
    (hc : ∀ c, t.canonicalMessageId = some c → c = strip t.messageId)
    (hsource : t.source = .conversationRevision → t.canonicalMessageId = some (strip t.messageId))
    (hb : t.source = .conversationRevision → ¬db.Buried (strip t.sessionId) (strip t.messageId)) : Evolves db db' := by
  have hburied : ∀ s id, db.Buried s id → db'.Buried s id := by
    intro s id hbury
    by_cases hs : t.source = .conversationRevision
    case neg => exact hr.buried hbury hs
    case pos =>
      unfold Buried
      rw [hr.mark, if_neg]
      case hnc =>
        intro he
        exact hb hs (he.left ▸ he.right ▸ hbury)
      exact hbury
  constructor
  case buried => exact hburied
  case rows   => exact fun m hm => .inr ⟨m, hr.messages ▸ hm, rfl, rfl, rfl⟩
  case backed => exact ⟨(hr.backs h.backs fun c h => .inl (hc c h)).mono hburied, hr.revised h.revised hsource⟩

end Evolves
end Database
end Conversation
