import V8AgentOs.Lib.Rows

-- A table with a primary key. That no two rows share a key is part of the table.
structure Table {α β : Type} (key : α → β) where
  rows   : List α
  unique : (rows.map key).Nodup

namespace Table

variable {α β : Type} {key : α → β}

def empty : Table key :=
  ⟨[], .nil⟩

theorem key_update {p : α → Bool} {f : α → α} (hf : ∀ a, key (f a) = key a) (a : α) :
    key (if p a then f a else a) = key a := by
  split
  case isTrue  => exact hf a
  case isFalse => rfl

-- `UPDATE … SET f WHERE p`
def update (t : Table key) (p : α → Bool) (f : α → α) (hf : ∀ a, key (f a) = key a := by exact fun _ => rfl) :
    Table key where
  rows   := t.rows.map fun a => if p a then f a else a
  unique := by
    have h : key ∘ (fun a => if p a then f a else a) = key := funext (key_update hf)
    rw [List.map_map, h]
    exact t.unique

-- `DELETE … WHERE p`
def delete (t : Table key) (p : α → Bool) : Table key where
  rows   := t.rows.filter fun a => !p a
  unique := t.unique.sublist (List.filter_sublist.map key)

-- Some row meets a condition.
def any (t : Table key) (p : α → Bool) : Bool :=
  t.rows.any p

-- `INSERT`, which the primary key may refuse
def insert? [DecidableEq β] (t : Table key) (a : α) : Option (Table key) :=
  if h : key a ∈ t.rows.map key then none
  else some ⟨t.rows ++ [a], by simpa [List.nodup_append] using ⟨t.unique, by simpa using h⟩⟩

theorem rows_of_insert [DecidableEq β] {t t' : Table key} {a : α} (h : t.insert? a = some t') :
    t'.rows = t.rows ++ [a] := by
  unfold insert? at h
  split at h
  case isTrue  => cases h
  case isFalse => cases h; rfl

-- An update that does not touch a condition
theorem any_update {t : Table key} {p q : α → Bool} {f : α → α} {h : ∀ a, key (f a) = key a}
    (hq : ∀ a, p a → q (f a) = q a) : (t.update p f h).any q = t.any q := by
  show (t.rows.map _).any q = t.rows.any q
  rw [List.any_map]
  congr 1
  funext a
  cases hp : p a
  case false => simp [hp]
  case true  => simp [hp, hq a hp]

theorem any_insert [DecidableEq β] {t t' : Table key} {a : α} {q : α → Bool} (h : t.insert? a = some t') :
    t'.any q = (t.any q || q a) := by
  rw [any, rows_of_insert h]
  simp [any]

-- A deletion of rows that do not meet a condition
theorem any_delete {t : Table key} {p q : α → Bool} (hq : ∀ a ∈ t.rows, p a → q a = false) :
    (t.delete p).any q = t.any q := by
  show (t.rows.filter _).any q = t.rows.any q
  rw [Bool.eq_iff_iff, List.any_eq_true, List.any_eq_true]
  constructor
  case mp => exact fun ⟨a, ha, hqa⟩ => ⟨a, List.mem_of_mem_filter ha, hqa⟩
  case mpr =>
    intro ⟨a, ha, hqa⟩
    refine ⟨a, List.mem_filter.mpr ⟨ha, ?_⟩, hqa⟩
    cases hp : p a
    case false => rfl
    case true =>
      rw [hq a ha hp] at hqa
      cases hqa

-- An update of no row
theorem update_of_not_any {t : Table key} {p : α → Bool} {f : α → α} {h : ∀ a, key (f a) = key a}
    (hn : t.any p = false) : t.update p f h = t := by
  have hrows : (t.rows.map fun a => if p a then f a else a) = t.rows := by
    rw [← List.map_id t.rows, List.map_map]
    apply List.map_congr_left
    intro a ha
    have : p a = false := by simpa using List.any_eq_false.mp hn a ha
    simp [this]
  show Table.mk _ _ = t
  cases t
  case mk rows unique =>
    have hrows : (rows.map fun a => if p a then f a else a) = rows := hrows
    simp [hrows]

variable [DecidableEq β] {t : Table key} {a : α} {b : β} {p : α → Bool} {f : α → α}

-- The row with a key
def get? (t : Table key) (b : β) : Option α :=
  t.rows.find? (key · = b)

theorem key_of_get? (h : t.get? b = some a) : key a = b := by
  simpa using List.find?_some h

theorem mem_of_get? (h : t.get? b = some a) : a ∈ t.rows :=
  List.mem_of_find?_eq_some h

theorem get?_of_mem (h : a ∈ t.rows) : t.get? (key a) = some a :=
  Rows.find?_of_nodup t.unique h rfl

theorem get?_delete : (t.delete p).get? b = (t.get? b).filter fun a => !p a := by
  cases h : t.get? b
  case none =>
    apply List.find?_eq_none.mpr
    intro a ha
    exact List.find?_eq_none.mp h a (List.mem_of_mem_filter ha)
  case some a =>
    have hkey := key_of_get? h
    cases hp : p a
    case false =>
      have ha : a ∈ (t.delete p).rows := List.mem_filter.mpr ⟨mem_of_get? h, by simp [hp]⟩
      have hget : (t.delete p).get? b = some a := hkey ▸ get?_of_mem ha
      simpa [Option.filter, hp] using hget
    case true =>
      have hnone : (t.delete p).get? b = none := by
        apply List.find?_eq_none.mpr
        intro c hc hcb
        have ⟨hc, hcp⟩ := List.mem_filter.mp hc
        have : c = a := List.inj_on_of_nodup_map t.unique hc (mem_of_get? h) ((of_decide_eq_true hcb).trans hkey.symm)
        simp [this, hp] at hcp
      simpa [Option.filter, hp] using hnone

@[simp] theorem get?_empty : (empty : Table key).get? b = none := rfl

@[simp] theorem get?_update {h : ∀ a, key (f a) = key a} :
    (t.update p f h).get? b = (t.get? b).map fun a => if p a then f a else a :=
  Rows.find?_map (key_update h)

-- A row is found after an insertion exactly when it was there before or was inserted.
theorem get?_insert {t' : Table key} (h : t.insert? a = some t') :
    t'.get? b = if key a = b then some a else t.get? b := by
  unfold insert? at h
  split at h
  case isTrue => cases h
  case isFalse hn =>
    cases h
    show (t.rows ++ [a]).find? (key · = b) = _
    rw [List.find?_append]
    split
    case isTrue hb =>
      have : t.rows.find? (key · = b) = none := by
        apply List.find?_eq_none.mpr
        intro c hc hcb
        exact hn (List.mem_map.mpr ⟨c, hc, (of_decide_eq_true hcb).trans hb.symm⟩)
      simp [this, hb]
    case isFalse hb => simp [hb, get?]

theorem get?_none_of_insert {t' : Table key} (h : t.insert? a = some t') : t.get? (key a) = none := by
  unfold insert? at h
  split at h
  case isTrue => cases h
  case isFalse hn =>
    apply List.find?_eq_none.mpr
    intro c hc hcb
    exact hn (List.mem_map.mpr ⟨c, hc, of_decide_eq_true hcb⟩)

theorem insert?_of_get?_none (h : t.get? (key a) = none) : (t.insert? a).isSome := by
  unfold insert?
  split
  case isTrue hm =>
    have ⟨c, hc, hk⟩ := List.mem_map.mp hm
    exact absurd (decide_eq_true hk) (List.find?_eq_none.mp h c hc)
  case isFalse => rfl

-- `INSERT … ON CONFLICT DO UPDATE SET f`
def upsert (t : Table key) (a : α) (f : α → α) (hf : ∀ a, key (f a) = key a := by exact fun _ => rfl) : Table key :=
  (t.insert? a).getD (t.update (key · = key a) f hf)

theorem get?_upsert {hf : ∀ a, key (f a) = key a} :
    (t.upsert a f hf).get? b = if key a = b then some ((t.get? b).elim a f) else t.get? b := by
  unfold upsert
  cases h : t.insert? a
  case some t' =>
    rw [Option.getD_some, get?_insert h]
    split
    case isTrue hb => rw [← hb, get?_none_of_insert h, Option.elim_none]
    case isFalse   => rfl
  case none =>
    rw [Option.getD_none, get?_update]
    cases hc : t.get? b
    case some c =>
      have hk : key c = b := key_of_get? hc
      by_cases hb : key a = b
      case pos => simp [hk, hb]
      case neg => simp [hk, hb, Ne.symm hb]
    case none =>
      split
      case isFalse   => rfl
      case isTrue hb =>
        subst hb
        have := insert?_of_get?_none hc
        rw [h] at this
        cases this

-- The condition names a key: it is met by the row with this key or by none.
theorem any_key {q : α → Bool} :
    t.any (fun a => decide (key a = b) && q a) = ((t.get? b).map q).getD false := by
  cases h : t.get? b
  case none =>
    have hn := List.find?_eq_none.mp h
    rw [any, List.any_eq_false.mpr]
    case _ => rfl
    intro a ha hq
    exact hn a ha (Bool.and_eq_true_iff.mp hq).left
  case some a =>
    show t.any _ = q a
    rw [Bool.eq_iff_iff, any, List.any_eq_true]
    constructor
    case mp =>
      intro ⟨c, hc, hq⟩
      have ⟨hk, hq⟩ := Bool.and_eq_true_iff.mp hq
      have : t.get? b = some c := of_decide_eq_true hk ▸ get?_of_mem hc
      cases h.symm.trans this
      exact hq
    case mpr =>
      exact fun hq => ⟨a, mem_of_get? h, by simp [key_of_get? h, hq]⟩

end Table
