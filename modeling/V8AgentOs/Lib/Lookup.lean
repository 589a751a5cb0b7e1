import Mathlib.Data.List.Nodup

-- Lists of keys and values, as maps that find the first value of a key
namespace Lookup

variable {α β γ : Type*} [BEq α] [LawfulBEq α] {l : List (α × β)} {a k : α} {b v : β}

theorem mem_of_lookup (h : l.lookup a = some b) : (a, b) ∈ l := by
  obtain ⟨before, after, rfl, _⟩ := List.lookup_eq_some_iff.mp h
  exact List.mem_append_right _ List.mem_cons_self

theorem lookup_of_unique (h : (a, b) ∈ l) (hu : ∀ b', (a, b') ∈ l → b' = b) : l.lookup a = some b := by
  cases hl : l.lookup a
  case none =>
    have hne := List.lookup_eq_none_iff.mp hl (a, b) h
    simp at hne
  case some b' => rw [hu b' (mem_of_lookup hl)]

theorem lookup_of_nodup (hn : (l.map Prod.fst).Nodup) (h : (a, b) ∈ l) : l.lookup a = some b := by
  apply lookup_of_unique h
  intro b' h'
  have heq := List.inj_on_of_nodup_map hn h' h rfl
  exact congrArg Prod.snd heq

-- The keys and values of records whose keys differ
theorem lookup_map_iff {f : γ → α} {g : γ → β} {cs : List γ} (hn : (cs.map f).Nodup) :
    (cs.map fun c => (f c, g c)).lookup a = some b ↔ ∃ c ∈ cs, f c = a ∧ g c = b := by
  constructor
  case mp =>
    intro h
    have ⟨c, hc, heq⟩ := List.mem_map.mp (mem_of_lookup h)
    exact ⟨c, hc, congrArg Prod.fst heq, congrArg Prod.snd heq⟩
  case mpr =>
    rintro ⟨c, hc, rfl, rfl⟩
    apply lookup_of_nodup
    case hn => simpa [List.map_map, Function.comp_def] using hn
    case h => exact List.mem_map_of_mem hc

theorem lookup_map_none {f : γ → α} {g : γ → β} {cs : List γ} (h : a ∉ cs.map f) :
    (cs.map fun c => (f c, g c)).lookup a = none := by
  apply List.lookup_eq_none_iff.mpr
  intro p hp
  obtain ⟨c, hc, rfl⟩ := List.mem_map.mp hp
  have hne : a ≠ f c := by
    rintro rfl
    exact h (List.mem_map_of_mem hc)
  simpa using hne

omit [LawfulBEq α] in
theorem lookup_map_eq_find {f : γ → α} {g : γ → β} {cs : List γ} :
    (cs.map fun c => (f c, g c)).lookup a = (cs.find? fun c => a == f c).map g := by
  induction cs
  case nil => rfl
  case cons c cs hi =>
    rw [List.map_cons, List.lookup_cons, List.find?_cons, hi]
    cases a == f c <;> rfl

-- `d[key] = value`: a value that is replaced keeps its place.
def assign (l : List (α × β)) (k : α) (v : β) : List (α × β) :=
  if (l.lookup k).isSome then l.map fun p => if p.1 == k then (k, v) else p else l ++ [(k, v)]

omit [LawfulBEq α] in
theorem assign_of_none (h : l.lookup k = none) : assign l k v = l ++ [(k, v)] := by
  simp [assign, h]

theorem mem_keys_iff : k ∈ l.map Prod.fst ↔ (l.lookup k).isSome := by
  rw [List.mem_map, List.lookup_isSome_iff]
  constructor
  case mp  => rintro ⟨p, hp, rfl⟩; exact ⟨p, hp, beq_self_eq_true _⟩
  case mpr => rintro ⟨p, hp, heq⟩; exact ⟨p, hp, (beq_iff_eq.mp heq).symm⟩

omit [LawfulBEq α] in
theorem mem_of_mem_assign {p : α × β} (h : p ∈ assign l k v) : p ∈ l ∨ p = (k, v) := by
  unfold assign at h
  split at h
  case isTrue =>
    have ⟨q, hq, heq⟩ := List.mem_map.mp h
    split at heq
    case isTrue  => exact .inr heq.symm
    case isFalse => exact .inl (heq ▸ hq)
  case isFalse => simpa using h

theorem keys_assign [DecidableEq α] :
    (assign l k v).map Prod.fst = if k ∈ l.map Prod.fst then l.map Prod.fst else l.map Prod.fst ++ [k] := by
  unfold assign
  by_cases h : k ∈ l.map Prod.fst
  case pos =>
    rw [if_pos (mem_keys_iff.mp h), if_pos h, List.map_map]
    apply List.map_congr_left
    intro p _
    by_cases hp : p.1 = k
    case pos => simp [hp]
    case neg => simp [hp]
  case neg =>
    rw [if_neg (fun hs => h (mem_keys_iff.mpr hs)), if_neg h, List.map_append]
    rfl

theorem lookup_assign_self : (assign l k v).lookup k = some v := by
  unfold assign
  cases hl : l.lookup k
  case none => simp [List.lookup_append, hl]
  case some old =>
    simp only [Option.isSome_some, if_true]
    have hmem := mem_of_lookup hl
    clear hl
    induction l
    case nil => exact absurd hmem List.not_mem_nil
    case cons p l hi =>
      rw [List.map_cons, List.lookup_cons]
      by_cases hp : p.1 = k
      case pos => simp [hp]
      case neg =>
        have hne : (k == p.1) = false := by simpa using Ne.symm hp
        have hrest : (k, old) ∈ l := (List.mem_cons.mp hmem).resolve_left fun heq => hp (congrArg Prod.fst heq).symm
        simp [hp, hne, hi hrest]

theorem lookup_assign_of_ne (h : a ≠ k) : (assign l k v).lookup a = l.lookup a := by
  have hne : (a == k) = false := by simpa using h
  unfold assign
  split
  case isFalse => simp [List.lookup_append, List.lookup_cons, hne]
  case isTrue hs =>
    clear hs
    induction l
    case nil => rfl
    case cons p l hi =>
      rw [List.map_cons, List.lookup_cons, List.lookup_cons, hi]
      by_cases hp : p.1 = k
      case pos => simp [hp, hne]
      case neg => simp [hp]

theorem filter_assign [DecidableEq α] : (assign l k v).filter (·.1 ≠ k) = l.filter (·.1 ≠ k) := by
  unfold assign
  split
  case isFalse => simp
  case isTrue hs =>
    clear hs
    induction l
    case nil => rfl
    case cons p l hi =>
      by_cases hp : p.1 = k
      case pos => simpa [hp] using hi
      case neg => simpa [hp] using hi

theorem lookup_filter_of_ne [DecidableEq α] (h : a ≠ k) : (l.filter (·.1 ≠ k)).lookup a = l.lookup a := by
  have hne : (a == k) = false := by simpa using h
  induction l
  case nil => rfl
  case cons p l hi =>
    by_cases hp : p.1 = k
    case pos => rw [List.filter_cons_of_neg (by simpa using hp), hi, List.lookup_cons, hp, hne]
    case neg => rw [List.filter_cons_of_pos (by simpa using hp), List.lookup_cons, List.lookup_cons, hi]

theorem lookup_filter_self [DecidableEq α] : (l.filter (·.1 ≠ k)).lookup k = none := by
  rw [List.lookup_eq_none_iff]
  intro p hp
  have hne : p.1 ≠ k := by simpa using (List.mem_filter.mp hp).right
  simpa using Ne.symm hne

end Lookup
