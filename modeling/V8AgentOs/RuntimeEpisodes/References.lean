import Mathlib.Data.Finset.Lattice.Lemmas
import Mathlib.Data.List.Perm.Subperm
import V8AgentOs.Lib.Absorption
import V8AgentOs.Python.Equality
import V8AgentOs.RuntimeEpisodes.Contract

-- core/database.py: the references to handoffs that an episode keeps.
namespace RuntimeEpisodes

open Absorption
open Python (Dict Json strip)

-- `repr` of a value that is no text shows something.
structure Shown extends Python.Text where
  shown : ∀ v : Json, (∀ s, v ≠ .str s) → strip (repr v) ≠ ""

-- A handoff, or a reference to one
structure Reference where
  members : Dict
  proper  : (Json.dict members).Proper

-- What stands in a group: `isinstance(raw_item, dict)`, or something else
inductive Item
  | dict (reference : Reference)
  | other

def Item.reference? : Item → Option Reference
  | dict r => some r
  | other  => none

-- `existing == item`
def Reference.eq (r s : Reference) : Bool :=
  (Json.dict r.members).eq (.dict s.members)

variable (text : Shown)

-- `_runtime_handoff_identity_aliases`
def runtime_handoff_identity_aliases (payload : Reference) : Finset String :=
  let values := ["handoffId", "handoffRefId", "id"].map (payload.members.get ·) ++
    valuesOf (payload.members.get "identityAliases")
  ((values.map text.stripped).filter (· ≠ "")).toFinset

-- One turn of the loop of `_merge_runtime_handoff_refs`
def mergeItem (merged : List Reference) (item : Reference) : List Reference :=
  let aliases := runtime_handoff_identity_aliases text item
  let isMatch := fun existing =>
    aliases ≠ ∅ ∧ aliases ∩ runtime_handoff_identity_aliases text existing ≠ ∅
  match (merged.zipIdx.filter fun existing => isMatch existing.1).map Prod.snd with
  | []            => if merged.any fun existing => existing.eq item then merged else merged ++ [item]
  | first :: rest => rest.reverse.foldl List.eraseIdx (merged.set first item)

def merge_runtime_handoff_refs (groups : List (List Item)) : List Reference :=
  (groups.flatten.filterMap Item.reference?).foldl (mergeItem text) []

-- What the groups hold
def references (groups : List (List Item)) : List Reference :=
  groups.flatten.filterMap Item.reference?

variable {text} {r s : Reference} {v w : Json} {groups : List (List Item)}

theorem mergeItem_eq {merged : List Reference} {item : Reference} :
    mergeItem text merged item = absorb (runtime_handoff_identity_aliases text) Reference.eq merged item := by
  have hm (existing : Reference) : decide (runtime_handoff_identity_aliases text item ≠ ∅ ∧
      runtime_handoff_identity_aliases text item ∩ runtime_handoff_identity_aliases text existing ≠ ∅) =
        shares (runtime_handoff_identity_aliases text) item existing := by
    rw [shares, ← decide_not, decide_eq_decide, Finset.disjoint_iff_inter_eq_empty]
    exact ⟨And.right, fun h => ⟨fun he => h (by simp [he]), h⟩⟩
  have hp : (merged.zipIdx.filter fun existing => decide (runtime_handoff_identity_aliases text item ≠ ∅ ∧
      runtime_handoff_identity_aliases text item ∩ runtime_handoff_identity_aliases text existing.1 ≠ ∅)).map Prod.snd =
        places (shares (runtime_handoff_identity_aliases text) item) merged := by
    simp only [hm, places]
  rw [mergeItem, absorb]
  simp only [hp]
  split
  case h_1 h => rw [places_eq_nil.mp h]; rfl
  case h_2 first rest h =>
    have hany : merged.any (shares (runtime_handoff_identity_aliases text) item) := by
      cases ha : merged.any (shares (runtime_handoff_identity_aliases text) item)
      case true => rfl
      case false => simp [places_eq_nil.mpr ha] at h
    rw [if_pos hany, enter_places h]

theorem merge_eq : merge_runtime_handoff_refs text groups =
    absorbAll (runtime_handoff_identity_aliases text) Reference.eq (references groups) := by
  rw [merge_runtime_handoff_refs, absorbAll, references]
  congr 1
  funext merged item
  exact mergeItem_eq

section Blank

-- A value without a text, which names nothing
def Blank (text : Shown) (v : Json) : Prop :=
  text.stripped v = ""

theorem strip_empty : strip "" = "" := by
  simp [strip]

theorem blank_of_false (h : v.truthy = false) : Blank text v := by
  rw [Blank, Python.Text.stripped, Python.Text.orEmpty, h, if_neg Bool.false_ne_true, strip_empty]

theorem blank_iff (h : ∀ s, v ≠ .str s) : Blank text v ↔ v.truthy = false := by
  refine ⟨fun hb => ?_, blank_of_false⟩
  cases ht : v.truthy
  case false => rfl
  case true =>
    have e : text.str v = text.repr v := by
      cases v
      case str s => exact absurd rfl (h s)
      all_goals rfl
    rw [Blank, Python.Text.stripped, Python.Text.orEmpty, if_pos ht, e] at hb
    exact absurd hb (text.shown v h)

theorem truthy_number {n : ℤ × ℤ} (h : v.number? = some n) : v.truthy = false ↔ Python.ratio n = 0 := by
  have hp : (10 : ℚ) ^ n.2 ≠ 0 := zpow_ne_zero _ (by decide)
  rw [Python.ratio, mul_eq_zero_iff_right hp, Int.cast_eq_zero]
  cases v
  case bool b => cases h; cases b <;> simp [Json.truthy]
  case int => cases h; simp [Json.truthy]
  case float s d e => cases h; cases s <;> simp [Json.truthy]
  all_goals cases h

theorem isEmpty_of_eqItems {xs ys : List Json} (h : Json.eqItems xs ys) : xs.isEmpty = ys.isEmpty := by
  cases xs <;> cases ys <;> first | rfl | cases h

-- Values that are equal are both blank, or none of them is.
theorem blank_congr (h : v.eq w) : Blank text v ↔ Blank text w := by
  have number {n : ℤ × ℤ} (hv : v.number? = some n) : Blank text v ↔ Blank text w := by
    obtain ⟨m, hw, e⟩ := (Json.eq_number hv).mp h
    have hvs : ∀ s, v ≠ .str s := fun s e => by cases e; cases hv
    have hws : ∀ s, w ≠ .str s := fun s e => by cases e; cases hw
    rw [blank_iff hvs, blank_iff hws, truthy_number hv, truthy_number hw, e]
  cases v
  case bool => exact number rfl
  case int => exact number rfl
  case float => exact number rfl
  case null =>
    cases w
    case null => rfl
    all_goals cases h
  case str s =>
    cases w
    case str t =>
      have e : s = t := by simpa [Json.eq] using h
      rw [e]
    all_goals cases h
  case list xs =>
    obtain ⟨ys, e, h⟩ := Json.eq_list.mp h
    cases e
    rw [blank_iff (by simp), blank_iff (by simp), Json.truthy, Json.truthy, isEmpty_of_eqItems h]
  case dict ms =>
    obtain ⟨ns, e, h, _⟩ := Json.eq_dict.mp h
    cases e
    rw [blank_iff (by simp), blank_iff (by simp), Json.truthy, Json.truthy]
    cases ms <;> cases ns <;> first | rfl | cases h

theorem blank_items {xs ys : List Json} (h : Json.eqItems xs ys) :
    (∀ x ∈ xs, Blank text x) ↔ ∀ y ∈ ys, Blank text y := by
  induction xs generalizing ys
  case nil =>
    cases ys
    case nil => rfl
    case cons => cases h
  case cons x xs hi =>
    cases ys
    case nil => cases h
    case cons y ys =>
      simp only [Json.eqItems, Bool.and_eq_true] at h
      simp only [List.forall_mem_cons, blank_congr h.left, hi h.right]

theorem blank_values (h : ∀ xs, v ≠ .list xs) : (∀ x ∈ valuesOf v, Blank text x) ↔ Blank text v := by
  have e : valuesOf v = if v.truthy then [v] else [] := by
    cases v
    case list xs => exact absurd rfl (h xs)
    all_goals rfl
  rw [e]
  cases ht : v.truthy
  case true => simp
  case false => simp [blank_of_false ht]

theorem valuesOf_congr (h : v.eq w) : (∀ x ∈ valuesOf v, Blank text x) ↔ ∀ x ∈ valuesOf w, Blank text x := by
  cases hv : v
  case list xs =>
    cases hv
    have ⟨ys, e, h⟩ := Json.eq_list.mp h
    cases e
    exact blank_items h
  all_goals
    have hw : ∀ ys, w ≠ .list ys := by
      intro ys e
      cases e
      cases hv
      simp [Json.eq, Json.number?] at h
    rw [← hv, blank_values (by simp [hv]), blank_values hw, blank_congr h]

theorem get_congr (h : r.eq s) (key : String) : (r.members.get key).eq (s.members.get key) := by
  have ⟨_, e, hl, hm⟩ := Json.eq_dict.mp h
  cases e
  have hm := Json.eqMembers_iff.mp hm
  have keys (t : Reference) : (t.members.map Prod.fst).Nodup := by
    have := t.proper
    cases this
    assumption
  cases hk : r.members.lookup key
  case some v =>
    have ⟨w, hw, he⟩ := hm key v (Lookup.mem_of_lookup hk)
    rw [Dict.get, Dict.get, hk, hw]
    exact he
  case none =>
    -- both have the same keys
    have hsub : r.members.map Prod.fst ⊆ s.members.map Prod.fst := by
      intro k hk
      have ⟨(k', v), hv, e⟩ := List.mem_map.mp hk
      cases e
      have ⟨w, hw, _⟩ := hm _ v hv
      exact List.mem_map.mpr ⟨(k', w), Lookup.mem_of_lookup hw, rfl⟩
    have hperm := (List.subperm_of_subset (keys r) hsub).perm_of_length_le (by simp [hl])
    have hs : s.members.lookup key = none := by
      rw [List.lookup_eq_none_iff] at hk ⊢
      intro m hm'
      have hm' := hperm.mem_iff.mpr (List.mem_map_of_mem hm')
      have ⟨m', hm', e⟩ := List.mem_map.mp hm'
      exact e ▸ hk m' hm'
    rw [Dict.get, Dict.get, hk, hs]
    rfl

theorem aliases_eq_empty : runtime_handoff_identity_aliases text r = ∅ ↔
    (∀ key ∈ ["handoffId", "handoffRefId", "id"], Blank text (r.members.get key)) ∧
      ∀ v ∈ valuesOf (r.members.get "identityAliases"), Blank text v := by
  rw [runtime_handoff_identity_aliases, List.toFinset_eq_empty_iff, List.filter_eq_nil_iff]
  simp only [List.forall_mem_map, List.forall_mem_append, Blank, decide_eq_true_eq, not_not, ne_eq]

theorem aliases_congr (h : r.eq s) :
    runtime_handoff_identity_aliases text r = ∅ ↔ runtime_handoff_identity_aliases text s = ∅ := by
  simp only [aliases_eq_empty, blank_congr (get_congr h _), valuesOf_congr (get_congr h _)]

end Blank

variable (text) in
-- The references that share an alias, and those that are equal, have the same aliases.
abbrev Consistent (inputs : List Reference) : Prop :=
  Steady (runtime_handoff_identity_aliases text) Reference.eq inputs

theorem references_dicts {rs : List Reference} {groups : List (List Item)} :
    references (rs.map .dict :: groups) = rs ++ references groups := by
  have h : (rs.map Item.dict).filterMap Item.reference? = rs := by
    rw [List.filterMap_map]
    exact List.filterMap_some
  rw [references, List.flatten_cons, List.filterMap_append, h]
  rfl

theorem merge_again {rs : List Reference} : merge_runtime_handoff_refs text [rs.map .dict] =
    absorbAll (runtime_handoff_identity_aliases text) Reference.eq rs := by
  rw [merge_eq, references_dicts]
  simp [references]

theorem eq_self (r : Reference) : r.eq r :=
  Json.eq_refl r.proper

theorem again_of_consistent (c : Consistent text (references groups)) :
    merge_runtime_handoff_refs text [(merge_runtime_handoff_refs text groups).map .dict] =
      merge_runtime_handoff_refs text groups := by
  rw [merge_again, merge_eq]
  exact c.again

-- Where the inputs are consistent, a group once more only changes versions.
theorem merge_group (c : Consistent text (references groups)) {group : List Item} (hg : group ∈ groups) :
    List.Forall₂ (Version (runtime_handoff_identity_aliases text)) (merge_runtime_handoff_refs text groups)
      (merge_runtime_handoff_refs text [(merge_runtime_handoff_refs text groups).map .dict, group]) := by
  have st := c.settled fun r _ => eq_self r
  rw [← merge_eq] at st
  have mem (r : Reference) (hr : r ∈ references [group]) : r ∈ references groups := by
    simp only [references, List.flatten_singleton, List.mem_filterMap] at hr
    have ⟨i, hi, h⟩ := hr
    exact List.mem_filterMap.mpr ⟨i, List.mem_flatten.mpr ⟨group, hg, hi⟩, h⟩
  have e := again_of_consistent c
  rw [merge_again, absorbAll] at e
  generalize merge_runtime_handoff_refs text groups = refs at st e ⊢
  have h : merge_runtime_handoff_refs text [refs.map .dict, group] = _ := merge_eq
  rw [h, references_dicts, absorbAll, List.foldl_append, e]
  exact st.foldl_eq c mem

-- What a merge keeps. With consistent inputs, no alias gets lost.
theorem merged_handoff_refs (text : Shown) (groups : List (List Item)) :
    let aliases := runtime_handoff_identity_aliases text
    let inputs := references groups
    let refs := merge_runtime_handoff_refs text groups
    let again := merge_runtime_handoff_refs text [refs.map .dict]
    (refs.Pairwise fun r s => Disjoint (aliases r) (aliases s)) ∧
    (∃ lines, Account aliases Reference.eq inputs lines ∧ lines.map (·.latest.2) = refs) ∧
    ((∀ r ∈ inputs, aliases r = ∅ → ∃ s ∈ refs, s.eq r) ∧
      refs.Pairwise fun r s => aliases r = ∅ → aliases s = ∅ → r.eq s = false) ∧
    (again.Sublist refs ∧ ∀ r ∈ refs, r ∈ again ∨ ∃ s ∈ again, s.eq r) ∧
    (Consistent text inputs →
      (∀ r ∈ inputs, ∀ a ∈ aliases r, ∃ s ∈ refs, a ∈ aliases s) ∧ again = refs ∧
      ∀ group ∈ groups,
        List.Forall₂ (Version aliases) refs (merge_runtime_handoff_refs text [refs.map .dict, group])) := by
  dsimp only
  rw [merge_again]
  refine ⟨?_, ?_, ⟨fun r hr hn => ?_, ?_⟩, ?_, fun c => ⟨fun r hr a ha => ?_, ?_, fun group hg => merge_group c hg⟩⟩
  case refine_1 =>
    rw [merge_eq]
    exact pairwise_absorbAll
  case refine_2 =>
    rw [merge_eq]
    exact exists_account _ _ _
  case refine_3 =>
    have congr (r : Reference) (_ : r ∈ references groups) (s : Reference) (_ : s ∈ references groups) (h : r.eq s) :
        runtime_handoff_identity_aliases text r = ∅ ↔ runtime_handoff_identity_aliases text s = ∅ := aliases_congr h
    have ⟨s, hs, _, h⟩ := exists_nameless congr hr hn
    rw [merge_eq]
    exact ⟨s, hs, h.elim (· ▸ eq_self r) id⟩
  case refine_4 =>
    have ⟨lines, a, e⟩ := exists_account (runtime_handoff_identity_aliases text) Reference.eq (references groups)
    rw [merge_eq, ← e, List.pairwise_map]
    exact a.nameless
  case refine_5 =>
    rw [merge_eq]
    exact absorbAll_again
  case refine_6 =>
    have ⟨s, hs, e⟩ := exists_names c hr
    rw [merge_eq]
    rw [← e] at ha
    exact ⟨s, hs, ha⟩
  case refine_7 =>
    have h := again_of_consistent c
    rw [merge_again] at h
    exact h

-- A text knowing ASCII, and `repr` of the identities below
def asciiShown : Shown where
  toText := { Python.asciiText with
    repr := fun v => match v with
      | .bool true => "True"
      | .int 1     => "1"
      | _          => "?" }
  shown v _ := by
    dsimp only
    split
    case h_1 => decide +kernel
    case h_2 => decide +kernel
    case h_3 => decide +kernel

-- A reference with an identity, other aliases and some more
def sampleRef (id : Json) (proper : id.Proper) (aliases : List String) (note : String) : Reference where
  members := [("id", id), ("identityAliases", .list (aliases.map .str)), ("note", .str note)]
  proper := by
    apply Json.Proper.dict (by simp)
    simp only [List.forall_mem_cons, List.not_mem_nil, false_implies, implies_true, and_true]
    refine ⟨proper, .list ?_, .str⟩
    simp only [List.forall_mem_map]
    exact fun _ _ => .str

-- An alias is lost when a reference without it takes the place, a reference once more splits what another one joined,
-- and a second merge drops a reference whose identity `1` is equal to the identity `True` of another.
theorem alias_lost :
    let a := sampleRef (.str "a") .str [] ""
    let b := sampleRef (.str "b") .str [] ""
    let both := sampleRef (.str "a") .str ["b"] ""
    let odd := [sampleRef (.bool true) .bool [] "q", sampleRef (.int 1) .int [] "r", sampleRef (.int 1) .int [] "q"]
    let merge := merge_runtime_handoff_refs asciiShown
    ("b" ∈ runtime_handoff_identity_aliases asciiShown both ∧
      ¬∃ r ∈ merge [[.dict both], [.dict a]], "b" ∈ runtime_handoff_identity_aliases asciiShown r) ∧
    ((merge [[.dict a, .dict b], [.dict both]]).length = 1 ∧
      (merge [(merge [[.dict a, .dict b], [.dict both]]).map .dict, [.dict a, .dict b]]).length = 2) ∧
    (merge [odd.map .dict]).length = 2 ∧ (merge [(merge [odd.map .dict]).map .dict]).length = 1 := by
  decide +kernel

def sampleGroups : List (List Item) :=
  [[.dict (sampleRef (.str "a") .str ["b"] "old")],
   [.other, .dict (sampleRef .null .null [] "none"), .dict (sampleRef (.str "a") .str ["b"] "new")]]

theorem sampleGroups_replayed : ∀ group ∈ sampleGroups,
    List.Forall₂ (Version (runtime_handoff_identity_aliases asciiShown))
      (merge_runtime_handoff_refs asciiShown sampleGroups) (merge_runtime_handoff_refs asciiShown
        [(merge_runtime_handoff_refs asciiShown sampleGroups).map .dict, group]) :=
  (merged_handoff_refs asciiShown sampleGroups).right.right.right.right
    ⟨by decide +kernel, by decide +kernel⟩ |>.right.right

end RuntimeEpisodes
