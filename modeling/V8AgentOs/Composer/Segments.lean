import Mathlib.Data.List.Dedup
import Mathlib.Data.List.Sort
import V8AgentOs.Lib.Stretches
import V8AgentOs.Script.Text

-- packages/session-realtime/src/composer-inline-references.ts: the references that stand in the text of the composer,
-- and their removal by a backspace.
namespace Composer

open Script (Text isSpace trim indexOf)

inductive ComposerInlineReferenceKind
  | command
  | skill
  | subagentFamily
  | plugin
  | canvasResource
  deriving DecidableEq

structure ComposerInlineReference where
  kind  : ComposerInlineReferenceKind
  id    : Text
  label : Text
  deriving DecidableEq

structure ComposerInlineSegment where
  text      : Text
  start     : ℕ
  stop      : ℕ
  reference : Option ComposerInlineReference -- that of a segment of the type `reference`
  deriving DecidableEq

structure ComposerReferenceDeletion where
  text                : Text
  caret               : ℕ
  removedReferenceIds : List Text
  deriving DecidableEq

def atSign : UInt16 := 0x40

def slash : UInt16 := 0x2F

-- `String(reference.label || "").trim().replace(/^[@/]+/, "")` behind its sign
def composerReferenceToken (reference : ComposerInlineReference) : Text :=
  (if reference.kind = .command then slash else atSign) ::
    (trim reference.label).dropWhile fun u => u == atSign || u == slash

structure Item where
  reference : ComposerInlineReference
  token     : Text

-- The references with a label, those with long tokens first
def referenceTokens (references : List ComposerInlineReference) : List Item :=
  ((references.map fun reference => ⟨reference, composerReferenceToken reference⟩).filter fun item : Item =>
    1 < item.token.length).insertionSort fun left right => right.token.length ≤ left.token.length

structure Match where
  start     : ℕ
  reference : ComposerInlineReference
  token     : Text

-- `end: start + token.length`
def Match.stop (m : Match) : ℕ :=
  m.start + m.token.length

-- `value.slice(start, end)`
def slice (value : Text) (start stop : ℕ) : Text :=
  (value.take stop).drop start

-- The search for one token, which goes on behind each match. A step takes more than one unit of the text, so that the
-- length of the text is fuel enough.
def occurrences (value token : Text) : ℕ → ℕ → List ℕ
  | 0, _              => []
  | fuel + 1, fromIndex =>
    if fromIndex < value.length then
      match indexOf token (value.drop fromIndex) with
      | none       => []
      | some index => (fromIndex + index) :: occurrences value token fuel (fromIndex + index + token.length)
    else []

def itemMatches (value : Text) (item : Item) : List Match :=
  (occurrences value item.token value.length 0).map fun start => ⟨start, item.reference, item.token⟩

-- `left.start - right.start || right.token.length - left.token.length` is not positive.
def InOrder (left right : Match) : Prop :=
  left.start < right.start ∨ (left.start = right.start ∧ right.token.length ≤ left.token.length)

instance : DecidableRel InOrder :=
  fun _ _ => inferInstanceAs (Decidable (_ ∨ _ ∧ _))

def matchesOf (value : Text) (tokens : List Item) : List Match :=
  (tokens.flatMap (itemMatches value)).insertionSort InOrder

def textSegment (value : Text) (start stop : ℕ) : ComposerInlineSegment :=
  ⟨slice value start stop, start, stop, none⟩

def segmentsFrom (value : Text) (cursor : ℕ) : List Match → List ComposerInlineSegment
  | []      => if cursor < value.length then [textSegment value cursor value.length] else []
  | m :: ms =>
    if m.start < cursor then segmentsFrom value cursor ms
    else
      (if cursor < m.start then [textSegment value cursor m.start] else []) ++
        ⟨m.token, m.start, m.stop, some m.reference⟩ :: segmentsFrom value m.stop ms

def buildComposerInlineSegments (value : Text) (references : List ComposerInlineReference) :
    List ComposerInlineSegment :=
  let tokens := referenceTokens references
  if value = [] ∨ tokens = [] then
    if value = [] then [] else [textSegment value 0 value.length]
  else segmentsFrom value 0 (matchesOf value tokens)

-- `/\s/.test(value[index] || "")`
def spaceAt (value : Text) (index : ℕ) : Bool :=
  value[index]?.any isSpace

-- A caret is touched at its left, a selection in itself.
def touches (start stop : ℕ) (segment : ComposerInlineSegment) : Bool :=
  if start = stop then segment.start < start && start ≤ segment.stop
  else segment.start < stop && start < segment.stop

-- A caret behind the white space behind a reference takes both. (`removeEnd = start` sets it to what it is.)
def touched (value : Text) (referenceSegments : List ComposerInlineSegment) (start stop : ℕ) :
    List ComposerInlineSegment :=
  if start = stop ∧ referenceSegments.filter (touches start stop) = [] ∧ 0 < start ∧ spaceAt value (start - 1) then
    referenceSegments.filter fun segment => segment.stop = start - 1
  else referenceSegments.filter (touches start stop)

-- The segments with a reference
def marks (value : Text) (references : List ComposerInlineReference) : List ComposerInlineSegment :=
  (buildComposerInlineSegments value references).filter (·.reference.isSome)

-- From where to where the text is removed. A blank behind it goes as well, unless it still divides the text.
def removal (value : Text) (found : List ComposerInlineSegment) (start stop : ℕ) : ℕ × ℕ :=
  let removeStart := (found.map (·.start)).foldl min start
  let removeEnd := (found.map (·.stop)).foldl max stop
  if removeEnd < value.length ∧ value[removeEnd]? = some 0x20 ∧ (removeStart = 0 ∨ spaceAt value (removeStart - 1)) then
    (removeStart, removeEnd + 1)
  else (removeStart, removeEnd)

-- `Array.from(new Set(ids.filter(Boolean)))`: each in the place where it stands first
def distinct (ids : List Text) : List Text :=
  (ids.filter (· ≠ [])).reverse.dedup.reverse

def removeComposerReferenceAtBackspace (value : Text) (references : List ComposerInlineReference)
    (selectionStart selectionEnd : ℤ) : Option ComposerReferenceDeletion :=
  let start := (max 0 (min (value.length : ℤ) selectionStart)).toNat
  let stop := (max (start : ℤ) (min (value.length : ℤ) selectionEnd)).toNat
  let found := touched value (marks value references) start stop
  if found = [] then none
  else
    let (removeStart, removeEnd) := removal value found start stop
    some {
      text                := value.take removeStart ++ value.drop removeEnd
      caret               := removeStart
      removedReferenceIds := distinct (found.map fun segment => (segment.reference.map (·.id)).getD [])
    }

end Composer

-- How the segments divide the text.
namespace Composer

open Script (Text indexOf)
open Stretches (Chosen Choice Before select)

-- The references that have a token
def Listed (references : List ComposerInlineReference) (reference : ComposerInlineReference) : Prop :=
  reference ∈ references ∧ 1 < (composerReferenceToken reference).length

-- The token stands here.
def Occurs (value token : Text) (start stop : ℕ) : Prop :=
  stop = start + token.length ∧ token <+: value.drop start

-- The search for the token of a reference, from left to right, finds it here.
def Found (value : Text) (references : List ComposerInlineReference) (start stop : ℕ) : Prop :=
  ∃ reference, Listed references reference ∧ Chosen (Occurs value (composerReferenceToken reference)) start stop

-- The segments cover the text from the cursor on, one behind the other.
def Tiles (value : Text) : ℕ → List ComposerInlineSegment → Prop
  | cursor, []      => cursor = value.length
  | cursor, s :: ss =>
    s.start = cursor ∧ cursor < s.stop ∧ s.stop ≤ value.length ∧ s.text = slice value s.start s.stop ∧
      Tiles value s.stop ss

-- Matches, as they are taken from the cursor on
def Laid (value : Text) : ℕ → List Match → Prop
  | cursor, []      => cursor ≤ value.length
  | cursor, m :: ms =>
    cursor ≤ m.start ∧ m.start < m.stop ∧ m.stop ≤ value.length ∧ m.token = slice value m.start m.stop ∧
      Laid value m.stop ms

-- The segments for the matches that are taken
def tile (value : Text) (cursor : ℕ) : List Match → List ComposerInlineSegment
  | []      => if cursor < value.length then [textSegment value cursor value.length] else []
  | m :: ms =>
    (if cursor < m.start then [textSegment value cursor m.start] else []) ++
      ⟨m.token, m.start, m.stop, some m.reference⟩ :: tile value m.stop ms

variable {value token : Text} {references : List ComposerInlineReference} {item : Item} {m m' : Match} {ms : List Match}
  {segment : ComposerInlineSegment} {cursor p e fuel fromIndex : ℕ}

theorem length_slice (h : e ≤ value.length) : (slice value p e).length = e - p := by
  simp [slice, Nat.min_eq_left h]

theorem slice_of_starts (h : token <+: value.drop p) : slice value p (p + token.length) = token := by
  obtain ⟨rest, h⟩ := h
  rw [slice, List.drop_take, Nat.add_sub_cancel_left, ← h, List.take_left]

theorem drop_slice {k : ℕ} : (slice value p e).drop k = (value.drop (p + k)).take (e - (p + k)) := by
  rw [slice, List.drop_drop, List.drop_take]

-- Where a token stands inside a part of the text
theorem infix_slice_iff (ht : token ≠ []) : token <:+: slice value p e ↔
    ∃ start stop, Occurs value token start stop ∧ p ≤ start ∧ stop ≤ e := by
  have hpos := List.length_pos_iff.mpr ht
  constructor
  case mp =>
    intro h
    obtain ⟨rest, hstarts, hsuffix⟩ := List.infix_iff_prefix_suffix.mp h
    rw [List.suffix_iff_eq_drop.mp hsuffix, drop_slice] at hstarts
    obtain ⟨hstarts, hlength⟩ := List.prefix_take_iff.mp hstarts
    exact ⟨_, _, ⟨rfl, hstarts⟩, Nat.le_add_right _ _, by omega⟩
  case mpr =>
    intro ⟨start, stop, hoccurs, hstart, hstop⟩
    have hend := hoccurs.left
    have hstarts : token <+: (slice value p e).drop (start - p) := by
      rw [drop_slice, Nat.add_sub_cancel' hstart]
      exact List.prefix_take_iff.mpr ⟨hoccurs.right, by omega⟩
    exact hstarts.isInfix.trans (List.drop_suffix _ _).isInfix

theorem Occurs.le_length (h : Occurs value token p e) (ht : token ≠ []) : e ≤ value.length := by
  have hlength := h.right.length_le
  have hpos := List.length_pos_iff.mpr ht
  rw [List.length_drop] at hlength
  rw [h.left]
  omega

theorem occurrences_sound (h : p ∈ occurrences value token fuel fromIndex) :
    fromIndex ≤ p ∧ token <+: value.drop p := by
  induction fuel generalizing fromIndex
  case zero => cases h
  case succ fuel hi =>
    unfold occurrences at h
    split at h
    case isFalse => cases h
    case isTrue =>
      cases hindex : indexOf token (value.drop fromIndex)
      case none => simp [hindex] at h
      case some i =>
        simp only [hindex, List.mem_cons] at h
        have hfirst := (Script.indexOf_eq_some hindex).left
        rw [List.drop_drop] at hfirst
        cases h
        case inl h => exact ⟨by omega, h ▸ hfirst⟩
        case inr h =>
          obtain ⟨hle, hp⟩ := hi h
          exact ⟨by omega, hp⟩

theorem occurrences_disjoint :
    (occurrences value token fuel fromIndex).Pairwise fun p p' => p + token.length ≤ p' := by
  induction fuel generalizing fromIndex
  case zero => exact .nil
  case succ fuel hi =>
    unfold occurrences
    split
    case isFalse => exact .nil
    case isTrue =>
      cases indexOf token (value.drop fromIndex)
      case none   => exact .nil
      case some i => exact List.pairwise_cons.mpr ⟨fun _ hp => (occurrences_sound hp).left, hi⟩

theorem occurrences_covers (ht : token ≠ []) (h : token <+: value.drop p) (hp : fromIndex ≤ p)
    (hfuel : value.length ≤ fromIndex + fuel) :
    ∃ p' ∈ occurrences value token fuel fromIndex, p' ≤ p ∧ p < p' + token.length := by
  have hpos := List.length_pos_iff.mpr ht
  have hle : p + token.length ≤ value.length := Occurs.le_length ⟨rfl, h⟩ ht
  induction fuel generalizing fromIndex
  case zero => omega
  case succ fuel hi =>
    have hlt : fromIndex < value.length := by omega
    unfold occurrences
    rw [if_pos hlt]
    cases hindex : indexOf token (value.drop fromIndex)
    case none =>
      have hinside : token <:+: value.drop fromIndex := by
        have hdrop : (value.drop fromIndex).drop (p - fromIndex) = value.drop p := by
          rw [List.drop_drop, Nat.add_sub_cancel' hp]
        exact (hdrop ▸ h).isInfix.trans (List.drop_suffix _ _).isInfix
      exact absurd hinside (Script.indexOf_eq_none_iff.mp hindex)
    case some i =>
      have hfirst := (Script.indexOf_eq_some hindex).right
      have hle : fromIndex + i ≤ p := by
        apply Nat.le_of_not_lt
        intro hlt
        apply hfirst (p - fromIndex) (by omega)
        rw [List.drop_drop, Nat.add_sub_cancel' hp]
        exact h
      cases Nat.lt_or_ge p (fromIndex + i + token.length)
      case inl hinside => exact ⟨fromIndex + i, List.mem_cons_self, hle, hinside⟩
      case inr hbehind =>
        obtain ⟨p', hp', h⟩ := hi hbehind (by omega)
        exact ⟨p', List.mem_cons_of_mem _ hp', h⟩

-- The search for one token chooses among the places where it stands.
theorem occurrences_choice (ht : token ≠ []) :
    Choice (Occurs value token) fun p e => p ∈ occurrences value token value.length 0 ∧ e = p + token.length where
  sound    := fun h => ⟨h.right, (occurrences_sound h.left).right⟩
  longest  := fun h h' => Nat.le_of_eq (h'.left.trans h.right.symm)
  disjoint := by
    intro p e p' e' h h' hlt
    have hdisjoint := @occurrences_disjoint value token value.length 0
    have hpairs : (occurrences value token value.length 0).Pairwise fun p p' =>
        p < p' → p + token.length ≤ p' := hdisjoint.imp fun h => fun _ => h
    have hflip : (occurrences value token value.length 0).Pairwise (flip fun p p' =>
        p < p' → p + token.length ≤ p') := hdisjoint.imp fun h => fun hlt => by omega
    rw [h.right]
    exact List.Pairwise.forall_of_forall_of_flip (fun _ _ hlt => absurd hlt (Nat.lt_irrefl _)) hpairs hflip h.left
      h'.left hlt
  covers := by
    intro p e h
    obtain ⟨p', hp', hle, hlt⟩ := occurrences_covers ht h.right (Nat.zero_le p) (Nat.le_add_left _ _)
    exact ⟨p', p' + token.length, ⟨hp', rfl⟩, hle, hlt⟩

theorem mem_referenceTokens : item ∈ referenceTokens references ↔
    Listed references item.reference ∧ item.token = composerReferenceToken item.reference := by
  cases item
  case mk reference token =>
    simp only [referenceTokens, List.mem_insertionSort, List.mem_filter, List.mem_map, Item.mk.injEq, Listed,
      decide_eq_true_eq]
    constructor
    case mp =>
      intro ⟨⟨r, hr, hreference, htoken⟩, hlength⟩
      subst hreference
      subst htoken
      exact ⟨⟨hr, hlength⟩, rfl⟩
    case mpr =>
      intro ⟨⟨hr, hlength⟩, htoken⟩
      subst htoken
      exact ⟨⟨reference, hr, rfl, rfl⟩, hlength⟩

theorem token_ne_nil {reference : ComposerInlineReference} : composerReferenceToken reference ≠ [] :=
  List.cons_ne_nil _ _

theorem mem_matchesOf : m ∈ matchesOf value (referenceTokens references) ↔
    Listed references m.reference ∧ m.token = composerReferenceToken m.reference ∧
      Chosen (Occurs value m.token) m.start m.stop := by
  cases m
  case mk start reference token =>
    simp only [matchesOf, List.mem_insertionSort, List.mem_flatMap, itemMatches, List.mem_map, Match.mk.injEq,
      Match.stop]
    constructor
    case mp =>
      intro ⟨item, hitem, p, hp, hstart, hreference, htoken⟩
      obtain ⟨hlisted, heq⟩ := mem_referenceTokens.mp hitem
      have hne : item.token ≠ [] := heq ▸ token_ne_nil
      subst hstart
      subst hreference
      subst htoken
      exact ⟨hlisted, heq, (occurrences_choice hne).iff.mp ⟨hp, rfl⟩⟩
    case mpr =>
      intro ⟨hlisted, heq, hchosen⟩
      have hne : token ≠ [] := heq ▸ token_ne_nil
      have hp := ((occurrences_choice hne).iff.mpr hchosen).left
      exact ⟨⟨reference, token⟩, mem_referenceTokens.mpr ⟨hlisted, heq⟩, start, hp, rfl, rfl, rfl⟩

theorem found_iff : (∃ m ∈ matchesOf value (referenceTokens references), m.start = p ∧ m.stop = e) ↔
    Found value references p e := by
  constructor
  case mp =>
    intro ⟨m, hm, hp, he⟩
    obtain ⟨hlisted, htoken, hchosen⟩ := mem_matchesOf.mp hm
    exact ⟨m.reference, hlisted, by rwa [← htoken, ← hp, ← he]⟩
  case mpr =>
    intro ⟨reference, hlisted, hchosen⟩
    have hstop : e = p + (composerReferenceToken reference).length := hchosen.sound.left
    have hmatch : Chosen (Occurs value (composerReferenceToken reference)) p
        (p + (composerReferenceToken reference).length) := hstop ▸ hchosen
    exact ⟨⟨p, reference, composerReferenceToken reference⟩, mem_matchesOf.mpr ⟨hlisted, rfl, hmatch⟩, rfl, hstop.symm⟩

instance : Std.Total InOrder where
  total m m' := by
    unfold InOrder
    omega

instance : IsTrans Match InOrder where
  trans a b c := by
    unfold InOrder
    omega

-- The matches are in the order in which they are taken.
theorem matchesOf_sorted {tokens : List Item} : (matchesOf value tokens).Pairwise (Before Match.start Match.stop) := by
  have hsorted : (matchesOf value tokens).Pairwise InOrder := List.pairwise_insertionSort _ _
  apply hsorted.imp
  intro m m' h
  unfold InOrder at h
  unfold Before Match.stop
  omega

-- The matches that are taken
def taken (value : Text) (references : List ComposerInlineReference) : List Match :=
  select Match.start Match.stop 0 (matchesOf value (referenceTokens references))

theorem start_lt_stop (hm : m ∈ matchesOf value (referenceTokens references)) : m.start < m.stop := by
  have htoken := (mem_matchesOf.mp hm).right.left
  have hpos := List.length_pos_iff.mpr (htoken ▸ token_ne_nil)
  rw [Match.stop]
  omega

theorem taken_subset (hm : m ∈ taken value references) : m ∈ matchesOf value (referenceTokens references) :=
  Stretches.select_sublist.subset hm

theorem taken_iff :
    (∃ m ∈ taken value references, m.start = p ∧ m.stop = e) ↔ Chosen (Found value references) p e := by
  have hfound : (fun p e => ∃ m ∈ matchesOf value (referenceTokens references), m.start = p ∧ m.stop = e) =
      Found value references := funext fun p => funext fun e => propext found_iff
  have hchoice := Stretches.select_choice (@matchesOf_sorted value (referenceTokens references))
    fun _ hm => start_lt_stop hm
  rw [hfound] at hchoice
  exact hchoice.iff

theorem segmentsFrom_eq :
    segmentsFrom value cursor ms = tile value cursor (select Match.start Match.stop cursor ms) := by
  induction ms generalizing cursor
  case nil => rfl
  case cons m ms hi =>
    unfold segmentsFrom select
    split
    case isTrue  => exact hi
    case isFalse => rw [hi]; rfl

theorem Found.bounds (h : Found value references p e) : p < e ∧ e ≤ value.length := by
  obtain ⟨reference, hlisted, h⟩ := h
  have hpos := List.length_pos_iff.mpr (@token_ne_nil reference)
  have hstop := h.sound.left
  exact ⟨by omega, h.sound.le_length token_ne_nil⟩

theorem matchesOf_nil : matchesOf [] (referenceTokens references) = [] := by
  apply List.eq_nil_iff_forall_not_mem.mpr
  intro m hm
  have hbounds := (found_iff.mp ⟨m, hm, rfl, rfl⟩).bounds
  simp only [List.length_nil] at hbounds
  omega

theorem build_eq : buildComposerInlineSegments value references = tile value 0 (taken value references) := by
  unfold buildComposerInlineSegments
  simp only
  split
  case isFalse => exact segmentsFrom_eq
  case isTrue h =>
    cases hvalue : value
    case nil => simp [taken, matchesOf_nil, select, tile]
    case cons u rest =>
      have htokens : referenceTokens references = [] := by simpa [hvalue] using h
      have htaken : taken (u :: rest) references = [] := by simp [taken, htokens, matchesOf, select]
      simp [htaken, tile]

theorem laid_select (hms : ∀ m ∈ ms, m.start < m.stop ∧ m.stop ≤ value.length ∧ m.token = slice value m.start m.stop)
    (hc : cursor ≤ value.length) : Laid value cursor (select Match.start Match.stop cursor ms) := by
  induction ms generalizing cursor
  case nil => exact hc
  case cons m ms hi =>
    have hrest := fun m' hm' => hms m' (List.mem_cons_of_mem m hm')
    unfold select
    split
    case isTrue => exact hi hrest hc
    case isFalse hle =>
      obtain ⟨hlt, hstop, htoken⟩ := hms m List.mem_cons_self
      exact ⟨Nat.not_lt.mp hle, hlt, hstop, htoken, hi hrest hstop⟩

theorem laid_taken : Laid value 0 (taken value references) := by
  apply laid_select _ (Nat.zero_le _)
  intro m hm
  obtain ⟨hlt, hle⟩ := (found_iff.mp ⟨m, hm, rfl, rfl⟩).bounds
  have hoccurs := (mem_matchesOf.mp hm).right.right.sound
  exact ⟨hlt, hle, (slice_of_starts hoccurs.right).symm⟩

theorem tiles_tile (h : Laid value cursor ms) : Tiles value cursor (tile value cursor ms) := by
  induction ms generalizing cursor
  case nil =>
    unfold tile
    split
    case isTrue hlt  => exact ⟨rfl, hlt, Nat.le_refl _, rfl, rfl⟩
    case isFalse hge => exact Nat.le_antisymm h (Nat.not_lt.mp hge)
  case cons m ms hi =>
    obtain ⟨hc, hlt, hle, htoken, hrest⟩ := h
    unfold tile
    split
    case isTrue hgap =>
      exact ⟨rfl, hgap, Nat.le_trans (Nat.le_of_lt hlt) hle, rfl, rfl, hlt, hle, htoken, hi hrest⟩
    case isFalse hgap =>
      have heq : m.start = cursor := Nat.le_antisymm (Nat.not_lt.mp hgap) hc
      exact ⟨heq, heq ▸ hlt, hle, htoken, hi hrest⟩

theorem mem_tile (h : segment ∈ tile value cursor ms) :
    (segment.reference = none ∧ segment.text = slice value segment.start segment.stop) ∨
      ∃ m ∈ ms, segment = ⟨m.token, m.start, m.stop, some m.reference⟩ := by
  induction ms generalizing cursor
  case nil =>
    unfold tile at h
    split at h
    case isTrue  => exact .inl (List.mem_singleton.mp h ▸ ⟨rfl, rfl⟩)
    case isFalse => cases h
  case cons m ms hi =>
    unfold tile at h
    cases List.mem_append.mp h
    case inl h =>
      split at h
      case isTrue  => exact .inl (List.mem_singleton.mp h ▸ ⟨rfl, rfl⟩)
      case isFalse => cases h
    case inr h =>
      cases List.mem_cons.mp h
      case inl heq => exact .inr ⟨m, List.mem_cons_self, heq⟩
      case inr h =>
        cases hi h
        case inl h => exact .inl h
        case inr h =>
          obtain ⟨m', hm', heq⟩ := h
          exact .inr ⟨m', List.mem_cons_of_mem m hm', heq⟩

theorem mem_tile_of_mem (h : m ∈ ms) : ⟨m.token, m.start, m.stop, some m.reference⟩ ∈ tile value cursor ms := by
  induction ms generalizing cursor
  case nil => cases h
  case cons m' ms hi =>
    unfold tile
    cases List.mem_cons.mp h
    case inl heq => exact List.mem_append_right _ (heq ▸ List.mem_cons_self)
    case inr h   => exact List.mem_append_right _ (List.mem_cons_of_mem _ (hi h))

theorem Tiles.start_le {segments : List ComposerInlineSegment} (h : Tiles value cursor segments)
    (hs : segment ∈ segments) :
    cursor ≤ segment.start ∧ segment.start < segment.stop ∧ segment.stop ≤ value.length := by
  induction segments generalizing cursor
  case nil => cases hs
  case cons s ss hi =>
    obtain ⟨hstart, hlt, hle, _, hrest⟩ := h
    cases List.mem_cons.mp hs
    case inl heq => exact heq ▸ ⟨Nat.le_of_eq hstart.symm, hstart ▸ hlt, hle⟩
    case inr hs =>
      obtain ⟨hc, hbounds⟩ := hi hrest hs
      exact ⟨by omega, hbounds⟩

theorem Tiles.disjoint {segments : List ComposerInlineSegment} (h : Tiles value cursor segments) :
    segments.Pairwise fun s s' => s.stop ≤ s'.start := by
  induction segments generalizing cursor
  case nil => exact .nil
  case cons s ss hi =>
    have hrest := h.right.right.right.right
    exact List.pairwise_cons.mpr ⟨fun _ hs => (hrest.start_le hs).left, hi hrest⟩

-- Two segments are the same or apart.
theorem Tiles.apart {segments : List ComposerInlineSegment} {s s' : ComposerInlineSegment}
    (h : Tiles value cursor segments) (hs : s ∈ segments) (hs' : s' ∈ segments) :
    s = s' ∨ s.stop ≤ s'.start ∨ s'.stop ≤ s.start := by
  have hpairs : segments.Pairwise fun s s' => s = s' ∨ s.stop ≤ s'.start ∨ s'.stop ≤ s.start :=
    h.disjoint.imp fun h => .inr (.inl h)
  have hflip : segments.Pairwise (flip fun s s' => s = s' ∨ s.stop ≤ s'.start ∨ s'.stop ≤ s.start) :=
    h.disjoint.imp fun h => .inr (.inr h)
  exact List.Pairwise.forall_of_forall_of_flip (fun _ _ => .inl rfl) hpairs hflip hs hs'

theorem Tiles.flatMap_text {segments : List ComposerInlineSegment} (h : Tiles value cursor segments) :
    segments.flatMap (·.text) = value.drop cursor := by
  induction segments generalizing cursor
  case nil =>
    have hc : cursor = value.length := h
    simp [hc]
  case cons s ss hi =>
    obtain ⟨hstart, hlt, hle, htext, hrest⟩ := h
    have hlength : cursor ≤ (value.take s.stop).length := by
      rw [List.length_take]
      omega
    rw [List.flatMap_cons, hi hrest, htext, hstart, slice, ← List.drop_append_of_le_length hlength,
      List.take_append_drop]

-- What no match touches is inside of a text segment.
theorem tile_gap (h : Laid value cursor ms) (hp : cursor ≤ p) (hlt : p < e) (he : e ≤ value.length)
    (hapart : ∀ m ∈ ms, m.stop ≤ p ∨ e ≤ m.start) :
    ∃ segment ∈ tile value cursor ms, segment.reference = none ∧ segment.start ≤ p ∧ e ≤ segment.stop := by
  induction ms generalizing cursor
  case nil =>
    have hc : cursor < value.length := by omega
    exact ⟨textSegment value cursor value.length, by simp [tile, hc], rfl, hp, he⟩
  case cons m ms hi =>
    unfold tile
    cases hapart m List.mem_cons_self
    case inl hbehind =>
      have hapart' := fun m' hm' => hapart m' (List.mem_cons_of_mem m hm')
      obtain ⟨segment, hs, h⟩ := hi h.right.right.right.right hbehind hapart'
      exact ⟨segment, List.mem_append_right _ (List.mem_cons_of_mem _ hs), h⟩
    case inr hbefore =>
      have hc : cursor < m.start := by omega
      exact ⟨textSegment value cursor m.start, by simp [hc], rfl, hp, hbefore⟩

-- Every place where a token stands touches one of the places that are chosen among those found.
def Met (value : Text) (references : List ComposerInlineReference) : Prop :=
  ∀ reference start stop, Listed references reference → Occurs value (composerReferenceToken reference) start stop →
    ∃ start' stop', Chosen (Found value references) start' stop' ∧ start' < stop ∧ start < stop'

-- No text segment has a token of a reference in it.
def Clear (references : List ComposerInlineReference) (segments : List ComposerInlineSegment) : Prop :=
  ∀ segment ∈ segments, segment.reference = none → ∀ reference, Listed references reference →
    ¬composerReferenceToken reference <:+: segment.text

theorem tiles_build : Tiles value 0 (buildComposerInlineSegments value references) :=
  build_eq ▸ tiles_tile laid_taken

theorem clear_iff : Clear references (buildComposerInlineSegments value references) ↔ Met value references := by
  constructor
  case mp =>
    intro h reference p e hlisted hoccurs
    by_contra hno
    have hpos := List.length_pos_iff.mpr (@token_ne_nil reference)
    have hend := hoccurs.left
    have hapart : ∀ m ∈ taken value references, m.stop ≤ p ∨ e ≤ m.start := by
      intro m hm
      by_contra hmeets
      exact hno ⟨m.start, m.stop, taken_iff.mp ⟨m, hm, rfl, rfl⟩, by omega, by omega⟩
    obtain ⟨segment, hsegment, htext, hstart, hstop⟩ := tile_gap laid_taken (Nat.zero_le p) (by omega)
      (hoccurs.le_length token_ne_nil) hapart
    have hinside : composerReferenceToken reference <:+: segment.text := by
      cases mem_tile hsegment
      case inl hs => exact hs.right ▸ (infix_slice_iff token_ne_nil).mpr ⟨p, e, hoccurs, hstart, hstop⟩
      case inr hs =>
        obtain ⟨m, _, heq⟩ := hs
        rw [heq] at htext
        cases htext
    exact h segment (build_eq ▸ hsegment) htext reference hlisted hinside
  case mpr =>
    intro h segment hsegment htext reference hlisted hinside
    rw [build_eq] at hsegment
    have hslice : segment.text = slice value segment.start segment.stop := by
      cases mem_tile hsegment
      case inl hs => exact hs.right
      case inr hs =>
        obtain ⟨m, _, heq⟩ := hs
        rw [heq] at htext
        cases htext
    obtain ⟨p, e, hoccurs, hstart, hstop⟩ := (infix_slice_iff token_ne_nil).mp (hslice ▸ hinside)
    obtain ⟨p', e', hchosen, hlt, hlt'⟩ := h reference p e hlisted hoccurs
    obtain ⟨m, hm, hp', he'⟩ := taken_iff.mpr hchosen
    have hmatch : ⟨m.token, m.start, m.stop, some m.reference⟩ ∈ tile value 0 (taken value references) :=
      mem_tile_of_mem hm
    cases (tiles_tile laid_taken).apart hsegment hmatch
    case inl heq =>
      rw [heq] at htext
      cases htext
    case inr h =>
      simp only at h
      omega

-- What the segments are meant to be
structure Segmented (value : Text) (references : List ComposerInlineReference)
    (segments : List ComposerInlineSegment) : Prop where
  nonempty : ∀ segment ∈ segments, segment.text ≠ []
  tiles    : Tiles value 0 segments
  whole    : segments.flatMap (·.text) = value
  tokens   : ∀ segment ∈ segments, ∀ reference, segment.reference = some reference →
    reference ∈ references ∧ segment.text = composerReferenceToken reference
  clear    : Clear references segments

theorem segmented_iff :
    Segmented value references (buildComposerInlineSegments value references) ↔ Met value references := by
  constructor
  case mp  => exact fun h => clear_iff.mp h.clear
  case mpr =>
    intro h
    exact {
      nonempty := by
        intro segment hs hnil
        obtain ⟨hc, hlt, hle⟩ := tiles_build.start_le hs
        rw [build_eq] at hs
        cases mem_tile hs
        case inl hs =>
          have hlength := congrArg List.length hs.right
          rw [length_slice hle, hnil, List.length_nil] at hlength
          omega
        case inr hs =>
          obtain ⟨m, hm, heq⟩ := hs
          have htoken := (mem_matchesOf.mp (taken_subset hm)).right.left
          rw [heq] at hnil
          exact token_ne_nil (htoken.symm.trans hnil)
      tiles := tiles_build
      whole := tiles_build.flatMap_text
      tokens := by
        intro segment hs reference hreference
        rw [build_eq] at hs
        cases mem_tile hs
        case inl hs =>
          rw [hs.left] at hreference
          cases hreference
        case inr hs =>
          obtain ⟨m, hm, heq⟩ := hs
          obtain ⟨hlisted, htoken, _⟩ := mem_matchesOf.mp (taken_subset hm)
          rw [heq] at hreference
          cases hreference
          exact ⟨hlisted.left, heq ▸ htoken⟩
      clear := clear_iff.mpr h
    }

end Composer
