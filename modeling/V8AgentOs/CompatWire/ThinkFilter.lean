import V8AgentOs.Python.Str

-- runtimes/network_supervisor/compat_wire_emitter.py: the filter that splits inline `<think>` tags across deltas.
namespace CompatWire

open Python (isSpace)

structure InlineThinkStreamFilter where
  insideThink            : Bool := false
  pending                : List Char := []
  stripNextVisiblePrefix : Bool := false

-- What a filter says of a text: the visible part and the reasoning, and the filter after it
structure Fed where
  visible   : List Char
  reasoning : List Char
  filter    : InlineThinkStreamFilter

-- `text.find(marker)`
def find (marker : List Char) : List Char → Option ℕ
  | []        => none
  | c :: text => if marker.isPrefixOf (c :: text) then some 0 else (find marker text).map (· + 1)

-- `_suffix_prefix_len`
def suffixPrefixLen (value marker : List Char) : ℕ :=
  (((List.range (min value.length (marker.length - 1))).map (· + 1)).reverse.find? fun length =>
    (value.drop (value.length - length)).isPrefixOf marker).getD 0

namespace InlineThinkStreamFilter

def startTag : List Char := "<think>".toList

def endTag : List Char := "</think>".toList

variable (f : InlineThinkStreamFilter)

def marker : List Char :=
  if f.insideThink then endTag else startTag

-- The parts of a text that belong together with where the filter is
def part (text : List Char) (rest : Fed) : Fed :=
  if f.insideThink then { rest with reasoning := text ++ rest.reasoning }
  else { rest with visible := text ++ rest.visible }

-- The filter behind its next marker
def cross : InlineThinkStreamFilter :=
  { f with
    insideThink            := !f.insideThink
    stripNextVisiblePrefix := f.stripNextVisiblePrefix || f.insideThink }

-- The end of a text, of which the start of a marker is held back
def hold (text : List Char) : Fed :=
  let kept := text.length - suffixPrefixLen text f.marker
  f.part (text.take kept) ⟨[], [], { f with pending := text.drop kept }⟩

-- The loop of `feed`. Each turn takes a marker away, so that the length of the text is fuel enough.
def scan : ℕ → InlineThinkStreamFilter → List Char → Fed
  | 0, f, _           => ⟨[], [], f⟩
  | fuel + 1, f, text =>
    if text.isEmpty then ⟨[], [], f⟩
    else match find f.marker text with
      | some index => f.part (text.take index) (scan fuel f.cross (text.drop (index + f.marker.length)))
      | none       => f.hold text

-- The blanks after a think block go.
def stripVisible (r : Fed) : Fed :=
  if r.filter.stripNextVisiblePrefix && !r.visible.isEmpty then
    let visible := r.visible.dropWhile isSpace
    { r with visible, filter := { r.filter with stripNextVisiblePrefix := visible.isEmpty } }
  else r

def feed (content : List Char) : Fed :=
  let text := f.pending ++ content
  stripVisible (scan text.length { f with pending := [] } text)

def flush : Fed :=
  if f.pending.isEmpty then ⟨[], [], f⟩
  else if f.insideThink then ⟨[], f.pending, { f with pending := [] }⟩
  else stripVisible ⟨f.pending, [], { f with pending := [] }⟩

-- What is held back is the start of a marker, but not all of it.
def Held : Prop :=
  f.pending <+: f.marker ∧ f.pending.length < f.marker.length

variable {f} {text marker : List Char} {n : ℕ}

theorem find_some {i : ℕ} (h : find marker text = some i) : i + marker.length ≤ text.length := by
  induction text generalizing i
  case nil => cases h
  case cons c text hi =>
    unfold find at h
    split at h
    case isTrue hp =>
      cases h
      simpa using (List.isPrefixOf_iff_prefix.mp hp).length_le
    case isFalse =>
      obtain ⟨j, hj, h⟩ := Option.map_eq_some_iff.mp h
      have := hi hj
      simp only [List.length_cons]
      omega

theorem find_none (h : text.length < marker.length) : find marker text = none := by
  cases hf : find marker text
  case none => rfl
  case some i =>
    have := find_some hf
    omega

theorem marker_length_pos : 0 < f.marker.length := by
  unfold InlineThinkStreamFilter.marker
  split
  case isTrue  => decide
  case isFalse => decide

-- More fuel than the text is long changes nothing.
theorem scan_fuel {m : ℕ} (hn : text.length ≤ n) (hm : text.length ≤ m) : scan n f text = scan m f text := by
  induction n generalizing m f text
  case zero =>
    have ht : text = [] := List.length_eq_zero_iff.mp (Nat.le_zero.mp hn)
    subst ht
    cases m
    case zero   => rfl
    case succ _ => rfl
  case succ n hi =>
    cases m
    case zero =>
      have ht : text = [] := List.length_eq_zero_iff.mp (Nat.le_zero.mp hm)
      subst ht
      rfl
    case succ m =>
      rw [scan, scan]
      cases hf : find f.marker text
      case none => rfl
      case some i =>
        have hlt := find_some hf
        have hpos : 0 < f.marker.length := marker_length_pos
        have hlength : (text.drop (i + f.marker.length)).length = text.length - (i + f.marker.length) :=
          List.length_drop
        have hrest : scan n f.cross (text.drop (i + f.marker.length)) =
            scan m f.cross (text.drop (i + f.marker.length)) := hi (by omega) (by omega)
        simp only [hrest]

-- What a text says, without fuel
theorem scan_eq (h : text.length ≤ n) : scan n f text =
    if text.isEmpty then ⟨[], [], f⟩
    else match find f.marker text with
      | some index => f.part (text.take index)
        (scan text.length f.cross (text.drop (index + f.marker.length)))
      | none       => f.hold text := by
  rw [scan_fuel h (Nat.le_succ _), scan]

theorem part_filter {rest : Fed} : (f.part text rest).filter = rest.filter := by
  unfold part
  split
  case isTrue  => rfl
  case isFalse => rfl

theorem suffixPrefixLen_le : suffixPrefixLen text marker ≤ min text.length (marker.length - 1) := by
  unfold suffixPrefixLen
  cases h : ((List.range (min text.length (marker.length - 1))).map (· + 1)).reverse.find? fun length =>
      (text.drop (text.length - length)).isPrefixOf marker
  case none => exact Nat.zero_le _
  case some k =>
    have hk := List.mem_of_find?_eq_some h
    simp only [List.mem_reverse, List.mem_map, List.mem_range] at hk
    obtain ⟨j, hj, hk⟩ := hk
    exact hk ▸ hj

theorem drop_isPrefix : text.drop (text.length - suffixPrefixLen text marker) <+: marker := by
  unfold suffixPrefixLen
  cases h : ((List.range (min text.length (marker.length - 1))).map (· + 1)).reverse.find? fun length =>
      (text.drop (text.length - length)).isPrefixOf marker
  case none => simp
  case some k =>
    have hk := List.find?_some h
    exact List.isPrefixOf_iff_prefix.mp hk

-- A text that is the start of a marker is held back as a whole.
theorem suffixPrefixLen_of_isPrefix (hp : text <+: marker) (hl : text.length < marker.length) :
    suffixPrefixLen text marker = text.length := by
  have hmin : min text.length (marker.length - 1) = text.length := by omega
  unfold suffixPrefixLen
  rw [hmin]
  cases text
  case nil => rfl
  case cons c text =>
    rw [List.length_cons, List.range_succ, List.map_append, List.reverse_append]
    have hp : ((c :: text).drop ((text.length + 1) - (text.length + 1))).isPrefixOf marker := by
      rw [Nat.sub_self, List.drop_zero]
      exact List.isPrefixOf_iff_prefix.mpr hp
    simp only [List.map_singleton, List.reverse_singleton, List.singleton_append, List.find?_cons, hp, Option.getD_some]

theorem held_hold : (f.hold text).filter.Held := by
  have hmarker : (f.hold text).filter.marker = f.marker := by rw [hold, part_filter]; rfl
  have hpending : (f.hold text).filter.pending = text.drop (text.length - suffixPrefixLen text f.marker) := by
    rw [hold, part_filter]
  have hle : suffixPrefixLen text f.marker ≤ min text.length (f.marker.length - 1) := suffixPrefixLen_le
  have hpos : 0 < f.marker.length := marker_length_pos
  unfold Held
  rw [hmarker, hpending]
  refine ⟨drop_isPrefix, ?_⟩
  rw [List.length_drop]
  omega

theorem held_of_nil (h : f.pending = []) : f.Held := by
  unfold Held
  rw [h]
  exact ⟨List.nil_prefix, marker_length_pos⟩

theorem held_scan (h : f.pending = []) : (scan n f text).filter.Held := by
  induction n generalizing f text
  case zero => exact held_of_nil h
  case succ n hi =>
    rw [scan]
    split
    case isTrue => exact held_of_nil h
    case isFalse =>
      split
      case h_1 => rw [part_filter]; exact hi h
      case h_2 => exact held_hold

theorem held_stripVisible {r : Fed} (h : r.filter.Held) : (stripVisible r).filter.Held := by
  unfold stripVisible
  split
  case isTrue  => exact h
  case isFalse => exact h

theorem held_feed {content : List Char} : (f.feed content).filter.Held :=
  held_stripVisible (held_scan rfl)

theorem scan_held (hp : text <+: f.marker) (hl : text.length < f.marker.length) (h : f.pending = []) :
    scan text.length f text = ⟨[], [], { f with pending := text }⟩ := by
  rw [scan_eq (Nat.le_refl _)]
  split
  case isTrue he =>
    rw [List.isEmpty_iff.mp he, ← h]
  case isFalse =>
    rw [find_none hl]
    simp only [hold]
    rw [suffixPrefixLen_of_isPrefix hp hl, Nat.sub_self, List.take_zero, List.drop_zero]
    unfold part
    split
    case isTrue  => rfl
    case isFalse => rfl

-- A text that is held back says nothing.
theorem feed_held {content : List Char} (hp : f.pending ++ content <+: f.marker)
    (hl : (f.pending ++ content).length < f.marker.length) :
    f.feed content = ⟨[], [], { f with pending := f.pending ++ content }⟩ := by
  have hscan : scan (f.pending ++ content).length { f with pending := [] } (f.pending ++ content) =
      ⟨[], [], { f with pending := f.pending ++ content }⟩ := scan_held hp hl rfl
  simp only [feed, hscan, stripVisible, List.isEmpty_nil, Bool.not_true, Bool.and_false]
  rfl

-- An empty text says nothing and changes nothing.
theorem feed_nil (h : f.Held) : f.feed [] = ⟨[], [], f⟩ := by
  have hfeed := @feed_held f [] (by simpa using h.left) (by simpa using h.right)
  simpa using hfeed

-- A text that is held back outside a think block starts with a bracket, and so with no blank.
theorem dropWhile_pending (h : f.Held) (hi : f.insideThink = false) : f.pending.dropWhile isSpace = f.pending := by
  cases hp : f.pending
  case nil => rfl
  case cons c pending =>
    have hstarts := h.left
    rw [hp, InlineThinkStreamFilter.marker, hi] at hstarts
    have hc : c = '<' := (List.cons_prefix_cons.mp hstarts).left
    rw [hc, List.dropWhile_cons_of_neg (by decide)]

theorem flush_visible (h : f.Held) : f.flush.visible = if f.insideThink then [] else f.pending := by
  unfold flush
  cases hp : f.pending.isEmpty
  case true => simp [List.isEmpty_iff.mp hp]
  case false =>
    cases hi : f.insideThink
    case true => simp
    case false =>
      simp only [Bool.false_eq_true, if_false, stripVisible]
      split
      case isTrue  => exact dropWhile_pending h hi
      case isFalse => rfl

theorem flush_reasoning : f.flush.reasoning = if f.insideThink then f.pending else [] := by
  unfold flush
  cases hp : f.pending.isEmpty
  case true => simp [List.isEmpty_iff.mp hp]
  case false =>
    cases hi : f.insideThink
    case true => simp
    case false =>
      simp only [Bool.false_eq_true, if_false, stripVisible]
      split
      case isTrue  => rfl
      case isFalse => rfl

theorem flush_filter : f.flush.filter.pending = [] ∧ f.flush.filter.insideThink = f.insideThink := by
  unfold flush
  cases hp : f.pending.isEmpty
  case true => simp [List.isEmpty_iff.mp hp]
  case false =>
    cases hi : f.insideThink
    case true => simp
    case false =>
      simp only [Bool.false_eq_true, if_false, stripVisible]
      split
      case isTrue  => simp
      case isFalse => simp

end InlineThinkStreamFilter
end CompatWire
