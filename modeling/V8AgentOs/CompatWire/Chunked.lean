import V8AgentOs.CompatWire.Pieces
import V8AgentOs.Lib.Trimming

-- What the filter returns for a text in chunks, compared with what it returns for the whole text.
namespace CompatWire

open InlineThinkStreamFilter Trimming
open Python (isSpace)

-- The filter after a text, of which the visible part may still have to lose the blanks at its start
def after (seen : List Char) (strip : Bool) : InlineThinkStreamFilter where
  insideThink            := (reading false seen).state
  pending                := (reading false seen).pending
  stripNextVisiblePrefix := strip

-- What a chunk adds to what has been read
def added (seen chunk : List Char) : List Piece :=
  (reading false (seen ++ chunk)).output.drop (reading false seen).output.length

def partOf (pieces : List Piece) : Portion Char :=
  ⟨shown pieces, decide (Piece.closed ∈ pieces)⟩

def partsAfter (seen : List Char) : List (List Char) → List (Portion Char)
  | []              => []
  | chunk :: chunks => partOf (added seen chunk) :: partsAfter (seen ++ chunk) chunks

-- The visible text that each chunk brings, and whether it brings a closing tag
def parts (chunks : List (List Char)) : List (Portion Char) :=
  partsAfter [] chunks

-- The text has no closing tag. Or, whenever the visible text of a chunk starts with a blank, there is a reason that
-- holds of the whole text as well: a closing tag has come since the last chunk with other visible text if and only if
-- there was no such chunk.
def Undivided (chunks : List (List Char)) : Prop :=
  Piece.closed ∉ (reading false chunks.flatten).output ∨ Steady isSpace (parts chunks)

-- The chunks say what their text says in one piece.
def Independent (chunks : List (List Char)) : Prop :=
  (total chunks).visible = (total [chunks.flatten]).visible ∧
    (total chunks).reasoning = (total [chunks.flatten]).reasoning

variable {f : InlineThinkStreamFilter} {seen text chunk : List Char} {chunks : List (List Char)} {strip : Bool} {n : ℕ}

theorem marker_eq_tag : f.marker = tag f.insideThink := by
  unfold InlineThinkStreamFilter.marker tag
  rfl

theorem part_characters {rest : Fed} : f.part text rest =
    ⟨shown (text.map (character f.insideThink)) ++ rest.visible,
      thought (text.map (character f.insideThink)) ++ rest.reasoning, rest.filter⟩ := by
  rw [shown_characters, thought_characters]
  unfold part
  cases f.insideThink
  case true  => rfl
  case false => rfl

-- The loop of a feed reads the text.
theorem scan_reading (hn : text.length ≤ n) (hf : f.pending = []) : scan n f text =
    let r := reading f.insideThink text
    ⟨shown r.output, thought r.output,
      ⟨r.state, r.pending, f.stripNextVisiblePrefix || decide (Piece.closed ∈ r.output)⟩⟩ := by
  induction n generalizing f text
  case zero =>
    have ht : text = [] := List.length_eq_zero_iff.mp (Nat.le_zero.mp hn)
    subst ht
    cases f
    cases hf
    simp [scan, reading, Incremental.scan, shown, thought]
  case succ n hi =>
    cases he : text.isEmpty
    case true =>
      have ht : text = [] := List.isEmpty_iff.mp he
      subst ht
      cases f
      cases hf
      simp [scan, reading, Incremental.scan, shown, thought]
    case false =>
      rw [scan, he, marker_eq_tag]
      cases hfind : find (tag f.insideThink) text
      case none =>
        have hclosed := @closed_characters f.insideThink
        simp only [Bool.false_eq_true, if_false, hold, reading_of_not_find hfind, part_characters, marker_eq_tag,
          List.append_nil, hclosed, decide_false, Bool.or_false]
      case some i =>
        have hpos := @tag_length_pos f.insideThink
        have hlength := find_some hfind
        have hrest : (text.drop (i + (tag f.insideThink).length)).length ≤ n := by
          rw [List.length_drop]
          omega
        have hcross : f.cross.pending = [] := hf
        simp only [Bool.false_eq_true, if_false, reading_of_find hfind, part_characters, hi hrest hcross,
          Incremental.Scan.prepend, closed_mem_iff]
        cases hin : f.insideThink
        case true  => simp [cross, hin, toggled, shown, thought]
        case false => simp [cross, hin, toggled, shown, thought]

-- What a feed returns after some text
theorem feed_after : (after seen strip).feed chunk =
    stripVisible ⟨shown (added seen chunk), thought (added seen chunk),
      after (seen ++ chunk) (strip || decide (Piece.closed ∈ added seen chunk))⟩ := by
  have hadded : added seen chunk =
      (reading (reading false seen).state ((reading false seen).pending ++ chunk)).output := by
    rw [added, reading_append]
    simp [Incremental.Scan.prepend]
  have hafter : after (seen ++ chunk) (strip || decide (Piece.closed ∈ added seen chunk)) =
      let r := reading (reading false seen).state ((reading false seen).pending ++ chunk)
      ⟨r.state, r.pending, strip || decide (Piece.closed ∈ r.output)⟩ := by
    rw [hadded, after, reading_append]
    rfl
  rw [hafter, hadded, feed, scan_reading (Nat.le_refl _) rfl]
  rfl

theorem added_append : (reading false seen).output ++ added seen chunk = (reading false (seen ++ chunk)).output := by
  rw [added, reading_append]
  simp [Incremental.Scan.prepend]

theorem feed_eq : (after seen strip).feed chunk =
    let marked := strip || decide (Piece.closed ∈ added seen chunk)
    ⟨if marked then (shown (added seen chunk)).dropWhile isSpace else shown (added seen chunk),
      thought (added seen chunk), after (seen ++ chunk) (marked && (shown (added seen chunk)).all isSpace)⟩ := by
  rw [feed_after]
  generalize (strip || decide (Piece.closed ∈ added seen chunk)) = marked
  cases marked
  case false => rfl
  case true =>
    cases hs : shown (added seen chunk)
    case nil => simp [stripVisible, after]
    case cons c cs =>
      rw [← isEmpty_dropWhile]
      rfl

-- The chunks are trimmed by the marks of their closing tags. The rest is as if the text had come in one piece.
theorem feedAll_after :
    (feedAll (after seen strip) chunks).visible = trim isSpace strip (partsAfter seen chunks) ∧
    thought (reading false seen).output ++ (feedAll (after seen strip) chunks).reasoning =
      thought (reading false (seen ++ chunks.flatten)).output ∧
    ∃ strip', (feedAll (after seen strip) chunks).filter = after (seen ++ chunks.flatten) strip' := by
  induction chunks generalizing seen strip
  case nil => simp [feedAll, Fed.silent, partsAfter]
  case cons chunk chunks hi =>
    obtain ⟨hvisible, hreasoning, strip', hfilter⟩ := @hi (seen ++ chunk)
      ((strip || decide (Piece.closed ∈ added seen chunk)) && (shown (added seen chunk)).all isSpace)
    refine ⟨?visible, ?reasoning, ?filter⟩
    case visible =>
      simp only [feedAll, Fed.append, feed_eq, hvisible]
      rfl
    case reasoning =>
      simp only [feedAll, Fed.append, feed_eq, List.flatten_cons, ← List.append_assoc, ← hreasoning, ← thought_append,
        added_append]
    case filter =>
      simp only [feedAll, Fed.append, feed_eq, hfilter, List.flatten_cons, List.append_assoc]
      exact ⟨strip', rfl⟩

theorem after_nil : after [] false = {} := rfl

theorem feedAll_init :
    (feedAll {} chunks).visible = trim isSpace false (parts chunks) ∧
    (feedAll {} chunks).reasoning = thought (reading false chunks.flatten).output ∧
    ∃ strip, (feedAll {} chunks).filter = after chunks.flatten strip :=
  @feedAll_after [] chunks false

-- The flush returns what is pending, whatever there is to strip.
theorem total_eq :
    (total chunks).visible = trim isSpace false (parts chunks) ++
      (if (reading false chunks.flatten).state then [] else (reading false chunks.flatten).pending) ∧
    (total chunks).reasoning = thought (reading false chunks.flatten).output ++
      (if (reading false chunks.flatten).state then (reading false chunks.flatten).pending else []) := by
  obtain ⟨hvisible, hreasoning, strip, hfilter⟩ := @feedAll_init chunks
  have hheld : (after chunks.flatten strip).Held := hfilter ▸ held_feedAll held_init
  simp only [total, Fed.append, hvisible, hreasoning, hfilter, flush_visible hheld, flush_reasoning]
  exact ⟨rfl, rfl⟩

theorem closed_parts : (∃ p ∈ partsAfter seen chunks, p.marked = true) ∨ Piece.closed ∈ (reading false seen).output ↔
    Piece.closed ∈ (reading false (seen ++ chunks.flatten)).output := by
  induction chunks generalizing seen
  case nil => simp [partsAfter]
  case cons chunk chunks hi =>
    rw [List.flatten_cons, ← List.append_assoc, ← hi, ← @added_append seen chunk]
    simp [partsAfter, partOf]
    grind

theorem shown_parts : shown (reading false seen).output ++ whole (partsAfter seen chunks) =
    shown (reading false (seen ++ chunks.flatten)).output := by
  induction chunks generalizing seen
  case nil => simp [partsAfter]
  case cons chunk chunks hi =>
    rw [List.flatten_cons, ← List.append_assoc, ← hi, ← @added_append seen chunk]
    simp [partsAfter, partOf]

theorem whole_parts : whole (parts chunks) = shown (reading false chunks.flatten).output :=
  @shown_parts [] chunks

-- One chunk
theorem trim_parts_whole : trim isSpace false (parts [text]) =
    if Piece.closed ∈ (reading false text).output then (shown (reading false text).output).dropWhile isSpace
    else shown (reading false text).output := by
  have hparts : parts [text] = [partOf (reading false text).output] := rfl
  rw [hparts]
  simp [trim, partOf]

theorem trim_parts_iff : trim isSpace false (parts chunks) = trim isSpace false (parts [chunks.flatten]) ↔
    Undivided chunks := by
  have hmarked : (∃ p ∈ parts chunks, p.marked = true) ↔ Piece.closed ∈ (reading false chunks.flatten).output := by
    have h := @closed_parts [] chunks
    simpa [parts, reading, Incremental.scan] using h
  rw [trim_parts_whole, ← whole_parts]
  unfold Undivided
  cases hclosed : decide (Piece.closed ∈ (reading false chunks.flatten).output)
  case false =>
    have hclosed := of_decide_eq_false hclosed
    have hnone : ∀ p ∈ parts chunks, p.marked = false :=
      fun p hp => Bool.eq_false_iff.mpr fun hm => hclosed (hmarked.mp ⟨p, hp, hm⟩)
    simp [hclosed, trim_of_not_marked hnone]
  case true =>
    have hclosed := of_decide_eq_true hclosed
    simp only [hclosed, if_true, not_true, false_or, trim_eq_dropWhile_iff, steady_iff]

-- The chunks say what the whole text says if and only if no blank is cut off from what comes before it.
theorem independent_iff : Independent chunks ↔ Undivided chunks := by
  have hflatten : [chunks.flatten].flatten = chunks.flatten := List.flatten_singleton
  unfold Independent
  rw [(@total_eq chunks).left, (@total_eq chunks).right, (@total_eq [chunks.flatten]).left,
    (@total_eq [chunks.flatten]).right, hflatten, List.append_left_inj, trim_parts_iff]
  exact ⟨fun h => h.left, fun h => ⟨h, rfl⟩⟩

theorem blank_cut :
    ¬Independent ["a".toList, "<think>r</think> b".toList] ∧
    (total ["a".toList, "<think>r</think> b".toList]).visible = "ab".toList ∧
    (total ["a<think>r</think> b".toList]).visible = "a b".toList := by
  have hchunks : (total ["a".toList, "<think>r</think> b".toList]).visible = "ab".toList := by decide +kernel
  have hwhole : (total ["a<think>r</think> b".toList]).visible = "a b".toList := by decide +kernel
  refine ⟨?independent, hchunks, hwhole⟩
  case independent =>
    intro h
    have hsame : "ab".toList = "a b".toList := hchunks.symm.trans (h.left.trans hwhole)
    exact absurd hsame (by decide)

end CompatWire
