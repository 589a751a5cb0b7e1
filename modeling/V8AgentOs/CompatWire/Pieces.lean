import V8AgentOs.CompatWire.Streams
import V8AgentOs.Lib.Incremental
import Mathlib.Data.List.Find

-- What a text says, read one character at a time: the tags it has, and what is inside and outside of them.
namespace CompatWire

open InlineThinkStreamFilter Incremental

inductive Piece
  | visible (c : Char)
  | reasoning (c : Char)
  | opened
  | closed
  deriving DecidableEq

-- The tag that ends the mode
def tag (inside : Bool) : List Char :=
  if inside then endTag else startTag

def toggled (inside : Bool) : Piece :=
  if inside then .closed else .opened

def character (inside : Bool) (c : Char) : Piece :=
  if inside then .reasoning c else .visible c

-- A tag is read as a whole, and what may become one is not read yet.
def read : Scanner Bool Char Piece := fun final inside c rest =>
  if (tag inside).isPrefixOf (c :: rest) then .emit ((tag inside).length - 1) [toggled inside] (!inside)
  else if !final && (c :: rest).isPrefixOf (tag inside) then .wait inside
  else .emit 0 [character inside c] inside

def reading (inside : Bool) (text : List Char) : Scan Bool Char Piece :=
  Incremental.scan read false inside 0 text

def shown (pieces : List Piece) : List Char :=
  pieces.filterMap fun
    | .visible c => some c
    | _          => none

def thought (pieces : List Piece) : List Char :=
  pieces.filterMap fun
    | .reasoning c => some c
    | _            => none

variable {inside : Bool} {text more marker : List Char} {c : Char} {pieces pieces' : List Piece}

@[simp]
theorem shown_append : shown (pieces ++ pieces') = shown pieces ++ shown pieces' := by
  simp [shown]

@[simp]
theorem thought_append : thought (pieces ++ pieces') = thought pieces ++ thought pieces' := by
  simp [thought]

theorem shown_characters : shown (text.map (character inside)) = if inside then [] else text := by
  induction text
  case nil => cases inside <;> rfl
  case cons c text hi => cases inside <;> simp_all [shown, character]

theorem thought_characters : thought (text.map (character inside)) = if inside then text else [] := by
  induction text
  case nil => cases inside <;> rfl
  case cons c text hi => cases inside <;> simp_all [thought, character]

theorem closed_characters : Piece.closed ∉ text.map (character inside) := by
  intro h
  obtain ⟨c, hc, h⟩ := List.mem_map.mp h
  cases inside <;> cases h

theorem closed_mem_iff : Piece.closed ∈ text.map (character inside) ++ [toggled inside] ++ pieces ↔
    inside = true ∨ Piece.closed ∈ pieces := by
  have hno := @closed_characters inside text
  cases inside
  case true  => simp [toggled]
  case false => simp only [List.mem_append, hno, toggled, List.mem_singleton, false_or, Bool.false_eq_true, if_false,
    reduceCtorEq]

theorem tag_length_pos : 0 < (tag inside).length := by
  cases inside
  case true  => decide
  case false => decide

theorem read_of_tag {final : Bool} (h : tag inside <+: c :: text) :
    read final inside c text = .emit ((tag inside).length - 1) [toggled inside] (!inside) :=
  if_pos (List.isPrefixOf_iff_prefix.mpr h)

theorem read_of_start (h : ¬tag inside <+: c :: text) (hp : c :: text <+: tag inside) :
    read false inside c text = .wait inside := by
  have htag := mt List.isPrefixOf_iff_prefix.mp h
  have hstart := List.isPrefixOf_iff_prefix.mpr hp
  simp [read, htag, hstart]

theorem read_of_character {final : Bool} (h : ¬tag inside <+: c :: text) (hp : ¬c :: text <+: tag inside) :
    read final inside c text = .emit 0 [character inside c] inside := by
  have htag := mt List.isPrefixOf_iff_prefix.mp h
  have hstart := mt List.isPrefixOf_iff_prefix.mp hp
  simp [read, htag, hstart]

-- More text decides nothing again.
theorem lawful : Lawful read where
  decides := by
    intro inside c text h
    obtain ⟨s, h⟩ := h
    simp only [read, Bool.not_true, Bool.false_and, Bool.false_eq_true, if_false] at h
    split at h <;> cases h
  stable := by
    intro inside c text h final more
    cases htag : decide (tag inside <+: c :: text)
    case true =>
      have htag := of_decide_eq_true htag
      have hmore : tag inside <+: c :: (text ++ more) := htag.trans (List.prefix_append (c :: text) more)
      rw [read_of_tag htag, read_of_tag hmore]
    case false =>
      have htag := of_decide_eq_false htag
      have hstart : ¬c :: text <+: tag inside := fun hp => h ⟨inside, read_of_start htag hp⟩
      have hmore : ¬tag inside <+: c :: (text ++ more) := by
        intro hp
        cases List.prefix_or_prefix_of_prefix hp (List.prefix_append (c :: text) more)
        case inl h => exact htag h
        case inr h => exact hstart h
      have hlonger : ¬c :: (text ++ more) <+: tag inside :=
        fun hp => hstart ((List.prefix_append (c :: text) more).trans hp)
      rw [read_of_character htag hstart, read_of_character hmore hlonger]
  resumes := by
    intro inside t c text h final more
    have ht : t = inside := by
      unfold read at h
      split at h
      case isTrue => cases h
      case isFalse =>
        split at h
        case isTrue  => exact (Verdict.wait.inj h).symm
        case isFalse => cases h
    rw [ht]
  within := by
    intro final inside t c text k out h
    unfold read at h
    split at h
    case isTrue hp =>
      have hlength := (List.isPrefixOf_iff_prefix.mp hp).length_le
      cases h
      simp only [List.length_cons] at hlength
      omega
    case isFalse =>
      split at h
      case isTrue  => cases h
      case isFalse =>
        cases h
        exact Nat.zero_le _

theorem reading_tag (h : tag inside <+: text) :
    reading inside text = (reading (!inside) (text.drop (tag inside).length)).prepend [toggled inside] := by
  cases text
  case nil =>
    have hpos : 0 < (tag inside).length := tag_length_pos
    have hle := h.length_le
    simp only [List.length_nil] at hle
    omega
  case cons c text =>
    have hpos : 0 < (tag inside).length := tag_length_pos
    have hlength : (tag inside).length = (tag inside).length - 1 + 1 := by omega
    unfold reading
    rw [scan_emit (read_of_tag h), scan_drop, hlength, List.drop_succ_cons]
    simp

theorem reading_character (h : ¬tag inside <+: c :: text) (hp : ¬c :: text <+: tag inside) :
    reading inside (c :: text) = (reading inside text).prepend [character inside c] :=
  scan_emit (read_of_character h hp)

theorem reading_start (h : ¬tag inside <+: text) (hp : text <+: tag inside) :
    reading inside text = ⟨[], inside, text, false⟩ := by
  cases text
  case nil         => rfl
  case cons c text => exact scan_wait (read_of_start h hp)

theorem read_stop {final : Bool} {t : Bool} : read final inside c text ≠ .stop t := by
  intro h
  unfold read at h
  split at h
  case isTrue => cases h
  case isFalse =>
    split at h
    case isTrue  => cases h
    case isFalse => cases h

theorem reading_stopped : (reading inside text).stopped = false := by
  have h : if (reading inside text).stopped then False else True :=
    Incremental.scan_state (P := fun _ => True) (Q := fun _ => False) trivial
      (fun _ _ _ _ _ _ _ _ => trivial) (fun _ _ _ _ _ _ => trivial) (fun _ _ _ _ _ h => read_stop h)
  cases hr : (reading inside text).stopped
  case false => rfl
  case true  => simp [hr] at h

-- A text is read on where the reading of its first part has stopped.
theorem reading_append : reading inside (text ++ more) =
    (reading (reading inside text).state ((reading inside text).pending ++ more)).prepend
      (reading inside text).output := by
  have h := @Lawful.scan_append _ _ _ read false inside 0 text more lawful (Nat.zero_le _)
  unfold reading at h ⊢
  rw [h, Scan.resume]
  have hstopped := @reading_stopped inside text
  unfold reading at hstopped
  simp [hstopped]

-- Up to the next tag, the text is read as it is.
theorem reading_of_find {i : ℕ} (h : find (tag inside) text = some i) : reading inside text =
    (reading (!inside) (text.drop (i + (tag inside).length))).prepend
      ((text.take i).map (character inside) ++ [toggled inside]) := by
  induction text generalizing i
  case nil => cases h
  case cons c text hi =>
    unfold find at h
    split at h
    case isTrue hp =>
      cases h
      simpa using reading_tag (List.isPrefixOf_iff_prefix.mp hp)
    case isFalse hp =>
      obtain ⟨j, hj, h⟩ := Option.map_eq_some_iff.mp h
      have hlength := find_some hj
      have htag : ¬tag inside <+: c :: text := mt List.isPrefixOf_iff_prefix.mpr hp
      have hstart : ¬c :: text <+: tag inside := by
        intro hp
        have hle := hp.length_le
        simp only [List.length_cons] at hle
        omega
      rw [← h, reading_character htag hstart, hi hj, Nat.add_right_comm]
      simp

theorem not_prefix_of_find (h : find marker (c :: text) = none) : ¬marker <+: c :: text ∧ find marker text = none := by
  unfold find at h
  split at h
  case isTrue  => cases h
  case isFalse hp => exact ⟨mt List.isPrefixOf_iff_prefix.mpr hp, Option.map_eq_none_iff.mp h⟩

theorem suffixPrefixLen_cons (h : ¬c :: text <+: marker) :
    suffixPrefixLen (c :: text) marker = suffixPrefixLen text marker := by
  have hdrop : ∀ k, k ≤ text.length → (c :: text).drop ((c :: text).length - k) = text.drop (text.length - k) := by
    intro k hk
    rw [List.length_cons, Nat.succ_sub hk, List.drop_succ_cons]
  have hsame : ∀ m, m ≤ text.length →
      (((List.range m).map (· + 1)).reverse.find? fun length =>
        ((c :: text).drop ((c :: text).length - length)).isPrefixOf marker) =
      (((List.range m).map (· + 1)).reverse.find? fun length =>
        (text.drop (text.length - length)).isPrefixOf marker) := by
    intro m hm
    apply List.find?_congr
    intro k hk
    simp only [List.mem_reverse, List.mem_map, List.mem_range] at hk
    obtain ⟨j, hj, hk⟩ := hk
    rw [hdrop k (by omega)]
  unfold suffixPrefixLen
  cases hlt : decide (text.length < marker.length - 1)
  case false =>
    have hlt := of_decide_eq_false hlt
    have hl : min (c :: text).length (marker.length - 1) = marker.length - 1 := by
      simp only [List.length_cons]
      omega
    have hr : min text.length (marker.length - 1) = marker.length - 1 := by omega
    rw [hl, hr, hsame _ (by omega)]
  case true =>
    have hlt := of_decide_eq_true hlt
    have hl : min (c :: text).length (marker.length - 1) = text.length + 1 := by
      simp only [List.length_cons]
      omega
    have hr : min text.length (marker.length - 1) = text.length := by omega
    have hwhole : ((c :: text).drop ((c :: text).length - (text.length + 1))).isPrefixOf marker = false := by
      rw [List.length_cons, Nat.sub_self, List.drop_zero]
      exact Bool.eq_false_iff.mpr (mt List.isPrefixOf_iff_prefix.mp h)
    rw [hl, hr, List.range_succ, List.map_append, List.reverse_append, List.map_singleton, List.reverse_singleton,
      List.singleton_append, List.find?_cons, hwhole, hsame _ (Nat.le_refl _)]

-- Without another tag, the text is read up to what may become one.
theorem reading_of_not_find (h : find (tag inside) text = none) : reading inside text =
    let kept := text.length - suffixPrefixLen text (tag inside)
    ⟨(text.take kept).map (character inside), inside, text.drop kept, false⟩ := by
  induction text
  case nil => rfl
  case cons c text hi =>
    obtain ⟨htag, hrest⟩ := not_prefix_of_find h
    cases hp : decide (c :: text <+: tag inside)
    case true =>
      have hp := of_decide_eq_true hp
      have hlength : (c :: text).length < (tag inside).length := by
        apply Nat.lt_of_le_of_ne hp.length_le
        intro heq
        exact htag (hp.eq_of_length heq ▸ List.prefix_rfl)
      rw [reading_start htag hp, suffixPrefixLen_of_isPrefix hp hlength]
      simp
    case false =>
      have hp := of_decide_eq_false hp
      have hle : suffixPrefixLen text (tag inside) ≤ min text.length ((tag inside).length - 1) := suffixPrefixLen_le
      rw [reading_character htag hp, hi hrest, suffixPrefixLen_cons hp, List.length_cons, Nat.succ_sub (by omega)]
      rfl

end CompatWire
