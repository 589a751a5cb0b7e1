import V8AgentOs.Composer.Segments

-- What a backspace removes.
namespace Composer

open Script (Text isSpace)

-- A deletion takes a range out of the text that has the references that it touches as a whole.
structure Deletes (value : Text) (segments : List ComposerInlineSegment) (d : ComposerReferenceDeletion)
    (removeStart removeEnd : ℕ) : Prop where
  text    : d.text = value.take removeStart ++ value.drop removeEnd
  caret   : d.caret = removeStart
  range   : removeStart < removeEnd ∧ removeEnd ≤ value.length
  whole   : ∀ segment ∈ segments, segment.reference.isSome → segment.start < removeEnd → removeStart < segment.stop →
    removeStart ≤ segment.start ∧ segment.stop ≤ removeEnd
  removed : ∀ id, id ∈ d.removedReferenceIds ↔ id ≠ [] ∧ ∃ segment ∈ segments, ∃ reference,
    segment.reference = some reference ∧ removeStart ≤ segment.start ∧ segment.stop ≤ removeEnd ∧ reference.id = id
  once    : d.removedReferenceIds.Nodup

variable {value : Text} {references : List ComposerInlineReference} {segments found : List ComposerInlineSegment}
  {segment s s' : ComposerInlineSegment} {start stop n : ℕ}

-- Segments of a text that are apart and do not begin with white space
structure Marks (value : Text) (segments : List ComposerInlineSegment) : Prop where
  bounds : ∀ s ∈ segments, s.start < s.stop ∧ s.stop ≤ value.length
  apart  : ∀ s ∈ segments, ∀ s' ∈ segments, s = s' ∨ s.stop ≤ s'.start ∨ s'.stop ≤ s.start
  solid  : ∀ s ∈ segments, spaceAt value s.start = false

theorem not_space_sign {reference : ComposerInlineReference} :
    (composerReferenceToken reference).head?.any isSpace = false := by
  have hslash : isSpace slash = false := by decide
  have hat : isSpace atSign = false := by decide
  unfold composerReferenceToken
  split
  case isTrue  => exact hslash
  case isFalse => exact hat

theorem marks_marks : Marks value (marks value references) where
  bounds := fun s hs => (tiles_build.start_le (List.mem_of_mem_filter hs)).right
  apart  := fun s hs s' hs' => tiles_build.apart (List.mem_of_mem_filter hs) (List.mem_of_mem_filter hs')
  solid  := by
    intro s hs
    obtain ⟨hs, hsome⟩ := List.mem_filter.mp hs
    rw [build_eq] at hs
    cases mem_tile hs
    case inl h => simp [h.left] at hsome
    case inr h =>
      obtain ⟨m, hm, heq⟩ := h
      obtain ⟨_, htoken, hchosen⟩ := mem_matchesOf.mp (taken_subset hm)
      obtain ⟨rest, hrest⟩ := hchosen.sound.right
      have hhead : value[m.start]? = m.token.head? := by
        rw [← List.head?_drop, ← hrest, List.head?_append_of_ne_nil _ (htoken ▸ token_ne_nil)]
      rw [heq, spaceAt, hhead, htoken]
      exact not_space_sign

theorem foldl_max_spec {l : List ℕ} :
    n ≤ l.foldl max n ∧ (∀ k ∈ l, k ≤ l.foldl max n) ∧ (l.foldl max n = n ∨ l.foldl max n ∈ l) := by
  induction l generalizing n
  case nil => simp
  case cons a l hi =>
    obtain ⟨hle, hall, hmem⟩ := @hi (max n a)
    simp only [List.foldl_cons, List.mem_cons]
    refine ⟨by omega, ?bound, ?attained⟩
    case bound =>
      intro k hk
      cases hk
      case inl hk => omega
      case inr hk => exact hall k hk
    case attained =>
      cases hmem
      case inl h => omega
      case inr h => exact .inr (.inr h)

theorem foldl_min_spec {l : List ℕ} :
    l.foldl min n ≤ n ∧ (∀ k ∈ l, l.foldl min n ≤ k) ∧ (l.foldl min n = n ∨ l.foldl min n ∈ l) := by
  induction l generalizing n
  case nil => simp
  case cons a l hi =>
    obtain ⟨hle, hall, hmem⟩ := @hi (min n a)
    simp only [List.foldl_cons, List.mem_cons]
    refine ⟨by omega, ?bound, ?attained⟩
    case bound =>
      intro k hk
      cases hk
      case inl hk => omega
      case inr hk => exact hall k hk
    case attained =>
      cases hmem
      case inl h => omega
      case inr h => exact .inr (.inr h)

theorem touched_subset (h : s ∈ touched value segments start stop) : s ∈ segments := by
  unfold touched at h
  split at h
  case isTrue  => exact List.mem_of_mem_filter h
  case isFalse => exact List.mem_of_mem_filter h

theorem touches_caret : touches start start s = true ↔ s.start < start ∧ start ≤ s.stop := by
  simp [touches]

theorem touches_selection (h : start < stop) : touches start stop s = true ↔ s.start < stop ∧ start < s.stop := by
  simp [touches, Nat.ne_of_lt h]

-- The first and the last unit of some segments and a range
theorem first_of_segments : (found.map (·.start)).foldl min start = start ∨
    ∃ f ∈ found, (found.map (·.start)).foldl min start = f.start := by
  cases (@foldl_min_spec start (found.map (·.start))).right.right
  case inl h => exact .inl h
  case inr h =>
    obtain ⟨f, hf, heq⟩ := List.mem_map.mp h
    exact .inr ⟨f, hf, heq.symm⟩

theorem last_of_segments : (found.map (·.stop)).foldl max stop = stop ∨
    ∃ f ∈ found, (found.map (·.stop)).foldl max stop = f.stop := by
  cases (@foldl_max_spec stop (found.map (·.stop))).right.right
  case inl h => exact .inl h
  case inr h =>
    obtain ⟨f, hf, heq⟩ := List.mem_map.mp h
    exact .inr ⟨f, hf, heq.symm⟩

-- Between the first unit that is touched and the last one, all segments are touched.
theorem mem_touched (hm : Marks value segments) (hle : start ≤ stop) (hs : s ∈ segments)
    (hstart : ((touched value segments start stop).map (·.start)).foldl min start < s.stop)
    (hend : s.start < ((touched value segments start stop).map (·.stop)).foldl max stop) :
    s ∈ touched value segments start stop := by
  have hpos := (hm.bounds s hs).left
  by_contra hno
  have hapart : ∀ f ∈ touched value segments start stop, f.stop ≤ s.start ∨ s.stop ≤ f.start := by
    intro f hf
    cases hm.apart f (touched_subset hf) s hs
    case inl heq => exact absurd (heq ▸ hf) hno
    case inr h   => exact h
  have hbounds := fun f hf => hm.bounds f (@touched_subset value segments f start stop hf)
  have hfirst := @first_of_segments (touched value segments start stop) start
  have hlast := @last_of_segments (touched value segments start stop) stop
  generalize ((touched value segments start stop).map (·.start)).foldl min start = first at *
  generalize ((touched value segments start stop).map (·.stop)).foldl max stop = last at *
  unfold touched at hno hapart hbounds hfirst hlast
  split at hno
  case isTrue h =>
    -- The caret is behind the white space behind the segments that are touched.
    rw [if_pos h] at hapart hbounds hfirst hlast
    obtain ⟨heq, hnone, _⟩ := h
    subst heq
    have huntouched : ¬(s.start < start ∧ start ≤ s.stop) := fun ht =>
      List.filter_eq_nil_iff.mp hnone s hs (touches_caret.mpr ht)
    have hnear : s.stop ≠ start - 1 := fun heq => hno (List.mem_filter.mpr ⟨hs, by simpa using heq⟩)
    have hends : ∀ f ∈ segments.filter fun segment => segment.stop = start - 1, f.stop = start - 1 :=
      fun f hf => by simpa using (List.mem_filter.mp hf).right
    grind
  case isFalse h =>
    rw [if_neg h] at hapart hbounds hfirst hlast
    have huntouched : ¬touches start stop s = true := fun ht => hno (List.mem_filter.mpr ⟨hs, ht⟩)
    have htouches : ∀ f ∈ segments.filter (touches start stop), touches start stop f = true :=
      fun f hf => (List.mem_filter.mp hf).right
    cases Nat.lt_or_eq_of_le hle
    case inl hlt =>
      simp only [touches_selection hlt] at huntouched htouches
      grind
    case inr heq =>
      subst heq
      simp only [touches_caret] at huntouched htouches
      grind

-- What is removed: the segments that are touched, and no part of another one
structure Removal (value : Text) (segments found : List ComposerInlineSegment) (removeStart removeEnd : ℕ) : Prop where
  range  : removeStart < removeEnd ∧ removeEnd ≤ value.length
  within : ∀ s ∈ found, removeStart ≤ s.start ∧ s.stop ≤ removeEnd
  only   : ∀ s ∈ segments, s.start < removeEnd → removeStart < s.stop → s ∈ found

theorem removal_touched (hm : Marks value segments) (hle : start ≤ stop) (hstop : stop ≤ value.length)
    (hne : touched value segments start stop ≠ []) :
    Removal value segments (touched value segments start stop)
      (removal value (touched value segments start stop) start stop).1
      (removal value (touched value segments start stop) start stop).2 := by
  obtain ⟨f, hf⟩ := List.exists_mem_of_ne_nil _ hne
  have hbounds := fun f hf => hm.bounds f (@touched_subset value segments f start stop hf)
  have htouched := fun s hs => @mem_touched value segments s start stop hm hle hs
  have hfirst := fun s hs =>
    (@foldl_min_spec start ((touched value segments start stop).map (·.start))).right.left s.start
      (List.mem_map.mpr ⟨s, hs, rfl⟩)
  have hlast := fun s hs =>
    (@foldl_max_spec stop ((touched value segments start stop).map (·.stop))).right.left s.stop
      (List.mem_map.mpr ⟨s, hs, rfl⟩)
  have hattained := @last_of_segments (touched value segments start stop) stop
  unfold removal
  generalize ((touched value segments start stop).map (·.start)).foldl min start = first at *
  generalize ((touched value segments start stop).map (·.stop)).foldl max stop = last at *
  have hpos := hbounds f hf
  have hfirstf := hfirst f hf
  have hlastf := hlast f hf
  have hlength : last ≤ value.length := by
    cases hattained
    case inl h => omega
    case inr h =>
      obtain ⟨g, hg, heq⟩ := h
      exact heq ▸ (hbounds g hg).right
  simp only
  split
  case isFalse =>
    exact {
      range  := ⟨by omega, hlength⟩
      within := fun s hs => ⟨hfirst s hs, hlast s hs⟩
      only   := fun s hs hend hstart => htouched s hs hstart hend
    }
  case isTrue h =>
    obtain ⟨hlt, hblank, _⟩ := h
    exact {
      range  := ⟨by omega, hlt⟩
      within := fun s hs => ⟨hfirst s hs, Nat.le_succ_of_le (hlast s hs)⟩
      only   := by
        intro s hs hend hstart
        cases Nat.lt_or_eq_of_le (Nat.le_of_lt_succ hend)
        case inl hlt => exact htouched s hs hstart hlt
        case inr heq =>
          -- The blank is behind the last of the segments, and no segment begins with one.
          have hsolid := hm.solid s hs
          rw [heq, spaceAt, hblank] at hsolid
          cases hsolid
    }

theorem mem_distinct {id : Text} {ids : List Text} : id ∈ distinct ids ↔ id ∈ ids ∧ id ≠ [] := by
  simp [distinct]

theorem nodup_distinct {ids : List Text} : (distinct ids).Nodup :=
  List.nodup_reverse.mpr (List.nodup_dedup _)

theorem mem_removedReferenceIds {id : Text} (hsome : ∀ s ∈ found, s.reference.isSome = true) :
    id ∈ distinct (found.map fun segment => (segment.reference.map (·.id)).getD []) ↔
      id ≠ [] ∧ ∃ segment ∈ found, ∃ reference, segment.reference = some reference ∧ reference.id = id := by
  rw [mem_distinct, List.mem_map, and_comm]
  apply and_congr_right
  intro _
  constructor
  case mp =>
    intro ⟨segment, hs, hid⟩
    obtain ⟨reference, hreference⟩ := Option.isSome_iff_exists.mp (hsome segment hs)
    rw [hreference] at hid
    exact ⟨segment, hs, reference, hreference, hid⟩
  case mpr =>
    intro ⟨segment, hs, reference, hreference, hid⟩
    exact ⟨segment, hs, by simp [hreference, hid]⟩

theorem mem_marks : s ∈ marks value references ↔
    s ∈ buildComposerInlineSegments value references ∧ s.reference.isSome = true :=
  List.mem_filter

-- Every deletion is of whole references.
theorem deletes {selectionStart selectionEnd : ℤ} {d : ComposerReferenceDeletion}
    (h : removeComposerReferenceAtBackspace value references selectionStart selectionEnd = some d) :
    ∃ removeStart removeEnd, Deletes value (buildComposerInlineSegments value references) d removeStart removeEnd := by
  unfold removeComposerReferenceAtBackspace at h
  simp only at h
  generalize hstart : (max 0 (min (value.length : ℤ) selectionStart)).toNat = start at h
  generalize hstop : (max (start : ℤ) (min (value.length : ℤ) selectionEnd)).toNat = stop at h
  split at h
  case isTrue => cases h
  case isFalse hne =>
    have hremoval := removal_touched (@marks_marks value references) (by omega) (by omega) hne
    have hsome : ∀ s ∈ touched value (marks value references) start stop, s.reference.isSome = true :=
      fun s hs => (mem_marks.mp (touched_subset hs)).right
    cases h
    refine ⟨_, _, {
      text    := rfl
      caret   := rfl
      range   := hremoval.range
      whole   := fun s hs hreference hend hstart =>
        hremoval.within s (hremoval.only s (mem_marks.mpr ⟨hs, hreference⟩) hend hstart)
      removed := ?removed
      once    := nodup_distinct
    }⟩
    case removed =>
      intro id
      rw [mem_removedReferenceIds hsome]
      apply and_congr_right
      intro _
      constructor
      case mp =>
        intro ⟨s, hs, reference, hreference, hid⟩
        obtain ⟨hstart, hend⟩ := hremoval.within s hs
        exact ⟨s, (mem_marks.mp (touched_subset hs)).left, reference, hreference, hstart, hend, hid⟩
      case mpr =>
        intro ⟨s, hs, reference, hreference, hstart, hend, hid⟩
        have hmark := mem_marks.mpr ⟨hs, by simp [hreference]⟩
        have hpos := ((@marks_marks value references).bounds s hmark).left
        exact ⟨s, hremoval.only s hmark (by omega) (by omega), reference, hreference, hid⟩

-- The segments are what they are meant to be, and a backspace removes whole references.
def Faithful (value : Text) (references : List ComposerInlineReference) : Prop :=
  Segmented value references (buildComposerInlineSegments value references) ∧
    ∀ selectionStart selectionEnd d,
      removeComposerReferenceAtBackspace value references selectionStart selectionEnd = some d →
        ∃ removeStart removeEnd, Deletes value (buildComposerInlineSegments value references) d removeStart removeEnd

theorem faithful_iff : Faithful value references ↔ Met value references := by
  constructor
  case mp  => exact fun h => segmented_iff.mp h.left
  case mpr => exact fun h => ⟨segmented_iff.mpr h, fun _ _ _ => deletes⟩

-- A token that stands twice, with a sign in common, behind another one that takes the start of the first of them
def overlapping : List ComposerInlineReference :=
  [⟨.skill, Script.text "1", Script.text "b@a"⟩, ⟨.skill, Script.text "2", Script.text "a@a"⟩]

theorem token_lost :
    ¬Faithful (Script.text "@b@a@a@a") overlapping ∧
    (buildComposerInlineSegments (Script.text "@b@a@a@a") overlapping).map (·.text) =
      [Script.text "@b@a", Script.text "@a@a"] := by
  have hsegments : buildComposerInlineSegments (Script.text "@b@a@a@a") overlapping =
      [⟨Script.text "@b@a", 0, 4, some ⟨.skill, Script.text "1", Script.text "b@a"⟩⟩,
        ⟨Script.text "@a@a", 4, 8, none⟩] := by decide +kernel
  refine ⟨?faithful, by rw [hsegments]; rfl⟩
  case faithful =>
    intro h
    have hclear := h.left.clear
    rw [hsegments] at hclear
    have hlisted : Listed overlapping ⟨.skill, Script.text "2", Script.text "a@a"⟩ :=
      ⟨by decide +kernel, by decide +kernel⟩
    exact hclear ⟨Script.text "@a@a", 4, 8, none⟩ (by simp) rfl _ hlisted (by decide +kernel)

end Composer
