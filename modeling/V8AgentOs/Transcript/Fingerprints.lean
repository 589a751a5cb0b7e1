import V8AgentOs.Transcript.Consistent

-- The sections that `_INLINE_THINK_PATTERN` cuts out of a text, and what stands between them
namespace Transcript

open Python

-- `<think\b[^>]*>` as a whole: an opening tag
def Tag (word : Char → Bool) (tag : List Char) : Prop :=
  ∃ name attributes, tag = name ++ (attributes ++ ['>']) ∧ name.map fold = "<think".toList ∧ '>' ∉ attributes ∧
    ¬(attributes ++ ['>']).head?.any word

-- The stretches of the text that are left, one before each match and one after the last
def pieces (word : Char → Bool) : ℕ → List Char → List (List Char)
  | 0, text        => [text]
  | _ + 1, []      => [[]]
  | n + 1, c :: cs =>
    match thinkAt word (c :: cs) with
    | some (_, rest) => [] :: pieces word n rest
    | none           => (pieces word n cs).modifyHead (c :: ·)

-- What stands before and after a section makes a tag when the section is gone.
def Joins (word : Char → Bool) (raw : List Char) : Prop :=
  ∃ tag, Tag word tag ∧ tag <:+: (pieces word raw.length raw).flatten ∧
    ∀ piece ∈ pieces word raw.length raw, ¬tag <:+: piece

variable {word : Char → Bool} {tag cs rest group piece : List Char} {n : ℕ}

theorem thinkAt_of_tag (ht : Tag word tag) (hp : tag <+: cs) : (thinkAt word cs).isSome := by
  obtain ⟨name, attributes, rfl, hname, hattributes, hword⟩ := ht
  obtain ⟨rest, rfl⟩ := hp
  have hlength : name.length = "<think".length := by
    have hlength := congrArg List.length hname
    rwa [List.length_map, String.length_toList] at hlength
  have hafter : afterTag "<think" (name ++ (attributes ++ ['>']) ++ rest) = some (attributes ++ ['>'] ++ rest) := by
    unfold afterTag
    rw [if_pos]
    case hc => simp [← hname]
    rw [List.append_assoc, List.drop_left' hlength]
  have hhead : ¬(attributes ++ ['>'] ++ rest).head?.any word := by
    cases attributes <;> simpa using hword
  have hdrop : (attributes ++ ['>'] ++ rest).dropWhile (· ≠ '>') = '>' :: rest := by
    have hall : ∀ c ∈ attributes, decide (c ≠ '>') := by
      intro c hc
      have hne : c ≠ '>' := by
        rintro rfl
        exact hattributes hc
      simpa using hne
    rw [List.append_assoc, List.dropWhile_append_of_pos hall]
    rfl
  simp only [thinkAt, hafter, if_neg hhead, hdrop, Option.isSome_some]

theorem tag_of_thinkAt (h : (thinkAt word cs).isSome) : ∃ tag, Tag word tag ∧ tag <+: cs := by
  unfold thinkAt at h
  cases ha : afterTag "<think" cs
  case none => simp [ha] at h
  case some rest =>
    simp only [ha] at h
    split_ifs at h with hword
    case pos => cases h
    case neg =>
      cases hd : rest.dropWhile (· ≠ '>')
      case nil =>
        rw [hd] at h
        cases h
      case cons d body =>
        unfold afterTag at ha
        split_ifs at ha with hname
        cases ha
        have hclose : d = '>' := by
          have hnot := List.head?_dropWhile_not (· ≠ '>') (cs.drop "<think".length)
          rw [hd] at hnot
          simpa using hnot
        subst hclose
        have hsplit := List.takeWhile_append_dropWhile (p := (· ≠ '>')) (l := cs.drop "<think".length)
        rw [hd] at hsplit
        refine ⟨cs.take "<think".length ++ ((cs.drop "<think".length).takeWhile (· ≠ '>') ++ ['>']),
          ⟨_, _, rfl, ?name, ?attributes, ?word⟩, ?start⟩
        case name =>
          rw [List.map_take]
          exact (List.prefix_iff_eq_take.mp hname).symm
        case attributes =>
          intro hmem
          simpa using List.mem_takeWhile_imp hmem
        case word =>
          intro hany
          apply hword
          rw [← hsplit]
          generalize (cs.drop "<think".length).takeWhile (· ≠ '>') = attributes at hany ⊢
          cases attributes <;> simpa using hany
        case start =>
          refine ⟨body, ?_⟩
          rw [List.append_assoc, List.append_assoc, List.singleton_append, hsplit, List.take_append_drop]

-- A text without an opening tag has no section.
theorem thinks_of_no_tag (h : ∀ tag, Tag word tag → ¬tag <:+: cs) : thinks word n cs = ([], cs) := by
  induction n generalizing cs
  case zero => rfl
  case succ n hi =>
    cases cs
    case nil => rfl
    case cons c cs =>
      have hnone : thinkAt word (c :: cs) = none := by
        cases ht : thinkAt word (c :: cs)
        case none => rfl
        case some =>
          have ⟨tag, htag, hp⟩ := tag_of_thinkAt (Option.isSome_of_eq_some ht)
          exact absurd hp.isInfix (h tag htag)
      have hrest : ∀ tag, Tag word tag → ¬tag <:+: cs :=
        fun tag htag hinside => h tag htag (hinside.trans (List.suffix_cons c cs).isInfix)
      simp only [thinks, hnone, hi hrest]

theorem untilClose_suffix (cs : List Char) : (untilClose cs).2 <:+ cs := by
  induction cs
  case nil => exact List.suffix_rfl
  case cons c cs hi =>
    unfold untilClose
    split
    case h_1 rest hr =>
      unfold afterTag at hr
      split_ifs at hr
      cases hr
      exact List.drop_suffix _ _
    case h_2 =>
      split_ifs with hend
      case pos =>
        rw [hend.2]
      case neg => exact hi.trans (List.suffix_cons c cs)

theorem thinkAt_length (h : thinkAt word cs = some (group, rest)) : rest.length < cs.length := by
  unfold thinkAt at h
  split at h
  case h_1 => cases h
  case h_2 after ha =>
    unfold afterTag at ha
    split_ifs at ha
    cases ha
    split_ifs at h
    split at h
    case h_1 => cases h
    case h_2 d body hd =>
      have hrest : (untilClose body).2 = rest := by rw [Option.some.inj h]
      have hle := (untilClose_suffix body).length_le
      have hdrop := (List.dropWhile_suffix (· ≠ '>') (l := cs.drop "<think".length)).length_le
      have htake := (List.drop_suffix "<think".length cs).length_le
      rw [hd, List.length_cons] at hdrop
      rw [hrest] at hle
      omega

-- The first piece is the start of the text.
theorem pieces_cons (word : Char → Bool) (n : ℕ) (cs : List Char) :
    ∃ piece after, pieces word n cs = piece :: after ∧ piece <+: cs := by
  induction n generalizing cs
  case zero => exact ⟨cs, [], rfl, List.prefix_rfl⟩
  case succ n hi =>
    cases cs
    case nil => exact ⟨[], [], rfl, List.prefix_rfl⟩
    case cons c cs =>
      unfold pieces
      cases thinkAt word (c :: cs)
      case some found => exact ⟨[], _, rfl, List.nil_prefix⟩
      case none =>
        have ⟨piece, after, heq, hp⟩ := hi cs
        rw [heq]
        exact ⟨c :: piece, after, rfl, List.cons_prefix_cons.mpr ⟨rfl, hp⟩⟩

theorem pieces_flatten (n : ℕ) (cs : List Char) : (pieces word n cs).flatten = (thinks word n cs).2 := by
  induction n generalizing cs
  case zero => simp [pieces, thinks]
  case succ n hi =>
    cases cs
    case nil => rfl
    case cons c cs =>
      unfold pieces thinks
      cases thinkAt word (c :: cs)
      case some found => simp [hi]
      case none =>
        have hcs := hi cs
        have ⟨piece, after, heq, _⟩ := pieces_cons word n cs
        rw [heq, List.flatten_cons] at hcs
        simp only [heq, List.modifyHead_cons, List.flatten_cons, List.cons_append, hcs]

-- No piece has a tag of its own: the search would have found it.
theorem no_tag_in_piece (hn : cs.length ≤ n) (hp : piece ∈ pieces word n cs) (ht : Tag word tag) :
    ¬tag <:+: piece := by
  have hne : tag ≠ [] := by
    obtain ⟨name, attributes, rfl, _⟩ := ht
    simp
  induction n generalizing cs piece
  case zero =>
    have hcs : cs = [] := List.eq_nil_of_length_eq_zero (Nat.le_zero.mp hn)
    have hpiece : piece = [] := by simpa [pieces, hcs] using hp
    rw [hpiece, List.infix_nil]
    exact hne
  case succ n hi =>
    cases cs
    case nil =>
      have hpiece : piece = [] := by simpa [pieces] using hp
      rw [hpiece, List.infix_nil]
      exact hne
    case cons c cs =>
      unfold pieces at hp
      cases hthink : thinkAt word (c :: cs)
      case some found =>
        have hlength := thinkAt_length hthink
        simp only [hthink] at hp
        cases List.mem_cons.mp hp
        case inl hpiece =>
          rw [hpiece, List.infix_nil]
          exact hne
        case inr hp =>
          refine hi ?_ hp
          rw [List.length_cons] at hlength hn
          omega
      case none =>
        have hle : cs.length ≤ n := Nat.le_of_succ_le_succ hn
        have ⟨first, after, heq, hfirst⟩ := pieces_cons word n cs
        simp only [hthink, heq, List.modifyHead_cons] at hp
        cases List.mem_cons.mp hp
        case inr hp => exact hi hle (heq ▸ List.mem_cons_of_mem _ hp)
        case inl hpiece =>
          rw [hpiece, List.infix_cons_iff]
          rintro (hstart | hlater)
          case inl =>
            have hsome := thinkAt_of_tag ht (hstart.trans (List.cons_prefix_cons.mpr ⟨rfl, hfirst⟩))
            simp [hthink] at hsome
          case inr => exact hi hle (heq ▸ List.mem_cons_self) hlater

-- What is left has an opening tag only where two pieces join to one.
theorem joins_iff {raw : List Char} : Joins word raw ↔
    ∃ tag, Tag word tag ∧ tag <:+: (thinks word raw.length raw).2 := by
  unfold Joins
  rw [pieces_flatten]
  constructor
  case mp =>
    rintro ⟨tag, ht, hinside, _⟩
    exact ⟨tag, ht, hinside⟩
  case mpr =>
    rintro ⟨tag, ht, hinside⟩
    exact ⟨tag, ht, hinside, fun _ hp => no_tag_in_piece le_rfl hp ht⟩

end Transcript

-- Fingerprints of texts that stand in other texts
namespace Transcript

open Python

-- A text that neither starts nor ends with white space
structure Solid (part : List Char) : Prop where
  ne_nil : part ≠ []
  head   : part.dropWhile isSpace = part
  last   : part.rdropWhile isSpace = part

variable {part cs before after : List Char} {inside : Bool} {c : Char} {s : String}

theorem solid_strip (h : strip s ≠ "") : Solid (strip s).toList where
  ne_nil := by simpa using h
  head   := by
    rw [strip, String.toList_ofList, dropWhile_rdropWhile _ (List.dropWhile_idempotent (p := isSpace) _)]
  last   := by
    rw [strip, String.toList_ofList, List.rdropWhile_idempotent]

namespace Solid

theorem exists_cons (h : Solid part) : ∃ c rest, part = c :: rest ∧ ¬isSpace c := by
  cases part
  case nil => exact absurd rfl h.ne_nil
  case cons c rest => exact ⟨c, rest, rfl, by simpa using List.dropWhile_eq_self_iff.mp h.head (Nat.succ_pos _)⟩

theorem exists_concat (h : Solid part) : ∃ start c, part = start ++ [c] ∧ ¬isSpace c := by
  have hlast := List.rdropWhile_eq_self_iff.mp h.last h.ne_nil
  exact ⟨part.dropLast, part.getLast h.ne_nil, (List.dropLast_append_getLast h.ne_nil).symm, hlast⟩

theorem of_ends {start rest : List Char} {d : Char} (hhead : part = c :: rest) (hc : ¬isSpace c)
    (hlast : part = start ++ [d]) (hd : ¬isSpace d) : Solid part where
  ne_nil := by simp [hhead]
  head   := by rw [hhead, List.dropWhile_cons_of_neg hc]
  last   := by rw [hlast, List.rdropWhile_concat_neg _ _ _ hd]

theorem dropWhile_append (h : Solid part) (before after : List Char) :
    ∃ rest, (before ++ (part ++ after)).dropWhile isSpace = rest ++ (part ++ after) := by
  induction before
  case nil =>
    obtain ⟨c, rest, rfl, hc⟩ := h.exists_cons
    exact ⟨[], by simp [hc]⟩
  case cons c before hi =>
    by_cases hc : isSpace c
    case pos => simpa [hc] using hi
    case neg => exact ⟨c :: before, by simp [hc]⟩

theorem rdropWhile_append (h : Solid part) (before after : List Char) :
    ∃ rest, (before ++ part ++ after).rdropWhile isSpace = before ++ part ++ rest := by
  induction after using List.reverseRecOn
  case nil =>
    obtain ⟨start, c, rfl, hc⟩ := h.exists_concat
    exact ⟨[], by rw [List.append_nil, ← List.append_assoc, List.rdropWhile_concat_neg _ _ _ hc]⟩
  case append_singleton after c hi =>
    rw [← List.append_assoc]
    by_cases hc : isSpace c
    case pos => rwa [List.rdropWhile_concat_pos _ _ _ hc]
    case neg => exact ⟨after ++ [c], by rw [List.rdropWhile_concat_neg _ _ _ hc, List.append_assoc]⟩

-- White space at the ends of a text is outside of its solid parts.
theorem infix_strip (h : Solid part) (hp : part <:+: s.toList) : part <:+: (strip s).toList := by
  obtain ⟨before, after, heq⟩ := hp
  have ⟨front, hfront⟩ := h.dropWhile_append before after
  have ⟨back, hback⟩ := h.rdropWhile_append front after
  rw [strip, String.toList_ofList, ← heq, List.append_assoc, hfront, ← List.append_assoc, hback]
  exact ⟨front, back, rfl⟩

end Solid

theorem strip_inside (s : String) : (strip s).toList <:+: s.toList := by
  rw [strip, String.toList_ofList]
  exact (List.rdropWhile_prefix isSpace _).isInfix.trans (List.dropWhile_suffix isSpace).isInfix

theorem squeeze_append (inside : Bool) (before after : List Char) :
    ∃ inside', squeeze inside (before ++ after) = squeeze inside before ++ squeeze inside' after := by
  induction before generalizing inside
  case nil => exact ⟨inside, rfl⟩
  case cons c before hi =>
    simp only [List.cons_append, squeeze]
    split_ifs
    case pos => exact hi true
    case neg =>
      have ⟨inside', heq⟩ := hi true
      exact ⟨inside', by rw [heq]; rfl⟩
    case neg =>
      have ⟨inside', heq⟩ := hi false
      exact ⟨inside', by rw [heq]; rfl⟩

theorem squeeze_of_solid (h : Solid part) (inside : Bool) : squeeze inside part = squeeze false part := by
  obtain ⟨c, rest, rfl, hc⟩ := h.exists_cons
  simp [squeeze, hc]

theorem Solid.squeeze (h : Solid part) : Solid (squeeze false part) := by
  have ⟨c, rest, hhead, hc⟩ := h.exists_cons
  have ⟨start, d, hlast, hd⟩ := h.exists_concat
  have ⟨inside', heq⟩ := squeeze_append false start [d]
  have hhead' : Transcript.squeeze false part = c :: Transcript.squeeze false rest := by
    simp [hhead, Transcript.squeeze, hc]
  have hlast' : Transcript.squeeze false part = Transcript.squeeze false start ++ [d] := by
    rw [hlast, heq]
    simp [Transcript.squeeze, hd]
  exact .of_ends hhead' hc hlast' hd

theorem infix_squeeze (h : Solid part) (hp : part <:+: cs) : squeeze false part <:+: squeeze false cs := by
  obtain ⟨before, after, rfl⟩ := hp
  have ⟨inside₁, h₁⟩ := squeeze_append false (before ++ part) after
  have ⟨inside₂, h₂⟩ := squeeze_append false before part
  rw [h₁, h₂, squeeze_of_solid h inside₂]
  exact ⟨_, _, rfl⟩

theorem squeeze_isSpace (h : ∀ c ∈ cs, isSpace c) : ∀ c ∈ squeeze inside cs, isSpace c := by
  intro c hc
  by_contra hno
  exact hno (h c ((mem_squeeze hno).mp hc))

theorem exists_spaces (s : String) : ∃ before after, s.toList = before ++ (strip s).toList ++ after ∧
    (∀ c ∈ before, isSpace c) ∧ ∀ c ∈ after, isSpace c := by
  refine ⟨s.toList.takeWhile isSpace, (s.toList.dropWhile isSpace).rtakeWhile isSpace, ?whole, ?before, ?after⟩
  case whole =>
    rw [strip, String.toList_ofList, List.append_assoc, List.rdropWhile_append_rtakeWhile,
      List.takeWhile_append_dropWhile]
  case before => exact fun _ hc => List.mem_takeWhile_imp hc
  case after => exact fun _ hc => List.mem_rtakeWhile_imp hc

theorem Solid.strip_between (h : Solid part) (hbefore : ∀ c ∈ before, isSpace c) (hafter : ∀ c ∈ after, isSpace c) :
    strip (String.ofList (before ++ part ++ after)) = String.ofList part := by
  rw [strip, String.toList_ofList, List.append_assoc, List.dropWhile_append_of_pos hbefore]
  congr 1
  induction after using List.reverseRecOn
  case nil => rw [List.append_nil, h.head, h.last]
  case append_singleton after c hi =>
    have ⟨d, rest, hhead, hd⟩ := h.exists_cons
    have hstay (after : List Char) : (part ++ after).dropWhile isSpace = part ++ after := by
      rw [hhead, List.cons_append, List.dropWhile_cons_of_neg hd]
    have hi := hi fun c hc => hafter c (List.mem_append_left _ hc)
    rw [hstay] at hi ⊢
    rw [← List.append_assoc, List.rdropWhile_concat_pos _ _ _ (hafter c (by simp)), hi]

variable {text : Unicode} {value : Json} {group : String}

theorem fingerprint_of_strip (h : strip s ≠ "") :
    reasoningFingerprint text (.str s) = String.ofList (squeeze false (strip s).toList) := by
  obtain ⟨before, after, heq, hbefore, hafter⟩ := exists_spaces s
  have hsolid := solid_strip h
  have ⟨inside₁, h₁⟩ := squeeze_append false (before ++ (strip s).toList) after
  have ⟨inside₂, h₂⟩ := squeeze_append false before (strip s).toList
  rw [reasoningFingerprint, orEmpty_str]
  conv_lhs => rw [heq, h₁, h₂, squeeze_of_solid hsolid]
  exact hsolid.squeeze.strip_between (squeeze_isSpace hbefore) (squeeze_isSpace hafter)

-- What stands in a text stands in it up to white space.
theorem fingerprint_infix (hg : strip group ≠ "") (h : (strip group).toList <:+: s.toList) :
    (reasoningFingerprint text (.str group)).toList <:+: (reasoningFingerprint text (.str s)).toList := by
  have hsolid := solid_strip hg
  rw [fingerprint_of_strip hg, String.toList_ofList, reasoningFingerprint, orEmpty_str]
  apply hsolid.squeeze.infix_strip
  rw [String.toList_ofList]
  exact infix_squeeze hsolid h

theorem infix_intercalate {separator part : String} {parts : List String} (h : part ∈ parts) :
    part.toList <:+: (separator.intercalate parts).toList := by
  induction parts
  case nil => cases h
  case cons first parts hi =>
    cases parts
    case nil =>
      rw [List.mem_singleton.mp h]
      simp
    case cons second parts =>
      rw [String.intercalate_cons_cons, String.toList_append, String.toList_append]
      cases List.mem_cons.mp h
      case inl heq =>
        rw [heq, List.append_assoc]
        exact (List.prefix_append _ _).isInfix
      case inr hmem => exact (hi hmem).trans (List.suffix_append _ _).isInfix

-- The reasoning that stands inline in a text, section by section
def sections (text : Unicode) (value : Json) : List String :=
  let raw := text.orEmpty value
  if mentionsThink text raw then (thinks text.word raw.length raw.toList).1.map String.ofList else []

theorem section_infix (h : group ∈ sections text value) (hne : reasoningFingerprint text (.str group) ≠ "") :
    (reasoningFingerprint text (.str group)).toList <:+:
      (reasoningFingerprint text (.str (splitInlineReasoning text value).2)).toList := by
  have hstrip : strip group ≠ "" := by
    rw [reasoningFingerprint_ne_empty_iff, orEmpty_str] at hne
    exact strip_ne_empty_iff.mpr hne
  apply fingerprint_infix hstrip
  unfold sections at h
  unfold splitInlineReasoning
  dsimp only at h ⊢
  split_ifs at h ⊢
  case neg => cases h
  case pos =>
    have ⟨chars, hchars, heq⟩ := List.mem_map.mp h
    apply infix_intercalate
    rw [List.mem_eraseDups, List.mem_filter]
    exact ⟨List.mem_map.mpr ⟨chars, hchars, by rw [heq]⟩, by simpa using hstrip⟩

end Transcript
