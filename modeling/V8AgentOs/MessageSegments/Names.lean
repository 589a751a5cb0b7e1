import Mathlib.Data.List.Nodup
import Mathlib.Data.List.Perm.Basic
import V8AgentOs.Lib.Numbering
import V8AgentOs.Lib.Segments
import V8AgentOs.MessageSegments.Build

-- The nodes in blocks: each block becomes a segment.
namespace MessageSegments

open Script Segments

variable {ν δ : Type}

-- A node does not stay in the block of a head: one of both is no trace, or they have different group ids.
def breaks (head node : TimelineSegmentNode ν δ) : Bool :=
  !(head.isTrace && node.isTrace) || (node.groupId ≠ [] && head.groupId ≠ [] && node.groupId ≠ head.groupId)

def blocks (nodes : List (TimelineSegmentNode ν δ)) : List (List (TimelineSegmentNode ν δ)) :=
  segments breaks nodes

-- The segments of blocks, of which the first one is at a position among the segments and at an index of the nodes
def render (active : Bool) (position index : ℕ) (bases : List Text) :
    List (List (TimelineSegmentNode ν δ)) → List (MessageTimelineSegment ν δ)
  | []                    => []
  | [] :: rest            => render active position index bases rest
  | (first :: more) :: rest =>
    if first.isTrace then
      let base := baseGroupId first.groupId first index position
      let followedByNarrative := rest.flatten.any (·.isNarrative)
      let isActive := active && !followedByNarrative
      .traceGroup (occurrenceId base (bases.count base)) (first :: more) (followedByNarrative && !isActive) isActive ::
        render active (position + 1) (index + (more.length + 1)) (bases ++ [base]) rest
    else
      .node (nodeSegmentId first index position) first ::
        render active (position + 1) (index + (more.length + 1)) bases rest

variable {nodes seen rest more : List (TimelineSegmentNode ν δ)} {node first : TimelineSegmentNode ν δ} {active : Bool}
  {s : Building ν δ} {position index : ℕ}

-- What is shown when the rest of the nodes has been visited
def rendered (active : Bool) (s : Building ν δ) (index : ℕ) (rest : List (TimelineSegmentNode ν δ)) :
    List (MessageTimelineSegment ν δ) :=
  s.segments ++
    match s.traceBuffer with
    | []            => render active s.segments.length index s.bases (blocks rest)
    | first :: more => render active s.segments.length s.traceStartIndex s.bases
        ((first :: (more ++ (cut breaks (some first) rest).1)) :: (cut breaks (some first) rest).2)

-- The buffer has the start of a block, up to the index.
structure Buffered (s : Building ν δ) (index : ℕ) : Prop where
  trace : ∀ first more, s.traceBuffer = first :: more → first.isTrace = true ∧ s.traceGroupId = first.groupId
  index : s.traceBuffer ≠ [] → s.traceStartIndex + s.traceBuffer.length = index

theorem hasNarrativeFrom_append : hasNarrativeFrom (seen ++ rest) seen.length = rest.any (·.isNarrative) := by
  rw [hasNarrativeFrom, List.drop_left]

theorem blocks_cons : blocks (node :: rest) =
    (node :: (cut breaks (some node) rest).1) :: (cut breaks (some node) rest).2 :=
  segments_cons

-- A buffer that ends here
theorem rendered_flush (active : Bool) (rest : List (TimelineSegmentNode ν δ)) (hb : Buffered s seen.length)
    (hbreak : ∀ first more, s.traceBuffer = first :: more → cut breaks (some first) rest = ([], blocks rest)) :
    rendered active (s.flushTrace (seen ++ rest) active seen.length) seen.length rest =
      rendered active s seen.length rest ∧ (s.flushTrace (seen ++ rest) active seen.length).traceBuffer = [] := by
  unfold Building.flushTrace rendered
  cases hbuffer : s.traceBuffer
  case nil => simp [hbuffer]
  case cons first more =>
    obtain ⟨htrace, hgroup⟩ := hb.trace first more hbuffer
    have hindex := hb.index (by simp [hbuffer])
    have hflat : (blocks rest).flatten = rest := flatten_segments
    simp only [hbreak first more hbuffer, List.append_nil, render, htrace, if_true, hgroup, List.length_append,
      List.length_singleton, List.append_assoc, hasNarrativeFrom_append, hflat]
    simp only [hbuffer, List.length_cons] at hindex
    rw [hindex]
    exact ⟨rfl, trivial⟩

-- A node that begins a block
theorem rendered_begin (hbuffer : s.traceBuffer = []) :
    rendered active { s with traceStartIndex := index, traceGroupId := node.groupId, traceBuffer := [node] } (index + 1)
      rest = rendered active s index (node :: rest) := by
  simp [rendered, hbuffer, blocks_cons]

-- A node that stays in the block of the buffer
theorem rendered_stay (hbuffer : s.traceBuffer = first :: more) (hstays : breaks first node = false) :
    rendered active { s with traceBuffer := s.traceBuffer ++ [node] } (index + 1) rest =
      rendered active s index (node :: rest) := by
  simp [rendered, hbuffer, cut_some_of_stays hstays]

-- A node that is no trace
theorem rendered_node (hbuffer : s.traceBuffer = []) (htrace : node.isTrace = false) :
    rendered active { s with segments := s.segments ++ [.node (nodeSegmentId node index s.segments.length) node] }
      (index + 1) rest = rendered active s index (node :: rest) := by
  have hcut : cut breaks (some node) rest = ([], blocks rest) := by
    apply cut_of_head_breaks
    intro next _
    simp [breaks, htrace]
  simp [rendered, hbuffer, blocks_cons, hcut, render, htrace]

theorem buffered_begin (htrace : node.isTrace = true) :
    Buffered { s with traceStartIndex := index, traceGroupId := node.groupId, traceBuffer := [node] } (index + 1) where
  index _ := rfl
  trace first more hcons := by
    cases hcons
    exact ⟨htrace, rfl⟩

theorem buffered_nil (hbuffer : s.traceBuffer = []) : Buffered s index where
  trace first more hcons := by simp [hbuffer] at hcons
  index hne := absurd hbuffer hne

theorem Buffered.stay (hb : Buffered s index) (hne : s.traceBuffer ≠ []) :
    Buffered { s with traceBuffer := s.traceBuffer ++ [node] } (index + 1) where
  trace first more hcons := by
    cases hbuffer : s.traceBuffer
    case nil => exact absurd hbuffer hne
    case cons head tail =>
      simp only [hbuffer, List.cons_append, List.cons.injEq] at hcons
      cases hcons.left
      exact hb.trace first tail hbuffer
  index _ := by
    have := hb.index hne
    simp only [List.length_append, List.length_singleton]
    omega

theorem rendered_visit (active : Bool) (node : TimelineSegmentNode ν δ) (rest : List (TimelineSegmentNode ν δ))
    (hb : Buffered s seen.length) :
    rendered active (s.visit (seen ++ node :: rest) active (node, seen.length)) (seen.length + 1) rest =
      rendered active s seen.length (node :: rest) ∧
    Buffered (s.visit (seen ++ node :: rest) active (node, seen.length)) (seen.length + 1) := by
  cases htrace : node.isTrace
  case false =>
    obtain ⟨hsame, hempty⟩ := rendered_flush active (node :: rest) hb fun first more _ =>
      cut_of_head_breaks (by simp [breaks, htrace])
    simp only [Building.visit, htrace, Bool.false_eq_true, if_false]
    rw [rendered_node hempty htrace, hsame]
    exact ⟨rfl, buffered_nil hempty⟩
  case true =>
    cases hbuffer : s.traceBuffer
    case nil =>
      simp only [Building.visit, htrace, hbuffer, if_true, ne_eq, not_true, false_and, if_false, List.nil_append]
      exact ⟨rendered_begin hbuffer, buffered_begin htrace⟩
    case cons first more =>
      obtain ⟨hfirst, hgroup⟩ := hb.trace first more hbuffer
      have hne : s.traceBuffer ≠ [] := by simp [hbuffer]
      cases hbreak : breaks first node
      case true =>
        have hdiffer : node.groupId ≠ [] ∧ s.traceGroupId ≠ [] ∧ node.groupId ≠ s.traceGroupId := by
          simpa [breaks, hfirst, htrace, hgroup, and_assoc] using hbreak
        obtain ⟨hsame, hempty⟩ := rendered_flush active (node :: rest) hb (by
          intro head tail hcons
          cases hbuffer.symm.trans hcons
          exact cut_of_head_breaks (by simp [hbreak]))
        have hcond : s.traceBuffer ≠ [] ∧ node.groupId ≠ [] ∧ s.traceGroupId ≠ [] ∧
            node.groupId ≠ s.traceGroupId := ⟨hne, hdiffer⟩
        simp only [Building.visit, htrace, if_true, if_pos hcond, hempty, List.nil_append]
        exact ⟨(rendered_begin hempty).trans hsame, buffered_begin htrace⟩
      case false =>
        have hsame : ¬(s.traceBuffer ≠ [] ∧ node.groupId ≠ [] ∧ s.traceGroupId ≠ [] ∧
            node.groupId ≠ s.traceGroupId) := by
          rintro ⟨-, hnode, hhead, hdiffer⟩
          rw [hgroup] at hhead hdiffer
          simp [breaks, hnode, hhead, hdiffer] at hbreak
        simp only [Building.visit, htrace, if_true, if_neg hsame, if_neg hne]
        exact ⟨rendered_stay hbuffer hbreak, hb.stay hne⟩

theorem rendered_foldl (active : Bool) (rest : List (TimelineSegmentNode ν δ)) (hb : Buffered s seen.length) :
    ∃ s', (rest.zipIdx seen.length).foldl (Building.visit (seen ++ rest) active) s = s' ∧
      Buffered s' (seen ++ rest).length ∧
      rendered active s' (seen ++ rest).length [] = rendered active s seen.length rest := by
  induction rest generalizing s seen
  case nil => exact ⟨s, rfl, by simpa using hb, by simp⟩
  case cons node rest hi =>
    obtain ⟨hsame, hb⟩ := rendered_visit active node rest hb
    rw [← List.length_singleton (a := node), ← List.length_append] at hb
    obtain ⟨s', hs', hb', hrun⟩ := hi hb
    refine ⟨s', ?_, by simpa using hb', ?_⟩
    · simpa using hs'
    · simpa [hsame] using hrun

-- Nothing remains to be shown when the buffer is empty.
theorem rendered_nil (hbuffer : s.traceBuffer = []) : rendered active s index [] = s.segments := by
  rw [rendered, hbuffer]
  exact List.append_nil _

-- The segments are the blocks.
theorem segmentsOf_eq : segmentsOf nodes active = render active 0 0 [] (blocks nodes) := by
  have hstart : Buffered ({} : Building ν δ) ([] : List (TimelineSegmentNode ν δ)).length := buffered_nil rfl
  obtain ⟨s, hs, hb, hrun⟩ := rendered_foldl active nodes hstart
  simp only [List.nil_append, List.length_nil] at hs hb hrun
  obtain ⟨hlast, hempty⟩ := rendered_flush active [] hb fun _ _ _ => rfl
  rw [List.append_nil] at hlast hempty
  rw [segmentsOf, hs, ← rendered_nil hempty, hlast, hrun]
  rfl

end MessageSegments

-- The ids of the segments
namespace MessageSegments

open Script Segments Numbering

variable {ν δ : Type}

-- The bases of the groups' ids
def groupBases (position index : ℕ) : List (List (TimelineSegmentNode ν δ)) → List Text
  | []                      => []
  | [] :: rest              => groupBases position index rest
  | (first :: more) :: rest =>
    (if first.isTrace then [baseGroupId first.groupId first index position] else []) ++
      groupBases (position + 1) (index + (more.length + 1)) rest

-- The ids of the nodes that are no traces
def nodeIds (position index : ℕ) : List (List (TimelineSegmentNode ν δ)) → List Text
  | []                      => []
  | [] :: rest              => nodeIds position index rest
  | (first :: more) :: rest =>
    (if first.isTrace then [] else [nodeSegmentId first index position]) ++
      nodeIds (position + 1) (index + (more.length + 1)) rest

-- The ids of the groups, as the nodes name them
def tags (bs : List (List (TimelineSegmentNode ν δ))) : List Text :=
  (heads bs).filterMap fun first => if first.isTrace && first.groupId ≠ [] then some first.groupId else none

-- No name that a node gives to a group is the id of another segment.
def Clear (bs : List (List (TimelineSegmentNode ν δ))) : Prop :=
  ∀ tag ∈ tags bs, tag ∉ nodeIds 0 0 bs ∧ ∀ base ∈ groupBases 0 0 bs, ∀ occurrence,
    0 < occurrence → occurrence < (groupBases 0 0 bs).count base → tag ≠ occurrenceId base occurrence

variable {bs : List (List (TimelineSegmentNode ν δ))} {active : Bool} {position index n m k : ℕ} {bases : List Text}
  {x y b t : Text}

theorem toNat_of_digit {c : Char} (h : c ∈ Nat.toDigits 10 n) : 0x30 ≤ c.toNat ∧ c.toNat ≤ 0x39 :=
  Char.isDigit_iff_toNat.mp (Nat.isDigit_of_mem_toDigits (by decide) (by decide) h)

theorem decimal_eq : decimal n = (Nat.toDigits 10 n).map fun c => UInt16.ofNat c.toNat := by
  have hdigits : ∀ cs ⊆ Nat.toDigits 10 n, cs.flatMap units = cs.map fun c => UInt16.ofNat c.toNat := by
    intro cs hcs
    induction cs
    case nil => rfl
    case cons c cs hi =>
      have hc := toNat_of_digit (hcs List.mem_cons_self)
      have hunits : units c = [UInt16.ofNat c.toNat] := if_pos (by omega)
      rw [List.flatMap_cons, List.map_cons, hunits, hi fun d hd => hcs (List.mem_cons_of_mem c hd)]
      rfl
  exact hdigits _ (List.Subset.refl _)

theorem toNat_ofNat {c : Char} (h : c ∈ Nat.toDigits 10 n) : (UInt16.ofNat c.toNat).toNat = c.toNat := by
  have hc := toNat_of_digit h
  rw [UInt16.toNat_ofNat', Nat.mod_eq_of_lt (by omega)]

theorem decimal_digits : ∀ u ∈ decimal n, isDigit u = true := by
  intro u hu
  rw [decimal_eq] at hu
  obtain ⟨c, hc, rfl⟩ := List.mem_map.mp hu
  have hrange := toNat_of_digit hc
  rw [isDigit, toNat_ofNat hc]
  simp [hrange]

theorem decimal_inj (h : decimal n = decimal m) : n = m := by
  have hback (k : ℕ) : (decimal k).map (fun u => Char.ofNat u.toNat) = Nat.toDigits 10 k := by
    rw [decimal_eq, List.map_map]
    apply (List.map_congr_left ?_).trans (List.map_id _)
    intro c hc
    rw [Function.comp_apply, toNat_ofNat hc, Char.ofNat_toNat, id]
  have hdigits : Nat.toDigits 10 n = Nat.toDigits 10 m := by rw [← hback n, h, hback m]
  have hvalue := congrArg (Nat.ofDigitChars 10 · 0) hdigits
  simpa only [Nat.ofDigitChars_ten_toDigits] using hvalue

theorem rtakeWhile_decimal {u : UInt16} (hu : isDigit u = false) :
    (x ++ [u] ++ decimal n).rtakeWhile isDigit = decimal n := by
  have hdigits : ∀ u ∈ (decimal n).reverse, isDigit u = true := fun u hu => decimal_digits u (List.mem_reverse.mp hu)
  rw [List.rtakeWhile, List.reverse_append, List.takeWhile_append_of_pos hdigits]
  simp [hu]

-- A text that ends with a number behind something that is no digit
theorem numbered_inj {u v : UInt16} (hu : isDigit u = false) (hv : isDigit v = false)
    (h : x ++ [u] ++ decimal n = y ++ [v] ++ decimal m) : x = y ∧ u = v ∧ n = m := by
  have hnumber : decimal n = decimal m := by
    rw [← rtakeWhile_decimal (x := x) (n := n) hu, h, rtakeWhile_decimal hv]
  rw [hnumber] at h
  have hfront := List.append_cancel_right h
  obtain ⟨hx, huv⟩ := List.append_inj' hfront rfl
  exact ⟨hx, List.singleton_inj.mp huv, decimal_inj hnumber⟩

-- The ids of the segments, those of the nodes first
theorem render_ids : ((render active position index bases bs).map (·.id)).Perm (nodeIds position index bs ++
    (occurrences bases (groupBases position index bs)).map fun p => occurrenceId p.1 p.2) := by
  induction bs generalizing position index bases
  case nil => exact .refl _
  case cons block bs hi =>
    cases block
    case nil => exact hi
    case cons first more =>
      cases htrace : first.isTrace
      case false =>
        simp only [render, nodeIds, groupBases, htrace, Bool.false_eq_true, if_false, List.map_cons, List.nil_append,
          List.cons_append]
        exact hi.cons _
      case true =>
        simp only [render, nodeIds, groupBases, htrace, if_true, List.map_cons, List.nil_append, List.cons_append,
          occurrences, MessageTimelineSegment.id]
        exact (hi.cons _).trans List.perm_middle.symm

theorem nodeSegmentId_inj {node node' : TimelineSegmentNode ν δ} {index' position' : ℕ}
    (h : nodeSegmentId node index position = nodeSegmentId node' index' position') : position = position' :=
  (numbered_inj (u := 0x2D) (v := 0x2D) rfl rfl h).right.right

theorem nodeSegmentId_ne_generated {node node' : TimelineSegmentNode ν δ} {index' position' : ℕ} :
    nodeSegmentId node index position ≠ baseGroupId [] node' index' position' := by
  intro h
  have hhead := congrArg List.head? h
  cases hhead

theorem occurrenceId_pos (hk : 0 < k) : occurrenceId b k = b ++ text ":occurrence" ++ [0x3A] ++ decimal k := by
  have htext : text ":occurrence:" = text ":occurrence" ++ [0x3A] := rfl
  rw [occurrenceId, if_pos hk, htext, ← List.append_assoc b]

theorem occurrenceId_inj (hn : 0 < n) (hm : 0 < m) (h : occurrenceId b n = occurrenceId t m) : b = t ∧ n = m := by
  rw [occurrenceId_pos hn, occurrenceId_pos hm] at h
  obtain ⟨hfront, -, hnumber⟩ := numbered_inj rfl rfl h
  exact ⟨List.append_cancel_right hfront, hnumber⟩

-- A number behind a dash is no occurrence.
theorem occurrenceId_ne (hk : 0 < k) : occurrenceId b k ≠ x ++ text "-" ++ decimal n := by
  intro h
  rw [occurrenceId_pos hk] at h
  obtain ⟨-, hseparator, -⟩ := numbered_inj (v := 0x2D) rfl rfl h
  cases hseparator

theorem mem_nodeIds (h : x ∈ nodeIds position index bs) :
    ∃ node index' position', position ≤ position' ∧ x = nodeSegmentId (ν := ν) (δ := δ) node index' position' := by
  induction bs generalizing position index
  case nil => cases h
  case cons block bs hi =>
    cases block
    case nil => exact hi h
    case cons first more =>
      rw [nodeIds, List.mem_append] at h
      cases h
      case inr h =>
        obtain ⟨node, index', position', hle, hx⟩ := hi h
        exact ⟨node, index', position', Nat.le_of_succ_le hle, hx⟩
      case inl h =>
        split at h
        case isTrue  => cases h
        case isFalse => exact ⟨first, index, position, Nat.le_refl _, List.mem_singleton.mp h⟩

theorem nodup_nodeIds : (nodeIds position index bs).Nodup := by
  induction bs generalizing position index
  case nil => exact List.nodup_nil
  case cons block bs hi =>
    cases block
    case nil => exact hi
    case cons first more =>
      rw [nodeIds]
      split
      case isTrue  => exact hi
      case isFalse =>
        apply List.nodup_cons.mpr ⟨?_, hi⟩
        intro hmem
        obtain ⟨node, index', position', hle, hx⟩ := mem_nodeIds hmem
        have := nodeSegmentId_inj hx
        omega

theorem mem_groupBases (h : b ∈ groupBases position index bs) :
    b ∈ tags bs ∨ ∃ node index' position', b = baseGroupId (ν := ν) (δ := δ) [] node index' position' := by
  induction bs generalizing position index
  case nil => cases h
  case cons block bs hi =>
    cases block
    case nil => exact hi h
    case cons first more =>
      rw [groupBases, List.mem_append] at h
      cases h
      case inr h =>
        apply (hi h).imp_left
        intro htag
        obtain ⟨head, hhead, hname⟩ := List.mem_filterMap.mp htag
        exact List.mem_filterMap.mpr ⟨head, List.mem_cons_of_mem first hhead, hname⟩
      case inl h =>
        split at h
        case isFalse => cases h
        case isTrue htrace =>
          rw [List.mem_singleton.mp h]
          cases hgroup : first.groupId
          case nil => exact .inr ⟨first, index, position, rfl⟩
          case cons u rest =>
            apply Or.inl
            apply List.mem_filterMap.mpr
            exact ⟨first, List.mem_cons_self, by simp [htrace, hgroup, baseGroupId]⟩

theorem mem_groupBases_of_tag (h : t ∈ tags bs) : t ∈ groupBases position index bs := by
  induction bs generalizing position index
  case nil => cases h
  case cons block bs hi =>
    cases block
    case nil => exact hi h
    case cons first more =>
      obtain ⟨head, hhead, hname⟩ := List.mem_filterMap.mp h
      rw [groupBases, List.mem_append]
      cases hhead
      case head =>
        split at hname
        case isFalse => cases hname
        case isTrue hnamed =>
          rw [Bool.and_eq_true, decide_eq_true_iff] at hnamed
          cases hname
          exact .inl (by simp [hnamed, baseGroupId])
      case tail hhead => exact .inr (hi (List.mem_filterMap.mpr ⟨head, hhead, hname⟩))

theorem Clear.base_ne (hclear : Clear bs) (hb : b ∈ groupBases 0 0 bs) (ht : t ∈ groupBases 0 0 bs) (hk : 0 < k)
    (hcount : k < (groupBases 0 0 bs).count t) : b ≠ occurrenceId t k := by
  cases mem_groupBases hb
  case inl htag => exact (hclear b htag).right t ht k hk hcount
  case inr hgenerated =>
    obtain ⟨node, index, position, hb⟩ := hgenerated
    exact fun h => occurrenceId_ne hk (h.symm.trans hb)

-- The ids differ from each other unless a node gives a group the name of another segment.
theorem nodup_ids_iff : ((render active 0 0 [] bs).map (·.id)).Nodup ↔ Clear bs := by
  have hmem {b k} : (b, k) ∈ occurrences [] (groupBases 0 0 bs) ↔ k < (groupBases 0 0 bs).count b := mem_occurrences_nil
  rw [render_ids.nodup_iff, List.nodup_append, List.nodup_map_iff_inj_on nodup_occurrences]
  constructor
  case mp =>
    rintro ⟨-, hgroups, hapart⟩ tag htag
    have hzero : (tag, 0) ∈ occurrences [] (groupBases 0 0 bs) :=
      hmem.mpr (List.count_pos_iff.mpr (mem_groupBases_of_tag htag))
    constructor
    · intro hnode
      exact hapart tag hnode tag (List.mem_map.mpr ⟨(tag, 0), hzero, rfl⟩) rfl
    · intro base _ occurrence hpos hcount hsame
      cases hgroups (tag, 0) hzero (base, occurrence) (hmem.mpr hcount) hsame
      exact absurd hpos (Nat.lt_irrefl 0)
  case mpr =>
    intro hclear
    have hbase {b k} (h : k < (groupBases 0 0 bs).count b) : b ∈ groupBases 0 0 bs :=
      List.count_pos_iff.mp (Nat.zero_lt_of_lt h)
    refine ⟨nodup_nodeIds, ?groups, ?apart⟩
    case groups =>
      rintro ⟨b, k⟩ hbk ⟨t, l⟩ htl hsame
      rw [hmem] at hbk htl
      cases k
      case zero =>
        cases l
        case zero   => exact congrArg (Prod.mk · 0) hsame
        case succ l => exact absurd hsame (hclear.base_ne (hbase hbk) (hbase htl) (Nat.succ_pos l) htl)
      case succ k =>
        cases l
        case zero   => exact absurd hsame.symm (hclear.base_ne (hbase htl) (hbase hbk) (Nat.succ_pos k) hbk)
        case succ l =>
          obtain ⟨hname, hnumber⟩ := occurrenceId_inj (Nat.succ_pos k) (Nat.succ_pos l) hsame
          exact Prod.ext hname hnumber
    case apart =>
      intro x hx y hy hsame
      obtain ⟨⟨b, k⟩, hbk, rfl⟩ := List.mem_map.mp hy
      rw [hmem] at hbk
      obtain ⟨node, index, position, -, hnode⟩ := mem_nodeIds hx
      cases k
      case succ k => exact occurrenceId_ne (Nat.succ_pos k) (hsame.symm.trans hnode)
      case zero =>
        cases mem_groupBases (hbase hbk)
        case inl htag =>
          rw [hsame] at hx
          exact (hclear b htag).left hx
        case inr hgenerated =>
          obtain ⟨node', index', position', hb⟩ := hgenerated
          exact nodeSegmentId_ne_generated (hnode.symm.trans (hsame.trans hb))

end MessageSegments
