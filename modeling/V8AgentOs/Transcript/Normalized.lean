import V8AgentOs.Lib.Transition
import V8AgentOs.Python.Equality
import V8AgentOs.Transcript.Fingerprints
import V8AgentOs.Transcript.Mutations

-- What normalizing keeps of the nodes, in one pass and when text is appended between the passes
namespace Transcript

open Python

-- The text has an opening tag of a section.
def HasTag (text : Unicode) (content : String) : Prop :=
  mentionsThink text content ∧ ∃ tag, Tag text.word tag ∧ tag <:+: content.toList

-- Taking the sections out of the text makes a new tag.
def Joined (text : Unicode) (value : Json) : Prop :=
  mentionsThink text (text.orEmpty value) ∧ Joins text.word (text.orEmpty value).toList

-- A narrative with its visible text, and any other node as it is
def shown (text : Unicode) (node : CanonicalNode) : CanonicalNode :=
  if isNarrative text node then node.set "content" (.str (splitInlineReasoning text (node.get "content")).1) else node

-- The reasoning that is recorded in the nodes, up to white space
def recorded (text : Unicode) (nodes : List CanonicalNode) : List String :=
  ((nodes.filter (isReasoning text)).map fun node => reasoningFingerprint text (node.get "content")).filter (· ≠ "")

-- Text is appended to the narrative at an index.
structure Appending where
  index  : ℕ
  suffix : String

def Appending.apply (text : Unicode) (e : Appending) (nodes : List CanonicalNode) : List CanonicalNode :=
  nodes.modify e.index fun node =>
    if isNarrative text node then node.set "content" (.str (text.orEmpty (node.get "content") ++ e.suffix)) else node

-- Text is appended again and again, and the nodes are normalized each time.
def appending (text : Unicode) (role : String) : Transition (List CanonicalNode) Appending where
  init nodes         := ∃ source, nodes = normalizeCanonicalNodes text source role
  step nodes e nodes' := nodes' = normalizeCanonicalNodes text (e.apply text nodes) role

-- The node has not got the id that is generated for a narrative with inline reasoning.
def Unclaimed (text : Unicode) (node : CanonicalNode) (nodes : List CanonicalNode) (e : Appending) : Prop :=
  text.stripped (node.get "id") ∉ inlineReasoningIds text (e.apply text nodes)

section Nodes

variable {text : Unicode} {node kept : CanonicalNode} {nodes : List CanonicalNode} {value : Json}
variable {inlineIds explicit emitted : List String} {role : String}

theorem no_tag_visible (hj : ¬Joined text value) : ¬HasTag text (splitInlineReasoning text value).1 := by
  unfold splitInlineReasoning
  dsimp only
  rintro ⟨hmention, tag, ht, hinside⟩
  split_ifs at hmention hinside with hthink
  case neg => exact hthink hmention
  case pos =>
    apply hj
    refine ⟨hthink, joins_iff.mpr ⟨tag, ht, ?_⟩⟩
    rw [String.length_toList]
    simpa using hinside.trans (strip_inside _)

theorem split_visible (hj : ¬Joined text value) :
    splitInlineReasoning text (.str (splitInlineReasoning text value).1) =
      ((splitInlineReasoning text value).1, "") := by
  have hno := no_tag_visible hj
  by_cases hmention : mentionsThink text (splitInlineReasoning text value).1
  case neg => exact splitInlineReasoning_of_clean hmention
  case pos =>
    have hnone : ∀ tag, Tag text.word tag → ¬tag <:+: (splitInlineReasoning text value).1.toList :=
      fun tag ht hinside => hno ⟨hmention, tag, ht, hinside⟩
    -- The text mentions a tag, so it is what has been stripped.
    have hstrip : strip (splitInlineReasoning text value).1 = (splitInlineReasoning text value).1 := by
      unfold splitInlineReasoning at hmention ⊢
      dsimp only at hmention ⊢
      split_ifs at hmention ⊢ with hthink
      case pos => exact strip_strip _
      case neg => exact absurd hmention hthink
    generalize (splitInlineReasoning text value).1 = visible at *
    rw [splitInlineReasoning, orEmpty_str, if_pos hmention, thinks_of_no_tag hnone]
    simp [hstrip]

theorem settled_of_not_joined (hj : ∀ node ∈ nodes, isNarrative text node → ¬Joined text (node.get "content")) :
    Settled text nodes :=
  fun node hnode hn => split_visible (hj node hnode hn)

-- Nodes other than reasoning are kept in order.
theorem rest_normalizeFrom :
    ((normalizeFrom text inlineIds explicit emitted nodes).filter fun node => !isReasoning text node) =
      (nodes.filter fun node => !isReasoning text node).map (shown text) := by
  induction nodes generalizing emitted
  case nil => rfl
  case cons node nodes hi =>
    unfold normalizeFrom
    dsimp only
    by_cases hr : isReasoning text node
    case pos =>
      rw [if_pos hr]
      split_ifs <;> simp [hr, hi]
    case neg =>
      rw [if_neg hr]
      by_cases hn : isNarrative text node
      case neg =>
        rw [if_pos (by simp [hn])]
        simp [hr, hi, shown, hn]
      case pos =>
        rw [if_neg (by simp [hn])]
        split_ifs <;> simp [hr, hi, shown, hn, isReasoning_inlineReasoningNode]

theorem mem_recorded {f : String} : f ∈ recorded text nodes ↔ f ≠ "" ∧ Shown text nodes f := by
  unfold recorded Shown
  rw [List.mem_filter, List.mem_map]
  simp only [List.mem_filter, decide_eq_true_eq]
  grind

theorem recorded_cons : recorded text (node :: nodes) =
    (if isReasoning text node ∧ reasoningFingerprint text (node.get "content") ≠ ""
      then [reasoningFingerprint text (node.get "content")] else []) ++ recorded text nodes := by
  unfold recorded
  by_cases hr : isReasoning text node
  case neg => simp [hr]
  case pos =>
    by_cases hf : reasoningFingerprint text (node.get "content") = "" <;> simp [hr, hf]

-- Reasoning is recorded once, and not if it has been emitted before.
theorem nodup_normalizeFrom : (recorded text (normalizeFrom text inlineIds explicit emitted nodes)).Nodup ∧
    ∀ f ∈ recorded text (normalizeFrom text inlineIds explicit emitted nodes), f ∉ emitted := by
  induction nodes generalizing emitted
  case nil => simp [normalizeFrom, recorded]
  case cons node nodes hi =>
    unfold normalizeFrom
    dsimp only
    by_cases hr : isReasoning text node
    case pos =>
      rw [if_pos hr]
      by_cases hid : text.stripped (node.get "id") ∈ inlineIds
      case pos =>
        rw [if_pos hid]
        exact hi
      case neg =>
        rw [if_neg hid]
        by_cases hf : reasoningFingerprint text (node.get "content") = ""
        case pos => simpa [hf, recorded_cons] using hi
        case neg =>
          by_cases he : reasoningFingerprint text (node.get "content") ∈ emitted
          case pos =>
            rw [if_pos ⟨hf, he⟩]
            exact hi
          case neg =>
            have hi := @hi (reasoningFingerprint text (node.get "content") :: emitted)
            rw [if_neg (fun h => he h.2), if_pos hf, recorded_cons, if_pos ⟨hr, hf⟩]
            grind
    case neg =>
      rw [if_neg hr]
      by_cases hn : isNarrative text node
      case neg =>
        rw [if_pos (by simp [hn]), recorded_cons, if_neg (fun h => hr h.1)]
        exact hi
      case pos =>
        rw [if_neg (by simp [hn])]
        have hset (value : Json) : ¬isReasoning text (node.set "content" value) := by simpa using hr
        split_ifs with hf
        case neg =>
          rw [recorded_cons, if_neg (fun h => hset _ h.1)]
          exact hi
        case pos =>
          have hi :=
            @hi (reasoningFingerprint text (.str (splitInlineReasoning text (node.get "content")).2) :: emitted)
          rw [recorded_cons, content_inlineReasoningNode, if_pos ⟨isReasoning_inlineReasoningNode, hf.1⟩, recorded_cons,
            if_neg (fun h => hset _ h.1)]
          grind

-- Reasoning that no narrative generates again stays, as nothing else is recorded like it.
theorem mem_of_unclaimed (hd : (recorded text nodes).Nodup) (hmem : kept ∈ nodes) (hr : isReasoning text kept)
    (hid : text.stripped (kept.get "id") ∉ inlineIds)
    (hexplicit : reasoningFingerprint text (kept.get "content") ≠ "" →
      reasoningFingerprint text (kept.get "content") ∈ explicit)
    (he : reasoningFingerprint text (kept.get "content") ≠ "" →
      reasoningFingerprint text (kept.get "content") ∉ emitted) :
    kept ∈ normalizeFrom text inlineIds explicit emitted nodes := by
  induction nodes generalizing emitted
  case nil => cases hmem
  case cons node nodes hi =>
    unfold normalizeFrom
    dsimp only
    cases List.mem_cons.mp hmem
    case inl heq =>
      subst heq
      rw [if_pos hr, if_neg hid, if_neg (fun h => he h.1 h.2)]
      exact List.mem_cons_self
    case inr htail =>
      rw [recorded_cons] at hd
      have hi (emitted : List String) (he : reasoningFingerprint text (kept.get "content") ≠ "" →
          reasoningFingerprint text (kept.get "content") ∉ emitted) := @hi emitted hd.of_append_right htail he
      by_cases hnode : isReasoning text node
      case pos =>
        rw [if_pos hnode]
        split_ifs with hclaimed hf hne
        case pos => exact hi emitted he
        case pos => exact hi emitted he
        case neg => exact List.mem_cons_of_mem _ (hi emitted he)
        case pos =>
          apply List.mem_cons_of_mem
          apply hi
          intro hkept
          have hrecorded := mem_recorded.mpr ⟨hkept, kept, htail, hr, rfl⟩
          rw [if_pos ⟨hnode, hne⟩, List.singleton_append, List.nodup_cons] at hd
          rw [List.mem_cons, not_or]
          refine ⟨?_, he hkept⟩
          intro heq
          exact hd.1 (heq ▸ hrecorded)
      case neg =>
        rw [if_neg hnode]
        split_ifs with hn hf
        case pos => exact List.mem_cons_of_mem _ (hi emitted he)
        case neg => exact List.mem_cons_of_mem _ (hi emitted he)
        case pos =>
          apply List.mem_cons_of_mem
          apply List.mem_cons_of_mem
          apply hi
          intro hkept
          rw [List.mem_cons, not_or]
          refine ⟨?_, he hkept⟩
          intro heq
          exact hf.2.1 (heq ▸ hexplicit hkept)

theorem reasoning_apply (text : Unicode) (e : Appending) (nodes : List CanonicalNode) :
    (e.apply text nodes).filter (isReasoning text) = nodes.filter (isReasoning text) := by
  obtain ⟨index, suffix⟩ := e
  unfold Appending.apply
  induction nodes generalizing index
  case nil => simp
  case cons node nodes hi =>
    cases index
    case succ index => simp [List.modify_succ_cons, List.filter_cons, hi]
    case zero =>
      by_cases hn : isNarrative text node
      case pos => simp [List.modify_zero_cons, hn, isReasoning_of_isNarrative hn]
      case neg => simp [List.modify_zero_cons, List.filter_cons, hn]

-- What a pass makes of the nodes
structure Normalized (text : Unicode) (role : String) (nodes nodes' : List CanonicalNode) : Prop where
  rest      : (nodes'.filter fun node => !isReasoning text node) =
    (nodes.filter fun node => !isReasoning text node).map (shown text)
  reasoning : ∀ node ∈ nodes, isReasoning text node →
    text.stripped (node.get "id") ∉ inlineReasoningIds text nodes →
    reasoningFingerprint text (node.get "content") ≠ "" →
    Shown text nodes' (reasoningFingerprint text (node.get "content"))
  inline    : ∀ node ∈ nodes, isNarrative text node → ∀ group ∈ sections text (node.get "content"),
    reasoningFingerprint text (.str group) ≠ "" → ∃ kept ∈ nodes', isReasoning text kept ∧
      (reasoningFingerprint text (.str group)).toList <:+: (reasoningFingerprint text (kept.get "content")).toList
  tags      : (∀ node ∈ nodes, isNarrative text node → ¬Joined text (node.get "content")) →
    ∀ narrative ∈ nodes', isNarrative text narrative → ¬HasTag text (text.orEmpty (narrative.get "content"))
  again     : (∀ node ∈ nodes, isNarrative text node → ¬Joined text (node.get "content")) →
    normalizeCanonicalNodes text nodes' role = nodes'

theorem normalized (ha : isAssistant text role) (nodes : List CanonicalNode) :
    Normalized text role nodes (normalizeCanonicalNodes text nodes role) where
  rest := by
    rw [normalizeCanonicalNodes, if_pos ha]
    exact rest_normalizeFrom
  reasoning node hnode hr hid hf := by
    rw [normalizeCanonicalNodes, if_pos ha]
    exact shown_of_own hnode hr hid hf
  inline node hnode hn group hgroup hne := by
    rw [normalizeCanonicalNodes, if_pos ha]
    have hinside := section_infix hgroup hne
    have hf : reasoningFingerprint text (.str (splitInlineReasoning text (node.get "content")).2) ≠ "" := by
      intro hempty
      rw [hempty, String.toList_empty, List.infix_nil, String.toList_eq_nil_iff] at hinside
      exact hne hinside
    obtain ⟨kept, hk, hkr, heq⟩ := shown_of_inline (fun _ => mem_explicitReasoning) hnode hn hf
    refine ⟨kept, hk, hkr, ?_⟩
    rwa [heq]
  tags hj narrative hmem hn := by
    rw [normalizeCanonicalNodes, if_pos ha] at hmem
    obtain ⟨node, hnode, hnarrative, heq⟩ := (mem_normalizeFrom hn).mp hmem
    rw [heq, Dict.get_set_self, orEmpty_str]
    exact no_tag_visible (hj node hnode hnarrative)
  again hj := by
    rw [normalizeCanonicalNodes_normalizeCanonicalNodes (settled_of_not_joined hj)]

theorem mem_explicitReasoning_of (hmem : kept ∈ nodes) (hr : isReasoning text kept)
    (hid : text.stripped (kept.get "id") ∉ inlineReasoningIds text nodes)
    (hf : reasoningFingerprint text (kept.get "content") ≠ "") :
    reasoningFingerprint text (kept.get "content") ∈ explicitReasoning text nodes := by
  unfold explicitReasoning
  rw [List.mem_filter, List.mem_map]
  exact ⟨⟨kept, by simp [hmem, hr, hid], rfl⟩, by simpa using hf⟩

-- One step: reasoning is recorded once in a list that has been normalized, so nothing else takes its place.
theorem mem_appended (ha : isAssistant text role) {e : Appending} (hd : (recorded text nodes).Nodup)
    (hmem : kept ∈ nodes) (hr : isReasoning text kept) (hclaim : Unclaimed text kept nodes e) :
    kept ∈ normalizeCanonicalNodes text (e.apply text nodes) role := by
  have hfilter := reasoning_apply text e nodes
  have hd : (recorded text (e.apply text nodes)).Nodup := by
    unfold recorded
    rwa [hfilter]
  have hmem : kept ∈ e.apply text nodes := by
    have hkept := List.mem_filter.mpr ⟨hmem, hr⟩
    rw [← hfilter] at hkept
    exact (List.mem_filter.mp hkept).1
  rw [normalizeCanonicalNodes, if_pos ha]
  exact mem_of_unclaimed hd hmem hr hclaim (mem_explicitReasoning_of hmem hr hclaim) (fun _ => List.not_mem_nil)

theorem nodup_normalized (ha : isAssistant text role) :
    (recorded text (normalizeCanonicalNodes text nodes role)).Nodup := by
  rw [normalizeCanonicalNodes, if_pos ha]
  exact nodup_normalizeFrom.1

end Nodes

-- Normalizing keeps the narratives with their visible texts, all other nodes but reasoning, and all reasoning except
-- that in the generated node of a narrative that has inline reasoning again. In a run of such passes, with text
-- appended in between, a node of reasoning stays until a narrative claims its id like this.
theorem normalized_nodes (text : Unicode) (role : String) (ha : isAssistant text role) :
    (∀ nodes, Normalized text role nodes (normalizeCanonicalNodes text nodes role)) ∧
    ∀ kept nodes es nodes', (appending text role).init nodes → kept ∈ nodes → isReasoning text kept →
      ((appending text role).restrict (Unclaimed text kept)).Run nodes es nodes' → kept ∈ nodes' := by
  constructor
  case left => exact normalized ha
  case right =>
    rintro kept nodes es nodes' ⟨source, rfl⟩ hmem hr run
    have hboth := run.preserves (I := fun s => (recorded text s).Nodup ∧ kept ∈ s) ?step ⟨nodup_normalized ha, hmem⟩
    case step =>
      rintro s e t ⟨hd, hkept⟩ ⟨hclaim, rfl⟩
      exact ⟨nodup_normalized ha, mem_appended ha hd hkept hr hclaim⟩
    exact hboth.2

-- A narrative with a section, and one without
theorem normalized_nodes_sample : isAssistant asciiUnicode "assistant" ∧
    normalizeCanonicalNodes asciiUnicode
      (normalizeCanonicalNodes asciiUnicode [narrative "<think>a</think>x", reasoning "b"] "assistant") "assistant" =
      normalizeCanonicalNodes asciiUnicode [narrative "<think>a</think>x", reasoning "b"] "assistant" := by
  have ha : isAssistant asciiUnicode "assistant" := by decide
  refine ⟨ha, ((normalized_nodes asciiUnicode "assistant" ha).1 _).again ?_⟩
  intro node hnode _ hjoined
  have hplain : [narrative "<think>a</think>x", reasoning "b"].all fun node =>
      (thinks asciiUnicode.word (asciiUnicode.orEmpty (node.get "content")).toList.length
        (asciiUnicode.orEmpty (node.get "content")).toList).2.all fun c => fold c != '<' := by
    decide +kernel
  obtain ⟨_, ⟨name, attributes, rfl, hname, _⟩, hinside⟩ := joins_iff.mp hjoined.2
  cases name
  case nil => cases hname
  case cons c name =>
    have hc := List.cons.inj hname
    have hno := List.all_eq_true.mp (List.all_eq_true.mp hplain node hnode) c (hinside.subset (by simp))
    rw [hc.1] at hno
    cases hno

-- Two parts of a tag come together in the first list. In the second one, the reasoning of the first pass stands in
-- the node that the second pass generates again.
theorem normalized_nodes_fails :
    (∃ node ∈ normalizeCanonicalNodes asciiUnicode [narrative "<thi<think>a</think>nk>b"] "assistant",
      isNarrative asciiUnicode node ∧ HasTag asciiUnicode (asciiUnicode.orEmpty (node.get "content"))) ∧
    normalizeCanonicalNodes asciiUnicode
      (normalizeCanonicalNodes asciiUnicode [narrative "<thi<think>a</think>nk>b"] "assistant") "assistant" ≠
      normalizeCanonicalNodes asciiUnicode [narrative "<thi<think>a</think>nk>b"] "assistant" ∧
    ∃ first second, first = normalizeCanonicalNodes asciiUnicode [narrative "<think>a</think>x"] "assistant" ∧
      (appending asciiUnicode "assistant").step first ⟨1, "<think>b</think>"⟩ second ∧
      recorded asciiUnicode first = ["a"] ∧ recorded asciiUnicode second = ["b"] := by
  refine ⟨?tag, ?again, _, _, rfl, rfl, ?first, ?second⟩
  case again => decide +kernel
  case first => decide +kernel
  case second => decide +kernel
  case tag =>
    have hnode : ∃ node ∈ normalizeCanonicalNodes asciiUnicode [narrative "<thi<think>a</think>nk>b"] "assistant",
        isNarrative asciiUnicode node ∧ asciiUnicode.orEmpty (node.get "content") = "<think>b" := by
      decide +kernel
    have ⟨node, hmem, hn, heq⟩ := hnode
    refine ⟨node, hmem, hn, ?_⟩
    rw [heq]
    have htag : Tag asciiUnicode.word "<think>".toList :=
      ⟨"<think".toList, [], by decide, by decide, List.not_mem_nil, by decide⟩
    exact ⟨by decide +kernel, _, htag, ⟨[], ['b'], by decide⟩⟩

end Transcript
