import V8AgentOs.Transcript.Builder

-- The texts of a canonical row against its nodes
namespace Transcript

open Python

section Nodes

variable {text : Unicode} {node : CanonicalNode} {nodes : List CanonicalNode} {value : Json}

@[simp] theorem orEmpty_str (s : String) : text.orEmpty (.str s) = s := by
  by_cases hs : s = ""
  case pos => simp [Text.orEmpty, Json.truthy, hs]
  case neg => simp [Text.orEmpty, Json.truthy, hs, Text.str]

theorem set_eq (node : CanonicalNode) (key : String) (value : Json) : Dict.set node key value =
    node.map (fun m => (m.1, if m.1 = key then value else m.2)) ++
      if Dict.has node key then [] else [(key, value)] := by
  unfold Dict.set Dict.merge
  congr 1
  case e_a =>
    apply List.map_congr_left
    intro m _
    by_cases hm : m.1 = key
    case pos => simp [hm]
    case neg => simp [Dict.lookup_cons, hm]
  case e_a => cases h : Dict.has node key <;> simp [h]

theorem has_set {key : String} : Dict.has (Dict.set node key value) key := by
  simp [Dict.has, Dict.lookup_set_self]

theorem set_set (node : CanonicalNode) (key : String) (value value' : Json) :
    (Dict.set node key value).set key value' = Dict.set node key value' := by
  rw [set_eq (Dict.set node key value), if_pos has_set, List.append_nil, set_eq, set_eq, List.map_append, List.map_map]
  congr 1
  case e_a =>
    apply List.map_congr_left
    intro m _
    by_cases hm : m.1 = key <;> simp [hm]
  case e_a => split_ifs <;> simp

theorem get_set_of_ne {key key' : String} (h : key ≠ key') :
    (Dict.set node key' value).get key = Dict.get node key := by
  unfold Dict.get
  rw [Dict.lookup_set_of_ne h]

@[simp] theorem isNarrative_set : isNarrative text (node.set "content" value) = isNarrative text node := by
  unfold isNarrative kind
  rw [get_set_of_ne (by decide)]

@[simp] theorem isReasoning_set : isReasoning text (node.set "content" value) = isReasoning text node := by
  unfold isReasoning kind
  rw [get_set_of_ne (by decide), get_set_of_ne (by decide)]

theorem isReasoning_of_isNarrative (h : isNarrative text node) : isReasoning text node = false := by
  unfold isNarrative at h
  unfold isReasoning
  simp only [decide_eq_true_eq] at h
  simp [h]

-- The fields that are copied are none of the fields that are set.
theorem lookup_inlineReasoningNode {key : String}
    (h : key ∉ ["timestamp", "agentName", "agentAvatar", "agentRoleLabel", "finalized", "partial"]) :
    (inlineReasoningNode text node).lookup key =
      [("id", .str (inlineReasoningNodeId text (node.get "id"))),
        ("kind", .str "execution"),
        ("executionType", .str "reasoning"),
        ("content", .str (splitInlineReasoning text (node.get "content")).2),
        ("reasoningKind", .str "legacy_inline_think"),
        ("reasoningUnverified", .bool true)].lookup key := by
  unfold inlineReasoningNode
  dsimp only
  rw [Dict.lookup_append, Option.or_eq_right_of_none]
  apply List.lookup_eq_none_iff.mpr
  intro m hm
  have ⟨name, hname, hcopy⟩ := List.mem_filterMap.mp hm
  have hkey : m.1 = name := by
    cases hl : node.lookup name
    case none => simp [hl] at hcopy
    case some value =>
      simp only [hl, Option.bind_some] at hcopy
      split at hcopy
      case h_1 => cases hcopy
      case h_2 =>
        cases hcopy
        rfl
  have hne : key ≠ m.1 := by
    rintro rfl
    exact h (hkey ▸ hname)
  simpa using hne

theorem isReasoning_inlineReasoningNode : isReasoning text (inlineReasoningNode text node) := by
  have hkind : (inlineReasoningNode text node).get "kind" = .str "execution" := by
    unfold Dict.get
    rw [lookup_inlineReasoningNode (by decide)]
    rfl
  have htype : (inlineReasoningNode text node).get "executionType" = .str "reasoning" := by
    unfold Dict.get
    rw [lookup_inlineReasoningNode (by decide)]
    rfl
  have hstrip : strip "execution" = "execution" ∧ strip "reasoning" = "reasoning" := by decide
  simp [isReasoning, kind, hkind, htype, Text.stripped, hstrip]

theorem content_inlineReasoningNode (text : Unicode) (node : CanonicalNode) :
    (inlineReasoningNode text node).get "content" = .str (splitInlineReasoning text (node.get "content")).2 := by
  unfold Dict.get
  rw [lookup_inlineReasoningNode (by decide)]
  rfl

-- What is left of a narrative without its thoughts mentions none.
def Clean (text : Unicode) (nodes : List CanonicalNode) : Prop :=
  ∀ node ∈ nodes, isNarrative text node → ¬mentionsThink text (splitInlineReasoning text (node.get "content")).1

theorem splitInlineReasoning_of_clean {raw : String} (h : ¬mentionsThink text raw) :
    splitInlineReasoning text (.str raw) = (raw, "") := by
  unfold splitInlineReasoning
  simp [h]

-- What is left of a narrative stays when its thoughts are taken out once more.
def Settled (text : Unicode) (nodes : List CanonicalNode) : Prop :=
  ∀ node ∈ nodes, isNarrative text node →
    splitInlineReasoning text (.str (splitInlineReasoning text (node.get "content")).1) =
      ((splitInlineReasoning text (node.get "content")).1, "")

theorem Clean.settled (hc : Clean text nodes) : Settled text nodes :=
  fun node hnode hn => splitInlineReasoning_of_clean (hc node hnode hn)

theorem reasoningFingerprint_empty : reasoningFingerprint text (.str "") = "" := by
  unfold reasoningFingerprint
  rw [orEmpty_str]
  decide

section Steps

variable {inlineIds explicit emitted : List String}

theorem normalizeFrom_reasoning (hr : isReasoning text node) (hid : text.stripped (node.get "id") ∉ inlineIds)
    (hf : ¬(reasoningFingerprint text (node.get "content") ≠ "" ∧
      reasoningFingerprint text (node.get "content") ∈ emitted)) :
    normalizeFrom text inlineIds explicit emitted (node :: nodes) =
      node :: normalizeFrom text inlineIds explicit
        (if reasoningFingerprint text (node.get "content") ≠ ""
          then reasoningFingerprint text (node.get "content") :: emitted else emitted) nodes := by
  conv_lhs => unfold normalizeFrom
  dsimp only
  rw [if_pos hr, if_neg hid, if_neg hf]

theorem normalizeFrom_other (hr : ¬isReasoning text node) (hn : ¬isNarrative text node) :
    normalizeFrom text inlineIds explicit emitted (node :: nodes) =
      node :: normalizeFrom text inlineIds explicit emitted nodes := by
  conv_lhs => unfold normalizeFrom
  dsimp only
  rw [if_neg hr, if_pos (by simp [hn])]

-- A narrative without thoughts
theorem normalizeFrom_narrative (hn : isNarrative text node)
    (hs : (splitInlineReasoning text (node.get "content")).2 = "") :
    normalizeFrom text inlineIds explicit emitted (node :: nodes) =
      node.set "content" (.str (splitInlineReasoning text (node.get "content")).1) ::
        normalizeFrom text inlineIds explicit emitted nodes := by
  conv_lhs => unfold normalizeFrom
  dsimp only
  rw [if_neg (by simp [isReasoning_of_isNarrative hn]), if_neg (by simp [hn]), if_neg]
  rw [hs, reasoningFingerprint_empty]
  simp

end Steps

-- Nodes that have been normalized stay as they are, if the narratives are settled: what the first pass has emitted is
-- enough for the second one to skip nothing.
theorem normalizeFrom_normalizeFrom {inlineIds explicit explicit' emitted emitted' : List String}
    (hc : Settled text nodes) (he : ∀ f ∈ emitted', f ∈ emitted) :
    normalizeFrom text [] explicit' emitted' (normalizeFrom text inlineIds explicit emitted nodes) =
      normalizeFrom text inlineIds explicit emitted nodes := by
  induction nodes generalizing emitted emitted'
  case nil => rfl
  case cons node nodes hi =>
    have hrest : Settled text nodes := fun n hn => hc n (List.mem_cons_of_mem _ hn)
    by_cases hr : isReasoning text node
    case pos =>
      by_cases hid : text.stripped (node.get "id") ∈ inlineIds
      case pos =>
        have hskip : normalizeFrom text inlineIds explicit emitted (node :: nodes) =
            normalizeFrom text inlineIds explicit emitted nodes := by
          conv_lhs => unfold normalizeFrom
          dsimp only
          rw [if_pos hr, if_pos hid]
        rw [hskip]
        exact hi hrest he
      case neg =>
        by_cases hf : reasoningFingerprint text (node.get "content") ≠ "" ∧
            reasoningFingerprint text (node.get "content") ∈ emitted
        case pos =>
          have hskip : normalizeFrom text inlineIds explicit emitted (node :: nodes) =
              normalizeFrom text inlineIds explicit emitted nodes := by
            conv_lhs => unfold normalizeFrom
            dsimp only
            rw [if_pos hr, if_neg hid, if_pos hf]
          rw [hskip]
          exact hi hrest he
        case neg =>
          rw [normalizeFrom_reasoning hr hid hf,
            normalizeFrom_reasoning hr List.not_mem_nil (fun h => hf ⟨h.1, he _ h.2⟩), hi hrest]
          split_ifs
          case pos => simpa using fun f hf => .inr (he f hf)
          case neg => exact he
    case neg =>
      cases hn : isNarrative text node
      case false =>
        have hn : ¬isNarrative text node := by simp [hn]
        rw [normalizeFrom_other hr hn, normalizeFrom_other hr hn, hi hrest he]
      case true =>
        have hsplit := hc node List.mem_cons_self hn
        -- The narrative of the first pass has no thoughts left.
        have hagain (emitted' : List String) (rest : List CanonicalNode) :
            let narrative := node.set "content" (.str (splitInlineReasoning text (node.get "content")).1)
            normalizeFrom text [] explicit' emitted' (narrative :: rest) =
              narrative :: normalizeFrom text [] explicit' emitted' rest := by
          dsimp only
          rw [normalizeFrom_narrative (by simpa using hn) (by rw [Dict.get_set_self, hsplit]), Dict.get_set_self,
            hsplit, set_set]
        conv_lhs => arg 5; unfold normalizeFrom
        conv_rhs => unfold normalizeFrom
        dsimp only
        rw [if_neg hr, if_neg (by simp [hn])]
        split_ifs with hf
        case neg => rw [hagain, hi hrest he]
        case pos =>
          have hinline := content_inlineReasoningNode text node
          have hgrow (fingerprint : String) : ∀ f ∈ fingerprint :: emitted', f ∈ fingerprint :: emitted := by
            simpa using fun f hf => .inr (he f hf)
          rw [normalizeFrom_reasoning isReasoning_inlineReasoningNode List.not_mem_nil, hinline, if_pos hf.1, hagain,
            hi hrest (hgrow _)]
          rw [hinline]
          exact fun h => hf.2.2 (he _ h.2)

-- The narratives that are left are those that were given, without their thoughts.
theorem mem_normalizeFrom {inlineIds explicit emitted : List String} {narrative : CanonicalNode}
    (hn : isNarrative text narrative) : narrative ∈ normalizeFrom text inlineIds explicit emitted nodes ↔
      ∃ node ∈ nodes, isNarrative text node ∧
        narrative = node.set "content" (.str (splitInlineReasoning text (node.get "content")).1) := by
  induction nodes generalizing emitted
  case nil => simp [normalizeFrom]
  case cons node nodes hi =>
    have hother (h : isReasoning text node ∨ ¬isNarrative text node) : ¬isNarrative text node ∧ narrative ≠ node := by
      constructor
      case left =>
        intro hnode
        exact h.elim (fun h => absurd (isReasoning_of_isNarrative hnode) (by simp [h])) (fun h => h hnode)
      case right =>
        rintro rfl
        exact h.elim (fun h => absurd (isReasoning_of_isNarrative hn) (by simp [h])) (fun h => h hn)
    unfold normalizeFrom
    dsimp only
    by_cases hr : isReasoning text node
    case pos =>
      rw [if_pos hr]
      split_ifs <;> simp [hi, hother (.inl hr)]
    case neg =>
      rw [if_neg hr]
      by_cases hnode : isNarrative text node
      case neg => simp [hi, hnode, hother (.inr hnode)]
      case pos =>
        have hne : narrative ≠ inlineReasoningNode text node := by
          rintro rfl
          exact absurd (isReasoning_of_isNarrative hn) (by simp [isReasoning_inlineReasoningNode])
        rw [if_neg (by simp [hnode])]
        split_ifs <;> simp [hi, hne, hnode]

theorem mem_inlineReasoningIds {id : String} (h : id ∈ inlineReasoningIds text nodes) :
    ∃ node ∈ nodes, isNarrative text node ∧ (splitInlineReasoning text (node.get "content")).2 ≠ "" := by
  have ⟨node, hnode, _⟩ := List.mem_map.mp h
  have ⟨hmem, hp⟩ := List.mem_filter.mp hnode
  simp only [Bool.and_eq_true, decide_eq_true_eq] at hp
  exact ⟨node, hmem, hp⟩

theorem normalizeCanonicalNodes_normalizeCanonicalNodes {role : String} (hc : Settled text nodes) :
    normalizeCanonicalNodes text (normalizeCanonicalNodes text nodes role) role =
      normalizeCanonicalNodes text nodes role := by
  by_cases ha : isAssistant text role
  case neg => simp [normalizeCanonicalNodes, ha]
  case pos =>
    unfold normalizeCanonicalNodes
    simp only [ha, if_true]
    have hnone : inlineReasoningIds text
        (normalizeFrom text (inlineReasoningIds text nodes) (explicitReasoning text nodes) [] nodes) = [] := by
      apply List.eq_nil_iff_forall_not_mem.mpr
      intro id hid
      have ⟨narrative, hmem, hn, hs⟩ := mem_inlineReasoningIds hid
      have ⟨node, hnode, hnarrative, heq⟩ := (mem_normalizeFrom hn).mp hmem
      rw [heq, Dict.get_set_self, hc node hnode hnarrative] at hs
      exact hs rfl
    rw [hnone]
    exact normalizeFrom_normalizeFrom hc fun _ h => h

theorem clean_iff {role : String} (ha : isAssistant text role) : Clean text nodes ↔
    ∀ narrative ∈ normalizeCanonicalNodes text nodes role, isNarrative text narrative →
      ¬mentionsThink text (text.orEmpty (narrative.get "content")) := by
  unfold normalizeCanonicalNodes
  simp only [ha, if_true]
  constructor
  case mp =>
    intro hc narrative hmem hn
    have ⟨node, hnode, hnarrative, heq⟩ := (mem_normalizeFrom hn).mp hmem
    rw [heq, Dict.get_set_self, orEmpty_str]
    exact hc node hnode hnarrative
  case mpr =>
    intro h node hnode hn
    have hset : isNarrative text
        (node.set "content" (.str (splitInlineReasoning text (node.get "content")).1)) := by simpa using hn
    have hclean := h _ ((mem_normalizeFrom hset).mpr ⟨node, hnode, hn, rfl⟩) hset
    rwa [Dict.get_set_self, orEmpty_str] at hclean

theorem strip_ne_empty_iff {s : String} : strip s ≠ "" ↔ ∃ c ∈ s.toList, ¬isSpace c := by
  have hempty : strip s = "" ↔ ∀ c ∈ s.toList, isSpace c := by
    unfold strip
    rw [← String.toList_inj, String.toList_ofList, String.toList_empty, List.rdropWhile_eq_nil_iff]
    constructor
    case mp =>
      intro h c hc
      rw [← List.takeWhile_append_dropWhile (p := isSpace) (l := s.toList)] at hc
      cases List.mem_append.mp hc
      case inl hc => exact List.mem_takeWhile_imp hc
      case inr hc => exact h c hc
    case mpr =>
      intro h c hc
      exact h c ((List.dropWhile_suffix _).subset hc)
  rw [ne_eq, hempty]
  push Not
  rfl

theorem mem_squeeze {c : Char} (hc : ¬isSpace c) {inside : Bool} {cs : List Char} :
    c ∈ squeeze inside cs ↔ c ∈ cs := by
  induction cs generalizing inside
  case nil => rfl
  case cons d cs hi =>
    have hne (hd : isSpace d) : c ≠ d := by
      rintro rfl
      exact hc hd
    have hblank : c ≠ ' ' := by
      rintro rfl
      exact hc (by decide)
    unfold squeeze
    split_ifs with hd
    case pos => simp [hi, hne hd]
    case neg => simp [hi, hne hd, hblank]
    case neg => simp [hi]

theorem reasoningFingerprint_ne_empty_iff : reasoningFingerprint text value ≠ "" ↔
    ∃ c ∈ (text.orEmpty value).toList, ¬isSpace c := by
  unfold reasoningFingerprint
  rw [strip_ne_empty_iff, String.toList_ofList]
  constructor
  case mp =>
    rintro ⟨c, hmem, hc⟩
    exact ⟨c, (mem_squeeze hc).mp hmem, hc⟩
  case mpr =>
    rintro ⟨c, hmem, hc⟩
    exact ⟨c, (mem_squeeze hc).mpr hmem, hc⟩

theorem fingerprint_of_inline (h : (splitInlineReasoning text value).2 ≠ "") :
    reasoningFingerprint text (.str (splitInlineReasoning text value).2) ≠ "" := by
  rw [reasoningFingerprint_ne_empty_iff, orEmpty_str]
  unfold splitInlineReasoning at h ⊢
  dsimp only at h ⊢
  split_ifs at h ⊢ with hthink
  case neg => exact absurd rfl h
  case pos =>
    generalize hparts : ((thinks text.word _ _).1.map fun group => strip (String.ofList group)).filter (· ≠ "") =
      parts at *
    cases he : parts.eraseDups
    case nil => simp [he] at h
    case cons part rest =>
      have hmem : part ∈ parts := by
        rw [← List.mem_eraseDups, he]
        exact List.mem_cons_self
      rw [← hparts] at hmem
      have ⟨hgroup, hne⟩ := List.mem_filter.mp hmem
      have ⟨group, _, hstrip⟩ := List.mem_map.mp hgroup
      have hne : strip part ≠ "" := by
        rw [← hstrip, strip_strip, hstrip]
        simpa using hne
      have ⟨c, hc, hspace⟩ := strip_ne_empty_iff.mp hne
      refine ⟨c, ?_, hspace⟩
      cases rest
      case nil => simpa using hc
      case cons => simp [String.intercalate_cons_cons, hc]

-- There is some reasoning in the nodes, in a node of its own or in a narrative.
def Reasons (text : Unicode) (nodes : List CanonicalNode) : Prop :=
  ∃ node ∈ nodes, isReasoning text node ∧ text.orEmpty (node.get "content") ≠ "" ∨
    isNarrative text node ∧ (splitInlineReasoning text (node.get "content")).2 ≠ ""

section Reasoning

variable {inlineIds explicit emitted emitted' : List String}

-- The fingerprint belongs to one of the nodes.
def Shown (text : Unicode) (nodes : List CanonicalNode) (fingerprint : String) : Prop :=
  ∃ kept ∈ nodes, isReasoning text kept ∧ reasoningFingerprint text (kept.get "content") = fingerprint

-- What one pass of the loop does about a node's reasoning: `before` is kept, and `emitted'` is what has been emitted.
structure Passes (text : Unicode) (inlineIds explicit emitted : List String) (node : CanonicalNode)
    (before : List CanonicalNode) (emitted' : List String) : Prop where
  emits  : ∀ f ∈ emitted', f ∈ emitted ∨ Shown text before f
  grows  : ∀ f ∈ emitted, f ∈ emitted'
  blank  : isReasoning text node → text.stripped (node.get "id") ∉ inlineIds →
    reasoningFingerprint text (node.get "content") = "" → node ∈ before
  own    : isReasoning text node → text.stripped (node.get "id") ∉ inlineIds →
    reasoningFingerprint text (node.get "content") ≠ "" → reasoningFingerprint text (node.get "content") ∈ emitted'
  inline : isNarrative text node →
    reasoningFingerprint text (.str (splitInlineReasoning text (node.get "content")).2) ≠ "" →
    reasoningFingerprint text (.str (splitInlineReasoning text (node.get "content")).2) ∈ explicit ∨
      reasoningFingerprint text (.str (splitInlineReasoning text (node.get "content")).2) ∈ emitted'
  kept   : ∀ kept ∈ before, isReasoning text kept → kept = node ∨ isNarrative text node ∧
    kept = inlineReasoningNode text node ∧
    reasoningFingerprint text (.str (splitInlineReasoning text (node.get "content")).2) ≠ ""

theorem normalizeFrom_cons (text : Unicode) (inlineIds explicit emitted : List String) (node : CanonicalNode)
    (nodes : List CanonicalNode) : ∃ before emitted', normalizeFrom text inlineIds explicit emitted (node :: nodes) =
      before ++ normalizeFrom text inlineIds explicit emitted' nodes ∧
      Passes text inlineIds explicit emitted node before emitted' := by
  rw [normalizeFrom]
  dsimp only
  by_cases hr : isReasoning text node
  case pos =>
    have hnode : ¬isNarrative text node := fun h => absurd (isReasoning_of_isNarrative h) (by simp [hr])
    rw [if_pos hr]
    by_cases hid : text.stripped (node.get "id") ∈ inlineIds
    case pos =>
      rw [if_pos hid]
      exact ⟨[], emitted, rfl, fun _ => .inl, fun _ h => h, fun _ h => absurd hid h, fun _ h => absurd hid h,
        fun h => absurd h hnode, by simp⟩
    case neg =>
      rw [if_neg hid]
      by_cases hf : reasoningFingerprint text (node.get "content") = ""
      case pos =>
        rw [if_neg (by simp [hf]), if_neg (by simp [hf])]
        exact ⟨[node], emitted, rfl, fun _ => .inl, fun _ h => h, by simp, fun _ _ h => absurd hf h,
          fun h => absurd h hnode, by simp⟩
      case neg =>
        by_cases he : reasoningFingerprint text (node.get "content") ∈ emitted
        case pos =>
          rw [if_pos ⟨hf, he⟩]
          exact ⟨[], emitted, rfl, fun _ => .inl, fun _ h => h, fun _ _ h => absurd h hf, fun _ _ _ => he,
            fun h => absurd h hnode, by simp⟩
        case neg =>
          rw [if_neg (fun h => he h.2), if_pos hf]
          refine ⟨[node], _, rfl, ?emits, fun _ => List.mem_cons_of_mem _, fun _ _ h => absurd h hf,
            fun _ _ _ => List.mem_cons_self, fun h => absurd h hnode, by simp⟩
          case emits =>
            intro f hmem
            cases List.mem_cons.mp hmem
            case inl heq => exact .inr ⟨node, List.mem_cons_self, hr, heq.symm⟩
            case inr hmem => exact .inl hmem
  case neg =>
    rw [if_neg hr]
    by_cases hn : isNarrative text node
    case neg =>
      rw [if_pos (by simp [hn])]
      exact ⟨[node], emitted, rfl, fun _ => .inl, fun _ h => h, fun h => absurd h hr, fun h => absurd h hr,
        fun h => absurd h hn, by simp [hr]⟩
    case pos =>
      rw [if_neg (by simp [hn])]
      have hnarrative : ¬isReasoning text
          (node.set "content" (.str (splitInlineReasoning text (node.get "content")).1)) := by simpa using hr
      split_ifs with hf
      case pos =>
        refine ⟨[_, _], _, rfl, ?_, fun _ => List.mem_cons_of_mem _, fun h => absurd h hr, fun h => absurd h hr,
          fun _ _ => .inr List.mem_cons_self, ?_⟩
        case refine_1 =>
          intro f hmem
          cases List.mem_cons.mp hmem
          case inr hmem => exact .inl hmem
          case inl heq =>
            refine .inr ⟨_, List.mem_cons_self, isReasoning_inlineReasoningNode, ?_⟩
            rw [content_inlineReasoningNode, heq]
        case refine_2 =>
          intro kept hmem hk
          rw [List.mem_pair] at hmem
          cases hmem
          case inl heq => exact .inr ⟨hn, heq, hf.1⟩
          case inr heq => exact absurd (heq ▸ hk) hnarrative
      case neg =>
        refine ⟨[_], emitted, rfl, fun _ => .inl, fun _ h => h, fun h => absurd h hr, fun h => absurd h hr, ?_, ?_⟩
        case refine_1 =>
          intro _ hg
          by_contra hno
          rw [not_or] at hno
          exact hf ⟨hg, hno⟩
        case refine_2 =>
          intro kept hmem hk
          rw [List.mem_singleton] at hmem
          exact absurd (hmem ▸ hk) hnarrative

theorem Shown.mono {nodes nodes' : List CanonicalNode} {fingerprint : String} (h : nodes ⊆ nodes')
    (hs : Shown text nodes fingerprint) : Shown text nodes' fingerprint := by
  have ⟨kept, hmem, hk⟩ := hs
  exact ⟨kept, h hmem, hk⟩

-- Each node has its pass, and what has been emitted after the pass belongs to a node that is kept.
theorem passes_of_mem (inlineIds explicit emitted : List String) (hn : node ∈ nodes) : ∃ emitted₁ before emitted₂,
    Passes text inlineIds explicit emitted₁ node before emitted₂ ∧
    before ⊆ normalizeFrom text inlineIds explicit emitted nodes ∧
    ∀ f ∈ emitted₂, f ∈ emitted ∨ Shown text (normalizeFrom text inlineIds explicit emitted nodes) f := by
  induction nodes generalizing emitted
  case nil => cases hn
  case cons head nodes hi =>
    obtain ⟨before, emitted', heq, hp⟩ := normalizeFrom_cons text inlineIds explicit emitted head nodes
    rw [heq]
    have hbefore : before ⊆ before ++ normalizeFrom text inlineIds explicit emitted' nodes :=
      List.subset_append_left _ _
    cases List.mem_cons.mp hn
    case inl hhead =>
      refine ⟨emitted, before, emitted', hhead ▸ hp, hbefore, ?_⟩
      intro f hf
      exact (hp.emits f hf).imp_right (·.mono hbefore)
    case inr htail =>
      obtain ⟨emitted₁, kept, emitted₂, hp', hkept, hemitted⟩ := hi emitted' htail
      refine ⟨emitted₁, kept, emitted₂, hp', fun _ h => List.mem_append_right _ (hkept h), ?_⟩
      intro f hf
      cases hemitted f hf
      case inr hs => exact .inr (hs.mono (List.subset_append_right _ _))
      case inl hf => exact (hp.emits f hf).imp_right (·.mono hbefore)

theorem passes_of_kept {kept : CanonicalNode} (hk : kept ∈ normalizeFrom text inlineIds explicit emitted nodes) :
    ∃ node ∈ nodes, ∃ emitted₁ before emitted₂, Passes text inlineIds explicit emitted₁ node before emitted₂ ∧
      kept ∈ before := by
  induction nodes generalizing emitted
  case nil => cases hk
  case cons head nodes hi =>
    obtain ⟨before, emitted', heq, hp⟩ := normalizeFrom_cons text inlineIds explicit emitted head nodes
    rw [heq] at hk
    cases List.mem_append.mp hk
    case inl hmem => exact ⟨head, List.mem_cons_self, _, _, _, hp, hmem⟩
    case inr hmem =>
      obtain ⟨node, hnode, hp⟩ := hi hmem
      exact ⟨node, List.mem_cons_of_mem _ hnode, hp⟩

theorem derived_ne_empty_iff {nodes : List CanonicalNode} : (deriveTextFields text nodes).2 ≠ "" ↔
    ∃ node ∈ nodes, isReasoning text node ∧ text.orEmpty (node.get "content") ≠ "" := by
  have hjoin (parts : List String) : String.join parts = "" ↔ ∀ part ∈ parts, part = "" := by
    induction parts
    case nil => simp
    case cons part parts hi => simp [String.join_cons, hi]
  unfold deriveTextFields
  simp only [ne_eq, hjoin, List.mem_map, List.mem_filter]
  constructor
  case mp =>
    intro h
    by_contra hno
    apply h
    rintro _ ⟨node, ⟨hmem, hr⟩, rfl⟩
    by_contra hne
    exact hno ⟨node, hmem, hr, hne⟩
  case mpr =>
    rintro ⟨node, hmem, hr, hne⟩ h
    exact hne (h _ ⟨node, ⟨hmem, hr⟩, rfl⟩)

theorem content_of_fingerprint (h : reasoningFingerprint text value ≠ "") : text.orEmpty value ≠ "" := by
  have ⟨_, hc, _⟩ := reasoningFingerprint_ne_empty_iff.mp h
  intro he
  simp [he] at hc

-- Reasoning of its own is kept, or has been emitted already.
theorem shown_of_own (hn : node ∈ nodes) (hr : isReasoning text node)
    (hid : text.stripped (node.get "id") ∉ inlineIds) (hf : reasoningFingerprint text (node.get "content") ≠ "") :
    Shown text (normalizeFrom text inlineIds explicit [] nodes)
      (reasoningFingerprint text (node.get "content")) := by
  obtain ⟨_, _, _, hp, _, hemitted⟩ := passes_of_mem inlineIds explicit [] hn
  exact (hemitted _ (hp.own hr hid hf)).resolve_left List.not_mem_nil

theorem shown_of_inline
    (hexplicit : ∀ f ∈ explicit, ∃ other ∈ nodes, isReasoning text other ∧
      text.stripped (other.get "id") ∉ inlineIds ∧ reasoningFingerprint text (other.get "content") = f)
    (hn : node ∈ nodes) (hnarrative : isNarrative text node)
    (hf : reasoningFingerprint text (.str (splitInlineReasoning text (node.get "content")).2) ≠ "") :
    Shown text (normalizeFrom text inlineIds explicit [] nodes)
      (reasoningFingerprint text (.str (splitInlineReasoning text (node.get "content")).2)) := by
  obtain ⟨_, _, _, hp, _, hemitted⟩ := passes_of_mem inlineIds explicit [] hn
  cases hp.inline hnarrative hf
  case inr hmem => exact (hemitted _ hmem).resolve_left List.not_mem_nil
  case inl hmem =>
    -- The same reasoning stands in a node of its own.
    have ⟨other, hother, hr, hid, heq⟩ := hexplicit _ hmem
    rw [← heq] at hf ⊢
    exact shown_of_own hother hr hid hf

theorem Shown.exists_text {nodes : List CanonicalNode} {f : String} (hs : Shown text nodes f) (hf : f ≠ "") :
    ∃ kept ∈ nodes, isReasoning text kept ∧ text.orEmpty (kept.get "content") ≠ "" := by
  have ⟨kept, hk, hkr, heq⟩ := hs
  exact ⟨kept, hk, hkr, content_of_fingerprint (by rwa [heq])⟩

theorem kept_of_own (hn : node ∈ nodes) (hr : isReasoning text node)
    (hid : text.stripped (node.get "id") ∉ inlineIds) (hne : text.orEmpty (node.get "content") ≠ "") :
    ∃ kept ∈ normalizeFrom text inlineIds explicit [] nodes,
      isReasoning text kept ∧ text.orEmpty (kept.get "content") ≠ "" := by
  by_cases hf : reasoningFingerprint text (node.get "content") = ""
  case pos =>
    obtain ⟨_, _, _, hp, hbefore, _⟩ := passes_of_mem inlineIds explicit [] hn
    exact ⟨node, hbefore (hp.blank hr hid hf), hr, hne⟩
  case neg => exact (shown_of_own hn hr hid hf).exists_text hf

theorem kept_of_inline
    (hexplicit : ∀ f ∈ explicit, ∃ other ∈ nodes, isReasoning text other ∧
      text.stripped (other.get "id") ∉ inlineIds ∧ reasoningFingerprint text (other.get "content") = f)
    (hn : node ∈ nodes) (hnarrative : isNarrative text node)
    (hs : (splitInlineReasoning text (node.get "content")).2 ≠ "") :
    ∃ kept ∈ normalizeFrom text inlineIds explicit [] nodes,
      isReasoning text kept ∧ text.orEmpty (kept.get "content") ≠ "" := by
  have hf := fingerprint_of_inline hs
  exact (shown_of_inline hexplicit hn hnarrative hf).exists_text hf

theorem reasons_of_kept {kept : CanonicalNode} (hk : kept ∈ normalizeFrom text inlineIds explicit emitted nodes)
    (hr : isReasoning text kept) (hne : text.orEmpty (kept.get "content") ≠ "") : Reasons text nodes := by
  obtain ⟨node, hnode, _, before, _, hp, hmem⟩ := passes_of_kept hk
  cases hp.kept kept hmem hr
  case inl heq => exact ⟨node, hnode, .inl ⟨heq ▸ hr, heq ▸ hne⟩⟩
  case inr hinline =>
    refine ⟨node, hnode, .inr ⟨hinline.1, ?_⟩⟩
    intro he
    rw [he] at hinline
    exact hinline.2.2 reasoningFingerprint_empty

end Reasoning

theorem mem_explicitReasoning {f : String} (h : f ∈ explicitReasoning text nodes) :
    ∃ node ∈ nodes, isReasoning text node ∧ text.stripped (node.get "id") ∉ inlineReasoningIds text nodes ∧
      reasoningFingerprint text (node.get "content") = f := by
  have ⟨node, hnode, heq⟩ := List.mem_map.mp (List.mem_filter.mp h).1
  have ⟨hmem, hp⟩ := List.mem_filter.mp hnode
  simp only [Bool.and_eq_true, Bool.not_eq_true', List.contains_eq_mem, decide_eq_false_iff_not] at hp
  exact ⟨node, hmem, hp.1, hp.2, heq⟩

theorem reasons_iff {role : String} (ha : isAssistant text role) :
    (deriveTextFields text (normalizeCanonicalNodes text nodes role)).2 ≠ "" ↔ Reasons text nodes := by
  rw [derived_ne_empty_iff, normalizeCanonicalNodes, if_pos ha]
  constructor
  case mp =>
    intro h
    have ⟨kept, hk, hr, hne⟩ := h
    exact reasons_of_kept hk hr hne
  case mpr =>
    intro h
    have ⟨node, hnode, h⟩ := h
    cases h
    case inr h => exact kept_of_inline (fun _ => mem_explicitReasoning) hnode h.1 h.2
    case inl h =>
      by_cases hid : text.stripped (node.get "id") ∈ inlineReasoningIds text nodes
      case neg => exact kept_of_own hnode h.1 hid h.2
      case pos =>
        have ⟨other, hother, hnarrative, hs⟩ := mem_inlineReasoningIds hid
        exact kept_of_inline (fun _ => mem_explicitReasoning) hother hnarrative hs

-- Normalizing leaves some text if there is one.
theorem exists_text {role : String} (ha : isAssistant text role)
    (h : ∃ node ∈ nodes, isNarrative text node ∨ isReasoning text node) :
    ∃ node ∈ normalizeCanonicalNodes text nodes role, isNarrative text node ∨ isReasoning text node := by
  have hnarrative (node : CanonicalNode) (hnode : node ∈ nodes) (hn : isNarrative text node) :
      ∃ node ∈ normalizeCanonicalNodes text nodes role, isNarrative text node ∨ isReasoning text node := by
    rw [normalizeCanonicalNodes, if_pos ha]
    have hset : isNarrative text
        (node.set "content" (.str (splitInlineReasoning text (node.get "content")).1)) := by simpa using hn
    exact ⟨_, (mem_normalizeFrom hset).mpr ⟨node, hnode, hn, rfl⟩, .inl hset⟩
  have ⟨node, hnode, h⟩ := h
  cases h
  case inl hn => exact hnarrative node hnode hn
  case inr hr =>
    by_cases hid : text.stripped (node.get "id") ∈ inlineReasoningIds text nodes
    case pos =>
      have ⟨other, hother, hn, _⟩ := mem_inlineReasoningIds hid
      exact hnarrative other hother hn
    case neg =>
      rw [normalizeCanonicalNodes, if_pos ha]
      obtain ⟨_, before, _, hp, hbefore, hemitted⟩ :=
        passes_of_mem (inlineReasoningIds text nodes) (explicitReasoning text nodes) [] hnode
      by_cases hf : reasoningFingerprint text (node.get "content") = ""
      case pos => exact ⟨node, hbefore (hp.blank hr hid hf), .inr hr⟩
      case neg =>
        have ⟨kept, hk, hkr, _⟩ := (hemitted _ (hp.own hr hid hf)).resolve_left List.not_mem_nil
        exact ⟨kept, hk, .inr hkr⟩

-- The texts of the row are those of its nodes, and the validation finds nothing wrong with them.
structure Consistent (text : Unicode) (row : CanonicalMessage) : Prop where
  content   : row.content_text.getD "" = (deriveTextFields text row.nodes).1
  reasoning : row.reasoning_text.getD "" = (deriveTextFields text row.nodes).2
  valid     : ∀ error ∈ validateCanonicalMessageInvariants text row, error = .tool_args_contain_runtime_internal

theorem consistent_iff {row : CanonicalMessage} (ha : isAssistant text row.role)
    (hn : row.nodes = normalizeCanonicalNodes text nodes row.role)
    (hcontent : row.content_text.getD "" = (deriveTextFields text row.nodes).1) :
    Consistent text row ↔ Clean text nodes ∧ row.reasoning_text.getD "" = (deriveTextFields text row.nodes).2 := by
  constructor
  case mp =>
    intro h
    refine ⟨(clean_iff ha).mpr ?_, h.reasoning⟩
    intro narrative hmem hnarrative hthink
    have hany : row.nodes.any fun node =>
        isNarrative text node && mentionsThink text (text.orEmpty (node.get "content")) := by
      rw [List.any_eq_true]
      exact ⟨narrative, hn ▸ hmem, by simp [hnarrative, hthink]⟩
    have herror : .assistant_narrative_contains_think ∈ validateCanonicalMessageInvariants text row := by
      simp [validateCanonicalMessageInvariants, ha, hany]
    cases h.valid _ herror
  case mpr =>
    rintro ⟨hc, hreasoning⟩
    refine ⟨hcontent, hreasoning, ?_⟩
    have hagain : normalizeCanonicalNodes text row.nodes row.role = row.nodes := by
      rw [hn]
      exact normalizeCanonicalNodes_normalizeCanonicalNodes hc.settled
    have hnone : ¬(row.nodes.any fun node =>
        isNarrative text node && mentionsThink text (text.orEmpty (node.get "content"))) := by
      rw [List.any_eq_true]
      rintro ⟨narrative, hmem, hp⟩
      rw [Bool.and_eq_true] at hp
      exact (clean_iff ha).mp hc narrative (hn ▸ hmem) hp.1 hp.2
    intro error herror
    have hnone := Bool.eq_false_iff.mpr hnone
    simp [validateCanonicalMessageInvariants, hagain, hcontent, hreasoning, hnone] at herror
    exact herror.2

end Nodes
end Transcript
