import V8AgentOs.SubagentReturn.Ids

-- Which values a subagent's card shows without anything internal.
namespace SubagentReturn

open Script

-- Whether a value has no internal key and no text with an identifier, at any depth
mutual

def clean : Value → Bool
  | .string s       => !hasId s
  | .array items    => cleanItems items
  | .object members => cleanMembers members
  | _               => true

def cleanItems : List Value → Bool
  | []      => true
  | v :: vs => clean v && cleanItems vs

def cleanMembers : List (Text × Value) → Bool
  | []           => true
  | (k, v) :: ms => !isInternal k && clean v && cleanMembers ms

end

-- The values that stand below all levels that are cleaned, six levels down, where no internal key leads to them and no
-- place behind the fortieth of an array.
mutual

def below (value : Value) (depth : ℕ) : List Value :=
  if depth > 5 then [value]
  else match value with
    | .array items    => belowItems 40 items depth
    | .object members => belowMembers members depth
    | _               => []

def belowItems (limit : ℕ) (items : List Value) (depth : ℕ) : List Value :=
  match limit, items with
  | limit + 1, v :: vs => below v (depth + 1) ++ belowItems limit vs depth
  | _, _               => []

def belowMembers (members : List (Text × Value)) (depth : ℕ) : List Value :=
  match members with
  | []           => []
  | (k, v) :: ms =>
    if isInternal k || k = text "__proto__" then belowMembers ms depth
    else below v (depth + 1) ++ belowMembers ms depth

end

-- Two values differ in the values of internal keys and the text of identifiers only.
mutual

def agree : Value → Value → Prop
  | .string s, w        => ∃ t, w = .string t ∧ split s = split t
  | .array items, w     => match w with | .array items' => agreeItems items items' | _ => False
  | .object members, w  => match w with | .object members' => agreeMembers members members' | _ => False
  | .undefined, w       => w = .undefined
  | .null, w            => w = .null
  | .bool b, w          => w = .bool b
  | .number n e, w      => w = .number n e

def agreeItems : List Value → List Value → Prop
  | [], ws      => ws = []
  | v :: vs, ws => match ws with | w :: ws => agree v w ∧ agreeItems vs ws | [] => False

def agreeMembers : List (Text × Value) → List (Text × Value) → Prop
  | [], ns           => ns = []
  | (k, v) :: ms, ns => match ns with
    | (l, w) :: ns => k = l ∧ (isInternal k = false → agree v w) ∧ agreeMembers ms ns
    | []           => False

end

-- What is shown of a value is clean, and it says nothing about what is internal in it.
def Hides (value : Value) : Prop :=
  clean (sanitizeHumanValue value 0) ∧
    ∀ other, agree value other → sanitizeHumanValue other 0 = sanitizeHumanValue value 0

variable {v w : Value} {vs ws : List Value} {ms ns : Members} {depth limit : ℕ}

theorem Value.induct {P : Value → Prop} (undefined : P undefined) (null : P null) (bool : ∀ b, P (bool b))
    (number : ∀ n e, P (number n e)) (string : ∀ s, P (string s)) (array : ∀ vs, (∀ v ∈ vs, P v) → P (array vs))
    (object : ∀ ms : Members, (∀ m ∈ ms, P m.2) → P (object ms)) (v : Value) : P v := by
  refine Value.rec (motive_1 := P) (motive_2 := fun vs => ∀ v ∈ vs, P v) (motive_3 := fun ms => ∀ m ∈ ms, P m.2)
    (motive_4 := fun m => P m.2) undefined null bool number string array object ?_ ?_ ?_ ?_ (fun _ _ h => h) v
  case refine_1 => exact fun v h => absurd h List.not_mem_nil
  case refine_2 =>
    intro v vs hv hvs w hw
    exact (List.mem_cons.mp hw).elim (· ▸ hv) (hvs w)
  case refine_3 => exact fun m h => absurd h List.not_mem_nil
  case refine_4 =>
    intro m ms hm hms n hn
    exact (List.mem_cons.mp hn).elim (· ▸ hm) (hms n)

theorem sanitize_deep (h : depth > 5) : sanitizeHumanValue v depth = v := by
  cases v <;> simp [sanitizeHumanValue, h]

theorem below_deep (h : depth > 5) : below v depth = [v] := by
  cases v <;> simp [below, h]

theorem clean_sanitizeItems (h : ∀ v ∈ vs, ∀ depth, clean (sanitizeHumanValue v depth) ↔ ∀ w ∈ below v depth, clean w) :
    cleanItems (sanitizeItems limit vs depth) ↔ ∀ w ∈ belowItems limit vs depth, clean w := by
  induction vs generalizing limit
  case nil => cases limit <;> simp [sanitizeItems, belowItems, cleanItems]
  case cons v vs hi =>
    cases limit
    case zero => simp [sanitizeItems, belowItems, cleanItems]
    case succ limit =>
      have hvs := @hi limit fun v hv => h v (List.mem_cons_of_mem _ hv)
      rw [sanitizeItems, belowItems, cleanItems, Bool.and_eq_true, List.forall_mem_append, hvs,
        h v List.mem_cons_self]

theorem clean_sanitizeMembers
    (h : ∀ m ∈ ms, ∀ depth, clean (sanitizeHumanValue m.2 depth) ↔ ∀ w ∈ below m.2 depth, clean w) :
    cleanMembers (sanitizeMembers ms depth) ↔ ∀ w ∈ belowMembers ms depth, clean w := by
  induction ms
  case nil => simp [sanitizeMembers, belowMembers, cleanMembers]
  case cons m ms hi =>
    have hms := hi fun m hm => h m (List.mem_cons_of_mem _ hm)
    rw [sanitizeMembers, belowMembers]
    split
    case isTrue => exact hms
    case isFalse hk =>
      have hk : isInternal m.1 = false := by
        simp only [Bool.or_eq_true, not_or, Bool.not_eq_true] at hk
        exact hk.left
      rw [cleanMembers, hk, Bool.not_false, Bool.true_and, Bool.and_eq_true, List.forall_mem_append, hms]
      exact and_congr_left' <| h m List.mem_cons_self (depth + 1)

theorem clean_of_shallow (h : ¬depth > 5 → (clean (sanitizeHumanValue v depth) ↔ ∀ w ∈ below v depth, clean w)) :
    clean (sanitizeHumanValue v depth) ↔ ∀ w ∈ below v depth, clean w := by
  by_cases hd : depth > 5
  case pos => simp [sanitize_deep hd, below_deep hd]
  case neg => exact h hd

-- What is shown is clean if and only if everything below the levels that are cleaned is.
theorem clean_sanitize : clean (sanitizeHumanValue v depth) ↔ ∀ w ∈ below v depth, clean w := by
  apply Value.induct (v := v) (P := fun v => ∀ depth, clean (sanitizeHumanValue v depth) ↔ ∀ w ∈ below v depth, clean w)
  case undefined => exact fun depth => clean_of_shallow fun hd => by simp [sanitizeHumanValue, below, hd, clean]
  case null => exact fun depth => clean_of_shallow fun hd => by simp [sanitizeHumanValue, below, hd, clean]
  case bool => exact fun b depth => clean_of_shallow fun hd => by simp [sanitizeHumanValue, below, hd, clean]
  case number => exact fun n e depth => clean_of_shallow fun hd => by simp [sanitizeHumanValue, below, hd, clean]
  case string =>
    exact fun s depth => clean_of_shallow fun hd => by simp [sanitizeHumanValue, below, hd, clean, hasId_cleanText]
  case array =>
    intro vs hi depth
    apply clean_of_shallow
    intro hd
    simpa [sanitizeHumanValue, below, hd, clean] using clean_sanitizeItems hi
  case object =>
    intro ms hi depth
    apply clean_of_shallow
    intro hd
    simpa [sanitizeHumanValue, below, hd, clean] using clean_sanitizeMembers hi

theorem eq_of_agreeItems (h : ∀ v ∈ vs, clean v → ∀ w, agree v w → w = v) (hc : cleanItems vs) (ha : agreeItems vs ws) :
    ws = vs := by
  induction vs generalizing ws
  case nil => exact ha
  case cons v vs hi =>
    cases ws
    case nil => cases ha
    case cons w ws =>
      rw [cleanItems, Bool.and_eq_true] at hc
      rw [h v List.mem_cons_self hc.left w ha.left,
        hi (fun v hv => h v (List.mem_cons_of_mem _ hv)) hc.right ha.right]

theorem eq_of_agreeMembers (h : ∀ m ∈ ms, clean m.2 → ∀ w, agree m.2 w → w = m.2) (hc : cleanMembers ms)
    (ha : agreeMembers ms ns) : ns = ms := by
  induction ms generalizing ns
  case nil => exact ha
  case cons m ms hi =>
    cases ns
    case nil => cases ha
    case cons n ns =>
      rw [cleanMembers, Bool.and_eq_true, Bool.and_eq_true, Bool.not_eq_true'] at hc
      have ⟨hk, hv, hms⟩ := ha
      have hv := h m List.mem_cons_self hc.left.right n.2 (hv hc.left.left)
      rw [hi (fun m hm => h m (List.mem_cons_of_mem _ hm)) hc.right hms, ← Prod.eta m, hk, ← hv]

-- Nothing else agrees with a clean value.
theorem eq_of_agree (hc : clean v) (ha : agree v w) : w = v := by
  revert w
  revert hc
  apply Value.induct (v := v) (P := fun v => clean v → ∀ w, agree v w → w = v)
  case string =>
    intro s hc w ⟨t, hw, h⟩
    rw [clean, Bool.not_eq_true'] at hc
    rw [split, split_of_clean hc] at h
    rw [hw, eq_of_split h.symm]
  case array =>
    intro vs hi hc w ha
    cases w
    case array ws => rw [eq_of_agreeItems hi hc ha]
    all_goals cases ha
  case object =>
    intro ms hi hc w ha
    cases w
    case object ns => rw [eq_of_agreeMembers hi hc ha]
    all_goals cases ha
  all_goals
    intros
    assumption

theorem sanitizeItems_agree
    (h : ∀ v ∈ vs, ∀ depth, (∀ u ∈ below v depth, clean u) → ∀ w, agree v w →
      sanitizeHumanValue w depth = sanitizeHumanValue v depth)
    (hc : ∀ u ∈ belowItems limit vs depth, clean u) (ha : agreeItems vs ws) :
    sanitizeItems limit ws depth = sanitizeItems limit vs depth := by
  induction vs generalizing limit ws
  case nil => rw [show ws = [] from ha]
  case cons v vs hi =>
    cases ws
    case nil => cases ha
    case cons w ws =>
      cases limit
      case zero => simp [sanitizeItems]
      case succ limit =>
        rw [belowItems, List.forall_mem_append] at hc
        rw [sanitizeItems, sanitizeItems, h v List.mem_cons_self _ hc.left w ha.left,
          hi (fun v hv => h v (List.mem_cons_of_mem _ hv)) hc.right ha.right]

theorem sanitizeMembers_agree
    (h : ∀ m ∈ ms, ∀ depth, (∀ u ∈ below m.2 depth, clean u) → ∀ w, agree m.2 w →
      sanitizeHumanValue w depth = sanitizeHumanValue m.2 depth)
    (hc : ∀ u ∈ belowMembers ms depth, clean u) (ha : agreeMembers ms ns) :
    sanitizeMembers ns depth = sanitizeMembers ms depth := by
  induction ms generalizing ns
  case nil => rw [show ns = [] from ha]
  case cons m ms hi =>
    cases ns
    case nil => cases ha
    case cons n ns =>
      have ⟨hk, hv, hms⟩ := ha
      have hi := @hi ns fun m hm => h m (List.mem_cons_of_mem _ hm)
      rw [belowMembers] at hc
      rw [sanitizeMembers, sanitizeMembers, ← hk]
      split at hc
      case isTrue hs => rw [if_pos hs, if_pos hs, hi hc hms]
      case isFalse hs =>
        rw [List.forall_mem_append] at hc
        have hin : isInternal m.1 = false := by
          simp only [Bool.or_eq_true, not_or, Bool.not_eq_true] at hs
          exact hs.left
        rw [if_neg hs, if_neg hs, h m List.mem_cons_self _ hc.left n.2 (hv hin), hi hc.right hms]

theorem sanitize_of_shallow (h : ¬depth > 5 → sanitizeHumanValue w depth = sanitizeHumanValue v depth)
    (hc : ∀ u ∈ below v depth, clean u) (ha : agree v w) :
    sanitizeHumanValue w depth = sanitizeHumanValue v depth := by
  by_cases hd : depth > 5
  case pos =>
    rw [below_deep hd, List.forall_mem_singleton] at hc
    rw [eq_of_agree hc ha]
  case neg => exact h hd

-- What is shown does not depend on what is internal in the levels that are cleaned.
theorem sanitize_agree (hc : ∀ u ∈ below v depth, clean u) (ha : agree v w) :
    sanitizeHumanValue w depth = sanitizeHumanValue v depth := by
  revert w
  revert hc
  revert depth
  apply Value.induct (v := v) (P := fun v => ∀ depth, (∀ u ∈ below v depth, clean u) → ∀ w, agree v w →
    sanitizeHumanValue w depth = sanitizeHumanValue v depth)
  case undefined => exact fun _ _ w ha => ha ▸ rfl
  case null => exact fun _ _ w ha => ha ▸ rfl
  case bool => exact fun _ _ _ w ha => ha ▸ rfl
  case number => exact fun _ _ _ _ w ha => ha ▸ rfl
  case string =>
    intro s depth hc w ha
    refine sanitize_of_shallow (fun hd => ?_) hc ha
    have ⟨t, hw, h⟩ := ha
    have h : cleanText t = cleanText s := by rw [cleanText, cleanText, replaceIds_eq, replaceIds_eq, h]
    simp [hw, sanitizeHumanValue, hd, h]
  case array =>
    intro vs hi depth hc w ha
    refine sanitize_of_shallow (fun hd => ?_) hc ha
    cases w
    case array ws =>
      have hc : ∀ u ∈ belowItems 40 vs depth, clean u := by simpa [below, hd] using hc
      simp [sanitizeHumanValue, hd, sanitizeItems_agree hi hc ha]
    all_goals cases ha
  case object =>
    intro ms hi depth hc w ha
    refine sanitize_of_shallow (fun hd => ?_) hc ha
    cases w
    case object ns =>
      have hc : ∀ u ∈ belowMembers ms depth, clean u := by simpa [below, hd] using hc
      simp [sanitizeHumanValue, hd, sanitizeMembers_agree hi hc ha]
    all_goals cases ha

theorem hides_iff : Hides v ↔ ∀ w ∈ below v 0, clean w := by
  constructor
  case mp => exact fun h => clean_sanitize.mp h.left
  case mpr => exact fun h => ⟨clean_sanitize.mpr h, fun _ => sanitize_agree h⟩

section Activity

variable {node other : Node} {lowerTopic : Text}

-- The value that `activityFromNode` shows cleaned
def picked (node : Node) (lowerTopic : Text) : Option (Field × Value) :=
  let payload := mergedPayload node
  let tool := nestedRecord payload ["tool"]
  if includes lowerTopic "reasoning" || node.executionType = some (text "reasoning") then none
  else if includes lowerTopic "tool.started" || node.executionType = some (text "tool_call") then
    some (.args, firstDefined [node.args, tool.get "args", payload.get "args", payload.get "request"])
  else if includes lowerTopic "tool.finished" || node.executionType = some (text "tool_result") then
    some (.result, firstDefined [node.agentVisibleResult, tool.get "agentVisibleResult",
      tool.get "agent_visible_result", payload.get "agentVisibleResult", payload.get "agent_visible_result",
      node.result, tool.get "result", payload.get "result"])
  else if includes lowerTopic "artifact" || node.kind = some (text "artifact") then
    let artifact := recordOf (if node.artifact.truthy then node.artifact else payload.get "artifact")
    if artifact.isEmpty then none else some (.artifact, .object artifact)
  else none

theorem activityFromNode_eq : activityFromNode node lowerTopic =
    (picked node lowerTopic).map fun p => (p.1, sanitizeHumanValue p.2 0) := by
  unfold activityFromNode picked
  dsimp only
  split
  case isTrue => rfl
  case isFalse =>
    split
    case isTrue => rfl
    case isFalse =>
      split
      case isTrue => rfl
      case isFalse =>
        split
        case isTrue => split <;> split <;> rfl
        case isFalse => rfl

-- Two nodes that differ in what is internal in their values only
structure Node.Agrees (node other : Node) : Prop where
  kind               : node.kind = other.kind
  executionType      : node.executionType = other.executionType
  args               : agree node.args other.args
  result             : agree node.result other.result
  agentVisibleResult : agree node.agentVisibleResult other.agentVisibleResult
  artifact           : agree node.artifact other.artifact
  data               : agree node.data other.data

theorem agree_get (h : agreeMembers ms ns) {key : String} (hk : isInternal (text key) = false) :
    agree (ms.get key) (ns.get key) := by
  induction ms generalizing ns
  case nil =>
    rw [show ns = [] from h]
    rfl
  case cons m ms hi =>
    cases ns
    case nil => cases h
    case cons n ns =>
      have ⟨e, hv, hms⟩ := h
      rw [Members.get, Members.get, List.lookup_cons, List.lookup_cons, ← e]
      cases hm : text key == m.1
      case true =>
        have e : text key = m.1 := by simpa using hm
        exact hv (e ▸ hk)
      case false => exact hi hms

theorem agree_recordOf (h : agree v w) : agreeMembers (recordOf v) (recordOf w) := by
  cases v
  case object ms =>
    cases w
    case object ns => exact h
    all_goals cases h
  case array =>
    cases w
    case array => rfl
    all_goals cases h
  case string =>
    have ⟨_, hw, _⟩ := h
    rw [hw]
    rfl
  all_goals
    rw [show w = _ from h]
    rfl

theorem agreeMembers_append {ms' ns' : Members} (h : agreeMembers ms ns) (h' : agreeMembers ms' ns') :
    agreeMembers (ms ++ ms') (ns ++ ns') := by
  induction ms generalizing ns
  case nil =>
    rw [show ns = [] from h]
    exact h'
  case cons m ms hi =>
    cases ns
    case nil => cases h
    case cons n ns => exact ⟨h.left, h.right.left, hi h.right.right⟩

theorem isEmpty_agree (h : agreeMembers ms ns) : ms.isEmpty = ns.isEmpty := by
  cases ms
  case nil => rw [show ns = [] from h]
  case cons =>
    cases ns
    case nil => cases h
    case cons => rfl

theorem isNullish_agree (h : agree v w) : v.isNullish = w.isNullish := by
  cases v
  case object =>
    cases w
    case object => rfl
    all_goals cases h
  case array =>
    cases w
    case array => rfl
    all_goals cases h
  case string =>
    have ⟨_, hw, _⟩ := h
    rw [hw]
    rfl
  all_goals rw [show w = _ from h]

theorem truthy_agree (h : agree v w) : v.truthy = w.truthy := by
  cases v
  case object =>
    cases w
    case object => rfl
    all_goals cases h
  case array =>
    cases w
    case array => rfl
    all_goals cases h
  case string s =>
    have ⟨t, hw, he⟩ := h
    have nil {s : Text} : split s = [] ↔ s = [] := by
      cases s
      case nil => exact ⟨fun _ => rfl, fun _ => rfl⟩
      case cons u rest =>
        rw [split, splitFrom]
        cases idLength false (u :: rest) <;> simp
    have : s = [] ↔ t = [] := by rw [← nil, ← nil, he]
    rw [hw, Value.truthy, Value.truthy]
    simp only [ne_eq, this]
  all_goals rw [show w = _ from h]

theorem firstDefined_cons :
    firstDefined (v :: w :: vs) = if v.isNullish then firstDefined (w :: vs) else v := rfl

theorem firstDefined_agree (h : List.Forall₂ agree vs ws) : agree (firstDefined vs) (firstDefined ws) := by
  induction h
  case nil => rfl
  case cons hv htl hi =>
    cases htl
    case nil => exact hv
    case cons =>
      rw [firstDefined_cons, firstDefined_cons, ← isNullish_agree hv]
      split
      case isTrue => exact hi
      case isFalse => exact hv

-- The members that are read are not internal.
def readKeys : List String :=
  ["data", "tool", "args", "request", "agentVisibleResult", "agent_visible_result", "result", "artifact"]

theorem readKeys_visible : readKeys.all fun key => !isInternal (text key) := by
  decide +kernel

theorem agree_read (h : agreeMembers ms ns) {key : String} (hk : key ∈ readKeys) : agree (ms.get key) (ns.get key) :=
  agree_get h <| by simpa using List.all_eq_true.mp readKeys_visible key hk

theorem payload_agree (h : node.Agrees other) : agreeMembers (mergedPayload node) (mergedPayload other) := by
  have hd := agree_recordOf h.data
  exact agreeMembers_append (agree_recordOf <| agree_read hd (by simp [readKeys])) hd

theorem nestedRecord_agree (h : agreeMembers ms ns) :
    agreeMembers (nestedRecord ms ["tool"]) (nestedRecord ns ["tool"]) := by
  have ht := agree_recordOf <| agree_read h (by simp [readKeys] : "tool" ∈ readKeys)
  simp only [nestedRecord, List.map_cons, List.map_nil, List.find?_cons, List.find?_nil, isEmpty_agree ht]
  cases (recordOf (ns.get "tool")).isEmpty
  case true => rfl
  case false => exact ht

-- The values that are shown of nodes that agree also agree.
theorem picked_agree (h : node.Agrees other) {field : Field} (hp : picked node lowerTopic = some (field, v)) :
    ∃ w, picked other lowerTopic = some (field, w) ∧ agree v w := by
  have hpayload := payload_agree h
  have htool := nestedRecord_agree hpayload
  unfold picked at hp ⊢
  dsimp only at hp ⊢
  rw [← h.executionType, ← h.kind, ← truthy_agree h.artifact]
  split at hp
  case isTrue => cases hp
  case isFalse h₁ =>
    rw [if_neg h₁]
    split at hp
    case isTrue h₂ =>
      rw [if_pos h₂]
      cases hp
      refine ⟨_, rfl, firstDefined_agree ?_⟩
      exact .cons h.args <| .cons (agree_read htool (by simp [readKeys])) <| .cons (agree_read hpayload (by simp [readKeys])) <|
        .cons (agree_read hpayload (by simp [readKeys])) .nil
    case isFalse h₂ =>
      rw [if_neg h₂]
      split at hp
      case isTrue h₃ =>
        rw [if_pos h₃]
        cases hp
        refine ⟨_, rfl, firstDefined_agree ?_⟩
        exact .cons h.agentVisibleResult <| .cons (agree_read htool (by simp [readKeys])) <|
          .cons (agree_read htool (by simp [readKeys])) <| .cons (agree_read hpayload (by simp [readKeys])) <|
          .cons (agree_read hpayload (by simp [readKeys])) <| .cons h.result <| .cons (agree_read htool (by simp [readKeys])) <|
          .cons (agree_read hpayload (by simp [readKeys])) .nil
      case isFalse h₃ =>
        rw [if_neg h₃]
        split at hp
        case isFalse => cases hp
        case isTrue h₄ =>
          rw [if_pos h₄]
          have ha : agreeMembers
              (recordOf (if node.artifact.truthy then node.artifact else (mergedPayload node).get "artifact"))
              (recordOf (if node.artifact.truthy then other.artifact else (mergedPayload other).get "artifact")) := by
            apply agree_recordOf
            split
            case isTrue => exact h.artifact
            case isFalse => exact agree_read hpayload (by simp [readKeys])
          rw [← isEmpty_agree ha]
          generalize recordOf (if node.artifact.truthy then node.artifact else _) = ms at hp ha ⊢
          split at hp
          case isTrue => cases hp
          case isFalse he =>
            cases hp
            rw [if_neg he]
            exact ⟨_, rfl, ha⟩

-- What a node shows is clean and the same whatever is internal in the node, if and only if there is nothing internal
-- below the levels that are cleaned.
theorem activity_hides_iff (node : Node) (lowerTopic : Text) :
    (∀ field shown, activityFromNode node lowerTopic = some (field, shown) →
      clean shown ∧ ∀ other : Node, node.Agrees other → activityFromNode other lowerTopic = some (field, shown)) ↔
    ∀ field value, picked node lowerTopic = some (field, value) → ∀ w ∈ below value 0, clean w := by
  simp only [activityFromNode_eq]
  constructor
  case mp =>
    intro h field value hp
    exact clean_sanitize.mp (h field _ (by rw [hp]; rfl)).left
  case mpr =>
    intro h field shown hs
    have ⟨(field', value), hp, e⟩ := Option.map_eq_some_iff.mp hs
    cases e
    have hc := h _ _ hp
    refine ⟨clean_sanitize.mpr hc, fun other ho => ?_⟩
    have ⟨w, hw, ha⟩ := picked_agree ho hp
    rw [hw, Option.map_some, sanitize_agree hc ha]

end Activity

-- A result whose innermost object, six levels down, names a run
def nestedResult : Value :=
  let inner : Value := .object [(text "runId", .string (text "run_hidden123456"))]
  .object [(text "a", .array [.array [.array [.array [.array [inner]]]]])]

theorem nestedResult_shown :
    let node : Node := ⟨none, some (text "tool_result"), .undefined, nestedResult, .undefined, .undefined, .undefined⟩
    (activityFromNode node []).map (fun shown => (shown.1, clean shown.2)) = some (.result, false) := by
  decide +kernel

end SubagentReturn
