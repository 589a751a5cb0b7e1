import V8AgentOs.Script.Text

-- subagent-return-projection.ts: the values of tool calls, tool results and artifacts that a subagent's card shows.
namespace SubagentReturn

open Script

-- A value that came with an event, or `undefined`. A number is finite, `digits * 10 ^ exponent`.
inductive Value
  | undefined
  | null
  | bool (b : Bool)
  | number (digits exponent : ℤ)
  | string (s : Text)
  | array (items : List Value)
  | object (members : List (Text × Value))

abbrev Members := List (Text × Value)

namespace Value

def isNullish : Value → Bool
  | undefined | null => true
  | _                => false

-- `Boolean(value)`
def truthy : Value → Bool
  | undefined | null => false
  | bool b           => b
  | number digits _  => digits ≠ 0
  | string s         => s ≠ []
  | array _          => true
  | object _         => true

end Value

-- `record[key]`
def Members.get (record : Members) (key : String) : Value :=
  (record.lookup (text key)).getD .undefined

-- `a ?? b ?? …`
def firstDefined : List Value → Value
  | []      => .undefined
  | [v]     => v
  | v :: vs => if v.isNullish then firstDefined vs else v

section Patterns

-- The characters for which the letters of a pattern stand with the flag `i`
def lowerAscii (u : UInt16) : UInt16 :=
  if 0x41 ≤ u && u ≤ 0x5A then u + 0x20 else u

def internalKeys : List Text :=
  ["_diagnostics", "diagnostics", "raw", "rawref", "traceref", "runtimecontext", "provider", "providerid", "providername",
    "providerpayload", "runid", "run_id", "episode", "episodeid", "episode_id", "commandsession", "toolpolicy"].map text

-- `INTERNAL_KEY_PATTERN.test(key)`
def isInternalKey (key : Text) : Bool :=
  internalKeys.contains (key.map lowerAscii)

-- `(?:source|target|outer|parent|child|producer)?_?(?:run|episode)_?(?:id|ids)`
def lineageKeys : List Text :=
  let roles := ["", "source", "target", "outer", "parent", "child", "producer"].map text
  let joints := ["", "_"].map text
  let subjects := ["run", "episode"].map text
  let ids := ["id", "ids"].map text
  [roles, joints, subjects, joints, ids].foldr (fun parts tails => parts.flatMap fun part => tails.map (part ++ ·)) [[]]

-- `INTERNAL_LINEAGE_KEY_PATTERN.test(key)`, which asks for the start of the key or an underscore before these
def isLineageKey (key : Text) : Bool :=
  let lowered := key.map lowerAscii
  lineageKeys.any fun tail => lowered = tail || (text "_" ++ tail).isSuffixOf lowered

def isInternal (key : Text) : Bool :=
  isInternalKey key || isLineageKey key

-- `[A-Za-z0-9]`
def isAlphanumeric (u : UInt16) : Bool :=
  0x41 ≤ u && u ≤ 0x5A || 0x61 ≤ u && u ≤ 0x7A || 0x30 ≤ u && u ≤ 0x39

-- `[A-Za-z0-9_]`, on whose two sides `\b` matches
def isWord (u : UInt16) : Bool :=
  isAlphanumeric u || u = 0x5F

-- `[A-Za-z0-9_-]`
def isIdPart (u : UInt16) : Bool :=
  isWord u || u = 0x2D

-- What `INTERNAL_ID_PATTERN` matches at the start of a text, when there is a word character before it or not. It takes
-- as many characters as there are, and gives back the hyphens at their end, after which there is no boundary.
def idLength (afterWord : Bool) (rest : Text) : Option ℕ :=
  if afterWord then none
  else [text "run_", text "episode_"].findSome? fun head =>
    if head.isPrefixOf rest then
      match rest.drop head.length with
      | []        => none
      | u :: tail =>
        if isAlphanumeric u then
          some (head.length + ((u :: tail).takeWhile isIdPart |>.rdropWhile (· = 0x2D)).length)
        else none
    else none

-- The text with its matches of `INTERNAL_ID_PATTERN` taken out, where `skip` characters still belong to a match
def splitFrom (skip : ℕ) (afterWord : Bool) : Text → List (Option UInt16)
  | []        => []
  | u :: rest =>
    match skip with
    | skip + 1 => splitFrom skip (isWord u) rest
    | 0        =>
      match idLength afterWord (u :: rest) with
      | some n => none :: splitFrom (n - 1) (isWord u) rest
      | none   => some u :: splitFrom 0 (isWord u) rest

def split (value : Text) : List (Option UInt16) :=
  splitFrom 0 false value

-- `value.replace(INTERNAL_ID_PATTERN, "内部引用")`
def replaceIds (value : Text) : Text :=
  (split value).flatMap fun piece => match piece with
    | none   => text "内部引用"
    | some u => [u]

-- Whether `INTERNAL_ID_PATTERN` matches somewhere in a text
def hasIdFrom (afterWord : Bool) : Text → Bool
  | []        => false
  | u :: rest => (idLength afterWord (u :: rest)).isSome || hasIdFrom (isWord u) rest

def hasId (value : Text) : Bool :=
  hasIdFrom false value

end Patterns

-- `cleaned.length <= 4000 ? cleaned : …`
def cleanText (value : Text) : Text :=
  let cleaned := replaceIds value
  if cleaned.length ≤ 4000 then cleaned else cleaned.take 3999 ++ text "…"

-- A member called `__proto__` is assigned as the prototype, and becomes no member.
mutual

def sanitizeHumanValue (value : Value) (depth : ℕ) : Value :=
  if depth > 5 then value
  else match value with
    | .string s       => .string (cleanText s)
    | .array items    => .array (sanitizeItems 40 items depth)
    | .object members => .object (sanitizeMembers members depth)
    | value           => value

def sanitizeItems (limit : ℕ) (items : List Value) (depth : ℕ) : List Value :=
  match limit, items with
  | limit + 1, v :: vs => sanitizeHumanValue v (depth + 1) :: sanitizeItems limit vs depth
  | _, _               => []

def sanitizeMembers (members : List (Text × Value)) (depth : ℕ) : List (Text × Value) :=
  match members with
  | []           => []
  | (k, v) :: ms =>
    if isInternal k || k = text "__proto__" then sanitizeMembers ms depth
    else (k, sanitizeHumanValue v (depth + 1)) :: sanitizeMembers ms depth

end

-- What is read of a node of the timeline
structure Node where
  kind               : Option Text
  executionType      : Option Text
  args               : Value
  result             : Value
  agentVisibleResult : Value
  artifact           : Value
  data               : Value

def recordOf : Value → Members
  | .object members => members
  | _               => []

def nestedRecord (record : Members) (keys : List String) : Members :=
  ((keys.map fun key => recordOf (record.get key)).find? (!·.isEmpty)).getD []

-- `{ ...outer, ...recordOf(outer.data) }`. The later member of a name wins, so it stands first.
def mergedPayload (node : Node) : Members :=
  let outer := recordOf node.data
  recordOf (outer.get "data") ++ outer

-- The member of a projected event that a value becomes
inductive Field
  | args
  | result
  | artifact
  deriving DecidableEq

def includes (topic : Text) (part : String) : Bool :=
  (indexOf (text part) topic).isSome

-- `activityFromNode`, as far as it puts in one of these members; `lowerTopic` is `topic.toLowerCase()`.
def activityFromNode (node : Node) (lowerTopic : Text) : Option (Field × Value) :=
  let payload := mergedPayload node
  let tool := nestedRecord payload ["tool"]
  if includes lowerTopic "reasoning" || node.executionType = some (text "reasoning") then none
  else if includes lowerTopic "tool.started" || node.executionType = some (text "tool_call") then
    some (.args, sanitizeHumanValue
      (firstDefined [node.args, tool.get "args", payload.get "args", payload.get "request"]) 0)
  else if includes lowerTopic "tool.finished" || node.executionType = some (text "tool_result") then
    some (.result, sanitizeHumanValue (firstDefined [node.agentVisibleResult, tool.get "agentVisibleResult",
      tool.get "agent_visible_result", payload.get "agentVisibleResult", payload.get "agent_visible_result",
      node.result, tool.get "result", payload.get "result"]) 0)
  else if includes lowerTopic "artifact" || node.kind = some (text "artifact") then
    let artifact := recordOf (if node.artifact.truthy then node.artifact else payload.get "artifact")
    if artifact.isEmpty then none else some (.artifact, sanitizeHumanValue (.object artifact) 0)
  else none

end SubagentReturn

-- What the identifiers in a text are replaced by holds no identifier.
namespace SubagentReturn

open Script

variable {s rest : Text} {b b' : Bool} {u : UInt16} {n skip : ℕ}

def heads : List Text :=
  [text "run_", text "episode_"]

theorem idLength_eq_some (h : idLength b rest = some n) : b = false ∧
    ∃ head ∈ heads, ∃ u tail, rest = head ++ u :: tail ∧ isAlphanumeric u ∧
      n = head.length + ((u :: tail).takeWhile isIdPart |>.rdropWhile (· = 0x2D)).length := by
  rw [idLength] at h
  cases b
  case true => cases h
  case false =>
    refine ⟨rfl, ?_⟩
    have ⟨head, hh, h⟩ := List.exists_of_findSome?_eq_some h
    split at h
    case isFalse => cases h
    case isTrue hp =>
      have ⟨rest', hr⟩ := List.isPrefixOf_iff_prefix.mp hp
      cases hr
      rw [List.drop_left] at h
      obtain _ | ⟨u, tail⟩ := rest'
      case nil => cases h
      case cons =>
        dsimp only at h
        split at h
        case isFalse => cases h
        case isTrue hu =>
          cases h
          exact ⟨head, hh, u, tail, rfl, hu, rfl⟩

theorem idLength_isSome : (idLength b rest).isSome ↔
    b = false ∧ ∃ head ∈ heads, ∃ u, head ++ [u] <+: rest ∧ isAlphanumeric u := by
  constructor
  case mp =>
    intro h
    have ⟨n, h⟩ := Option.isSome_iff_exists.mp h
    have ⟨hb, head, hh, u, tail, hr, hu, _⟩ := idLength_eq_some h
    exact ⟨hb, head, hh, u, ⟨tail, by rw [hr]; simp⟩, hu⟩
  case mpr =>
    intro ⟨hb, head, hh, u, ⟨tail, hr⟩, hu⟩
    have hr : rest = head ++ u :: tail := by rw [← hr]; simp
    rw [idLength, hb, if_neg Bool.false_ne_true, List.findSome?_isSome_iff]
    refine ⟨head, hh, ?_⟩
    rw [hr, if_pos (by simp), List.drop_left]
    dsimp only
    rw [if_pos hu]
    rfl

theorem heads_ascii : heads.all fun head => head.all (·.toNat < 128) := by
  decide +kernel

theorem mem_heads {head : Text} (h : head ∈ heads) : ∃ u tail, head = u :: tail ∧ isWord u ∧
    ∀ v ∈ head, v.toNat < 128 := by
  have ascii : ∀ v ∈ head, v.toNat < 128 := by simpa using List.all_eq_true.mp heads_ascii head h
  rw [heads, List.mem_cons, List.mem_singleton] at h
  cases h
  case inl h => exact ⟨0x72, text "un_", h, rfl, ascii⟩
  case inr h => exact ⟨0x65, text "pisode_", h, rfl, ascii⟩

theorem ascii_of_isAlphanumeric (h : isAlphanumeric u) : u.toNat < 128 := by
  simp only [isAlphanumeric, Bool.or_eq_true, Bool.and_eq_true, decide_eq_true_eq, UInt16.le_iff_toNat_le] at h
  have : (0x5A : UInt16).toNat = 90 ∧ (0x7A : UInt16).toNat = 122 ∧ (0x39 : UInt16).toNat = 57 := by decide
  omega

-- Where an identifier ends, no word character follows.
theorem after_idLength (h : idLength b rest = some n) : 0 < n ∧ ∀ v ∈ (rest.drop n).head?, isWord v = false := by
  have ⟨_, head, hh, u, tail, hr, hu, hn⟩ := idLength_eq_some h
  have ⟨_, _, hhead, _, _⟩ := mem_heads hh
  constructor
  case left =>
    rw [hn, hhead, List.length_cons]
    exact Nat.lt_of_lt_of_le (Nat.succ_pos _) (Nat.le_add_right _ _)
  case right =>
    have hs₁ : (u :: tail).takeWhile isIdPart ++ (u :: tail).dropWhile isIdPart = u :: tail :=
      List.takeWhile_append_dropWhile
    have hd := List.head?_dropWhile_not isIdPart (u :: tail)
    generalize (u :: tail).takeWhile isIdPart = run, (u :: tail).dropWhile isIdPart = after at hn hs₁ hd
    have hs₂ : run.rdropWhile (· = 0x2D) ++ run.rtakeWhile (· = 0x2D) = run := List.rdropWhile_append_rtakeWhile
    have hh : ∀ v ∈ run.rtakeWhile (· = 0x2D), v = 0x2D := fun v hv => by simpa using List.mem_rtakeWhile_imp hv
    generalize run.rtakeWhile (· = 0x2D) = hyphens at hs₂ hh
    rw [hr, hn, ← List.drop_drop, List.drop_left, ← hs₁, ← hs₂, List.append_assoc, hs₂, ← hs₂, List.drop_left]
    intro v hv
    cases hyphens
    case cons h t =>
      cases hv
      rw [hh v List.mem_cons_self]
      rfl
    case nil =>
      rw [List.nil_append, Option.mem_def] at hv
      simp only [hv] at hd
      simp only [isIdPart, Bool.or_eq_false_iff] at hd
      exact hd.left

def placeholder : Text :=
  text "内部引用"

-- The text that the pieces become
def join (pieces : List (Option UInt16)) : Text :=
  pieces.flatMap fun piece => match piece with
    | none   => placeholder
    | some u => [u]

theorem replaceIds_eq : replaceIds s = join (split s) := rfl

-- Whatever of the result holds nothing of the placeholder stood in the text.
theorem prefix_of_join {q : Text} (hq : ∀ v ∈ q, v.toNat < 128) (h : q <+: join (splitFrom 0 b s)) : q <+: s := by
  induction q generalizing b s
  case nil => exact List.nil_prefix
  case cons v q hi =>
    cases s
    case nil => simp [splitFrom, join] at h
    case cons u rest =>
      rw [splitFrom] at h
      cases he : idLength b (u :: rest)
      case some n =>
        simp only [he, join, List.flatMap_cons] at h
        have hv : v = 0x5185 := (List.cons_prefix_cons.mp h).left
        have := hq v List.mem_cons_self
        rw [hv] at this
        exact absurd this (by decide)
      case none =>
        simp only [he] at h
        have ⟨hv, h⟩ := List.cons_prefix_cons.mp h
        rw [hv]
        exact List.cons_prefix_cons.mpr ⟨rfl, hi (fun w hw => hq w (List.mem_cons_of_mem _ hw)) h⟩

theorem hasIdFrom_placeholder : hasIdFrom b (placeholder ++ s) = hasIdFrom false s := by
  have none {b : Bool} {v : UInt16} {t : Text} (hv : 128 ≤ v.toNat) : (idLength b (v :: t)).isSome = false := by
    rw [Bool.eq_false_iff]
    intro h
    have ⟨_, head, hh, u, hp, _⟩ := idLength_isSome.mp h
    have ⟨w, tail, he, _, ha⟩ := mem_heads hh
    rw [he] at hp
    have hw : w = v := (List.cons_prefix_cons.mp hp).left
    have := ha w (he ▸ List.mem_cons_self)
    rw [hw] at this
    omega
  have e : placeholder ++ s = 0x5185 :: 0x90E8 :: 0x5F15 :: 0x7528 :: s := rfl
  rw [e, hasIdFrom, hasIdFrom, hasIdFrom, hasIdFrom, none (by decide), none (by decide), none (by decide),
    none (by decide)]
  rfl

-- The boundaries at the head of what is left are the same before and after, or no word starts there.
theorem hasIdFrom_join (h₀ : skip = 0 → b = b' ∨ ∀ v ∈ s.head?, isWord v = false)
    (h₁ : skip ≠ 0 → b' = false ∧ ∀ v ∈ (s.drop skip).head?, isWord v = false) :
    hasIdFrom b' (join (splitFrom skip b s)) = false := by
  induction s generalizing skip b b'
  case nil => rfl
  case cons u rest hi =>
    cases skip
    case succ skip =>
      rw [splitFrom]
      have ⟨hb, h⟩ := h₁ (Nat.succ_ne_zero _)
      exact hi (fun e => .inr (by simpa [e] using h)) fun _ => ⟨hb, h⟩
    case zero =>
      rw [splitFrom]
      cases he : idLength b (u :: rest)
      case some n =>
        have ⟨hn, h⟩ := after_idLength he
        obtain ⟨n, e⟩ : ∃ m, n = m + 1 := ⟨n - 1, by omega⟩
        cases e
        have ej : join (none :: splitFrom n (isWord u) rest) = placeholder ++ join (splitFrom n (isWord u) rest) := rfl
        simp only [Nat.add_sub_cancel]
        rw [ej, hasIdFrom_placeholder]
        exact hi (fun e => .inr (by simpa [e] using h)) fun _ => ⟨rfl, h⟩
      case none =>
        have ej : join (some u :: splitFrom 0 (isWord u) rest) = u :: join (splitFrom 0 (isWord u) rest) := rfl
        simp only
        rw [ej, hasIdFrom, Bool.or_eq_false_iff]
        refine ⟨Bool.eq_false_iff.mpr fun hs => ?_, hi (fun _ => .inl rfl) fun h => absurd rfl h⟩
        have ⟨hb, head, hh, x, hp, hx⟩ := idLength_isSome.mp hs
        have ⟨w, tail, e, hw, ha⟩ := mem_heads hh
        rw [e, List.cons_append] at hp
        have ⟨hwu, hp⟩ := List.cons_prefix_cons.mp hp
        have hb' : b = false := by
          obtain h | h := h₀ rfl
          case inl => rw [h, hb]
          case inr =>
            rw [← hwu] at h
            have := h w rfl
            rw [hw] at this
            cases this
        have hp : tail ++ [x] <+: rest := by
          apply prefix_of_join _ hp
          intro v hv
          cases List.mem_append.mp hv
          case inl hv => exact ha v (e ▸ List.mem_cons_of_mem _ hv)
          case inr hv => exact List.mem_singleton.mp hv ▸ ascii_of_isAlphanumeric hx
        have : (idLength b (u :: rest)).isSome := idLength_isSome.mpr ⟨hb', head, hh, x, by
          rw [e, hwu]
          exact List.cons_prefix_cons.mpr ⟨rfl, hp⟩, hx⟩
        rw [he] at this
        cases this

theorem hasIdFrom_take {p : Text} {e : UInt16} (hp : p <+: s) (he : 128 ≤ e.toNat) (h : hasIdFrom b s = false) :
    hasIdFrom b (p ++ [e]) = false := by
  -- what is matched in the shorter text is matched in the longer one
  have shorter {b : Bool} {p s : Text} (hp : p <+: s) (h : (idLength b (p ++ [e])).isSome) : (idLength b s).isSome := by
    have ⟨hb, head, hh, x, hx, ha⟩ := idLength_isSome.mp h
    refine idLength_isSome.mpr ⟨hb, head, hh, x, ?_, ha⟩
    obtain e' | h := List.prefix_concat_iff.mp hx
    case inr => exact h.trans hp
    case inl =>
      have : x = e := by simpa using congrArg List.getLast? e'
      rw [← this] at he
      have := ascii_of_isAlphanumeric ha
      omega
  induction p generalizing b s
  case nil =>
    rw [List.nil_append, hasIdFrom, hasIdFrom, Bool.or_false, Bool.eq_false_iff]
    intro hs
    have ⟨_, head, hh, x, hx, _⟩ := idLength_isSome.mp hs
    have ⟨w, tail, e', _, ha⟩ := mem_heads hh
    rw [e'] at hx
    have hw : w = e := (List.cons_prefix_cons.mp hx).left
    have := ha w (e' ▸ List.mem_cons_self)
    rw [hw] at this
    omega
  case cons u p hi =>
    have ⟨rest, hr⟩ := hp
    cases hr
    rw [List.cons_append, hasIdFrom, Bool.or_eq_false_iff] at h ⊢
    refine ⟨Bool.eq_false_iff.mpr fun hs => ?_, hi ⟨rest, rfl⟩ h.right⟩
    rw [← List.cons_append] at hs
    exact Bool.eq_false_iff.mp h.left <| shorter ⟨rest, rfl⟩ hs

theorem hasId_cleanText : hasId (cleanText s) = false := by
  have h : hasId (replaceIds s) = false := hasIdFrom_join (fun _ => .inl rfl) fun h => absurd rfl h
  rw [cleanText]
  split
  case isTrue => exact h
  case isFalse => exact hasIdFrom_take (List.take_prefix _ _) (by decide) h

-- A text without identifiers stays as it is, and so does every text that differs from it in identifiers only.
theorem split_of_clean (h : hasIdFrom b s = false) : splitFrom 0 b s = s.map some := by
  induction s generalizing b
  case nil => rfl
  case cons u rest hi =>
    rw [hasIdFrom, Bool.or_eq_false_iff] at h
    have he : idLength b (u :: rest) = none := by simpa using h.left
    rw [splitFrom, he]
    simp only [hi h.right, List.map_cons]

theorem eq_of_split {t : Text} (h : splitFrom 0 b s = t.map some) : s = t := by
  induction s generalizing b t
  case nil =>
    cases t
    case nil => rfl
    case cons => cases h
  case cons u rest hi =>
    rw [splitFrom] at h
    cases he : idLength b (u :: rest)
    case some n =>
      simp only [he] at h
      cases t
      case nil => cases h
      case cons => cases h
    case none =>
      simp only [he] at h
      cases t
      case nil => cases h
      case cons v t =>
        have ⟨e, h⟩ := List.cons.inj h
        rw [Option.some.inj e, hi h]

end SubagentReturn
