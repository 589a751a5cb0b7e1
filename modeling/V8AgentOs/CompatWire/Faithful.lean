import V8AgentOs.CompatWire.Anthropic
import V8AgentOs.CompatWire.Streams

-- The stream of the OpenAI emitter
namespace CompatWire.OpenAI

open InlineThinkStreamFilter

variable {e e₀ : Emitter} {out : List (Frame Payload)} {d : Delta}

def Delta.Ordinary : Delta → Prop
  | .content _          => True
  | .reasoningContent _ => True
  | .toolCalls _        => True
  | .role               => False
  | .empty              => False

def Emitter.payload (e : Emitter) (finishReason : Option String) (d : Delta) : Payload :=
  .chunk ⟨e.responseId, e.created, e.modelName, d, finishReason⟩

-- The role comes first, exactly one chunk has a reason to finish, and one `[DONE]` comes last.
structure WellFormed (e₀ : Emitter) (finishReason : String) (frames : List (Frame Payload)) : Prop where
  numbered : Numbered e₀.responseId frames
  shape    : ∃ deltas : List Delta, (∀ d ∈ deltas, d.Ordinary) ∧ frames.map (·.data) =
    (Delta.role :: deltas).map (e₀.payload none) ++ [e₀.payload (some finishReason) .empty, .done]

def said (frame : Frame Payload) : List Char :=
  match frame.data with
  | .chunk ⟨_, _, _, .content text, _⟩ => text
  | _                                  => []

def thought (frame : Frame Payload) : List Char :=
  match frame.data with
  | .chunk ⟨_, _, _, .reasoningContent text, _⟩ => text
  | _                                           => []

-- An emitter that has sent some frames
structure Sent (e₀ e : Emitter) (out : List (Frame Payload)) : Prop where
  head     : e.responseId = e₀.responseId ∧ e.created = e₀.created ∧ e.modelName = e₀.modelName
  counted  : e.eventCounter = out.length
  numbered : Numbered e₀.responseId out
  before   : e.roleEmitted = false → out = []
  after    : e.roleEmitted → ∃ deltas : List Delta, (∀ d ∈ deltas, d.Ordinary) ∧
    out.map (·.data) = (Delta.role :: deltas).map (e₀.payload none)

theorem Sent.numbered_frame (h : Sent e₀ e out) (data : Payload) :
    (frame data e).1.eventCounter = (out ++ (frame data e).2).length ∧
      Numbered e₀.responseId (out ++ (frame data e).2) := by
  constructor
  case left  => simp [frame, h.counted]
  case right => simp only [frame, h.head.left, h.counted]; exact h.numbered.concat data

theorem Sent.payload_eq (h : Sent e₀ e out) {reason : Option String} : e.payload reason d = e₀.payload reason d := by
  simp only [Emitter.payload, h.head]

theorem sent_filter {filter : InlineThinkStreamFilter} (h : Sent e₀ e out) :
    Sent e₀ { e with thinkFilter := filter } out :=
  ⟨h.head, h.counted, h.numbered, h.before, h.after⟩

theorem sent_ensureRole (h : Sent e₀ e out) :
    Sent e₀ (ensureRole e).1 (out ++ (ensureRole e).2) ∧ (ensureRole e).1.roleEmitted := by
  unfold ensureRole
  split
  case isTrue hr =>
    rw [List.append_nil]
    exact ⟨h, hr⟩
  case isFalse hr =>
    have hnil : out = [] := h.before (by simpa using hr)
    have hnumbered := h.numbered_frame (e.payload none .role)
    refine ⟨⟨h.head, hnumbered.left, hnumbered.right, fun hf => (by cases hf), fun _ => ?_⟩, rfl⟩
    exact ⟨[], (by simp), by simp [hnil, chunk, frame, Emitter.payload, h.head]⟩

-- A delta after the role
theorem keeps_delta (hd : d.Ordinary) : Emission.Keeps (Sent e₀) (ensureRole.andThen (chunk d none)) := by
  intro e out h
  obtain ⟨hrole, hr⟩ := sent_ensureRole h
  have hnumbered := hrole.numbered_frame ((ensureRole e).1.payload none d)
  simp only [Emission.andThen, ← List.append_assoc]
  refine ⟨hrole.head, hnumbered.left, hnumbered.right, fun hf => ?_, fun _ => ?_⟩
  case _ =>
    have hf : (ensureRole e).1.roleEmitted = false := hf
    rw [hr] at hf
    cases hf
  case _ =>
    obtain ⟨deltas, hdeltas, hdata⟩ := hrole.after hr
    refine ⟨deltas ++ [d], ?_, ?_⟩
    case _ =>
      intro d' hd'
      cases List.mem_append.mp hd'
      case inl h => exact hdeltas d' h
      case inr h => exact List.mem_singleton.mp h ▸ hd
    case _ =>
      rw [List.map_append, hdata, ← List.cons_append, List.map_append]
      congr 1
      exact congrArg (fun data => [data]) hrole.payload_eq

theorem keeps_reasoningDelta {content : List Char} : Emission.Keeps (Sent e₀) (reasoningDelta content) := by
  unfold reasoningDelta
  split
  case isTrue  => exact Emission.keeps_skip
  case isFalse => exact keeps_delta trivial

theorem keeps_contentDelta {content : List Char} : Emission.Keeps (Sent e₀) (contentDelta content) := by
  unfold contentDelta
  split
  case isTrue  => exact Emission.keeps_skip
  case isFalse => exact keeps_delta trivial

theorem keeps_say {fed : Fed} : Emission.Keeps (Sent e₀) (say fed) := by
  intro e out h
  exact keeps_reasoningDelta.andThen keeps_contentDelta _ _ (sent_filter h)

theorem keeps_textDelta {content : List Char} : Emission.Keeps (Sent e₀) (textDelta content) := by
  intro e out h
  unfold textDelta
  split
  case isTrue  => rw [List.append_nil]; exact h
  case isFalse => exact keeps_say _ _ h

theorem keeps_call {c : Call ToolCall} : Emission.Keeps (Sent e₀) (call c) := by
  cases c
  case text      => exact keeps_textDelta
  case notice    => exact keeps_textDelta
  case reasoning => exact keeps_reasoningDelta
  case tool use =>
    show Emission.Keeps _ (toolCallDelta use)
    unfold toolCallDelta
    split
    case isTrue  => exact Emission.keeps_skip
    case isFalse => exact keeps_delta trivial

theorem keeps_calls {calls : List (Call ToolCall)} : Emission.Keeps (Sent e₀) (Emission.all call calls) :=
  Emission.keeps_all fun _ _ => keeps_call

theorem sent_init (hr : e₀.roleEmitted = false) (hc : e₀.eventCounter = 0) : Sent e₀ e₀ [] :=
  ⟨⟨rfl, rfl, rfl⟩, hc, numbered_nil, fun _ => rfl, fun hf => by rw [hr] at hf; cases hf⟩

theorem wellFormed_finish {reason : String} (h : Sent e₀ e out) :
    WellFormed e₀ reason (out ++ (finish reason e).2) := by
  have hflush : Sent e₀ (flush e).1 (out ++ (flush e).2) := keeps_say _ _ h
  obtain ⟨hrole, hr⟩ := sent_ensureRole hflush
  obtain ⟨deltas, hdeltas, hdata⟩ := hrole.after hr
  let last := (ensureRole (flush e).1).1
  have hnumbered := hrole.numbered_frame (last.payload (some reason) .empty)
  simp only [finish, Emission.andThen, ← List.append_assoc]
  constructor
  case shape =>
    refine ⟨deltas, hdeltas, ?_⟩
    rw [List.map_append, List.map_append, hdata, List.append_assoc]
    congr 1
    exact congrArg (fun data => [data, Payload.done]) hrole.payload_eq
  case numbered =>
    have hcounted : last.eventCounter + 1 = _ := hnumbered.left
    have hdone := hnumbered.right.concat Payload.done
    rw [← hcounted, ← hrole.head.left] at hdone
    rw [← hrole.head.left]
    exact hdone

-- What some frames say, with the filter behind them
def heard (r : Emitter × List (Frame Payload)) : Fed :=
  ⟨r.2.flatMap said, r.2.flatMap thought, r.1.thinkFilter⟩

theorem heard_andThen {f g : Emits} : heard ((f.andThen g) e) = (heard (f e)).append (heard (g (f e).1)) := by
  simp [heard, Fed.append, Emission.andThen]

theorem heard_ensureRole : heard (ensureRole e) = .silent e.thinkFilter := by
  unfold ensureRole
  split
  case isTrue  => rfl
  case isFalse => rfl

theorem heard_delta : heard ((ensureRole.andThen (chunk d none)) e) =
    ⟨said ⟨"", e.payload none d⟩, thought ⟨"", e.payload none d⟩, e.thinkFilter⟩ := by
  have hrole : (ensureRole e).1.thinkFilter = e.thinkFilter := congrArg Fed.filter heard_ensureRole
  rw [heard_andThen, heard_ensureRole, Fed.silent_append]
  cases d
  all_goals simp [heard, chunk, frame, said, thought, Emitter.payload, hrole]

theorem heard_reasoningDelta {content : List Char} :
    heard (reasoningDelta content e) = ⟨[], content, e.thinkFilter⟩ := by
  unfold reasoningDelta
  split
  case isTrue he => rw [List.isEmpty_iff.mp he]; rfl
  case isFalse   => exact heard_delta

theorem heard_contentDelta {content : List Char} : heard (contentDelta content e) = ⟨content, [], e.thinkFilter⟩ := by
  unfold contentDelta
  split
  case isTrue he => rw [List.isEmpty_iff.mp he]; rfl
  case isFalse   => exact heard_delta

theorem heard_say {fed : Fed} : heard (say fed e) = fed := by
  unfold say
  rw [heard_andThen, heard_reasoningDelta, heard_contentDelta]
  have hfilter : (reasoningDelta fed.reasoning { e with thinkFilter := fed.filter }).1.thinkFilter = fed.filter :=
    congrArg Fed.filter heard_reasoningDelta
  simp [Fed.append, hfilter]

theorem heard_textDelta {content : List Char} (h : e.thinkFilter.Held) :
    heard (textDelta content e) = e.thinkFilter.feed content := by
  unfold textDelta
  split
  case isTrue he => rw [List.isEmpty_iff.mp he, feed_nil h]; rfl
  case isFalse   => exact heard_say

theorem heard_call {c : Call ToolCall} (h : e.thinkFilter.Held) : heard (call c e) = hear true e.thinkFilter c := by
  cases c
  case text      => exact heard_textDelta h
  case notice    => exact heard_textDelta h
  case reasoning => exact heard_reasoningDelta
  case tool use =>
    show heard (toolCallDelta use e) = _
    unfold toolCallDelta
    split
    case isTrue  => rfl
    case isFalse => exact heard_delta

theorem heard_all {calls : List (Call ToolCall)} (h : e.thinkFilter.Held) :
    heard (Emission.all call calls e) = hearAll true e.thinkFilter calls := by
  induction calls generalizing e
  case nil => rfl
  case cons c cs hi =>
    have hc : heard (call c e) = hear true e.thinkFilter c := heard_call h
    have hfilter : (call c e).1.thinkFilter = (hear true e.thinkFilter c).filter := congrArg Fed.filter hc
    have hheld : (call c e).1.thinkFilter.Held := hfilter ▸ held_hear h
    rw [Emission.all, heard_andThen, hc, hi hheld, hfilter, hearAll]

theorem heard_finish {reason : String} : heard (finish reason e) = e.thinkFilter.flush := by
  unfold finish
  have hsay : (flush e).1.thinkFilter = e.thinkFilter.flush.filter := congrArg Fed.filter heard_say
  have hrole : (ensureRole (flush e).1).1.thinkFilter = (flush e).1.thinkFilter := congrArg Fed.filter heard_ensureRole
  rw [heard_andThen, heard_andThen, heard_ensureRole, Fed.silent_append, flush, heard_say]
  exact Fed.append_silent (hrole.trans hsay).symm

-- What the stream of some calls has to be
structure Faithful (e : Emitter) (calls : List (Call ToolCall)) (finishReason : String) : Prop where
  wellFormed : WellFormed e finishReason (stream e calls finishReason)
  text       : (stream e calls finishReason).flatMap said = (total (texts calls)).visible
  reasoning  : (stream e calls finishReason).flatMap thought = thoughts true calls

-- The emitter for a response
def emitter (responseId modelName : String) (created : ℤ) : Emitter :=
  { responseId, modelName, created }

theorem faithful {responseId modelName reason : String} {created : ℤ} {calls : List (Call ToolCall)} :
    Faithful (emitter responseId modelName created) calls reason := by
  generalize he : emitter responseId modelName created = e
  have hinit : e.roleEmitted = false ∧ e.eventCounter = 0 ∧ e.thinkFilter = {} := he ▸ ⟨rfl, rfl, rfl⟩
  have hheld : e.thinkFilter.Held := hinit.right.right ▸ held_init
  have hheard : heard (((Emission.all call calls).andThen (finish reason)) e) =
      (hearAll true {} calls).append (hearAll true {} calls).filter.flush := by
    have hall : heard (Emission.all call calls e) = hearAll true {} calls := hinit.right.right ▸ heard_all hheld
    have hfilter : (Emission.all call calls e).1.thinkFilter = (hearAll true {} calls).filter :=
      congrArg Fed.filter hall
    rw [heard_andThen, heard_finish, hall, hfilter]
  constructor
  case wellFormed =>
    exact wellFormed_finish (keeps_calls _ _ (sent_init hinit.left hinit.right.left))
  case text =>
    refine (congrArg Fed.visible hheard).trans ?_
    simp only [Fed.append, total, hearAll_texts]
  case reasoning =>
    exact congrArg Fed.reasoning hheard

end CompatWire.OpenAI

-- Both emitters for the same response
namespace CompatWire

-- The emitters lose nothing, unless the filter holds a text back at the end: the flush of the Anthropic emitter gives
-- it to the filter again, and there it stays.
theorem streams_faithful_iff {responseId modelName finishReason stopReason : String} {created : ℤ} {inline : Bool}
    {calls : List (Call OpenAI.ToolCall)} {calls' : List (Call Anthropic.ToolUse)} :
    (OpenAI.Faithful (OpenAI.emitter responseId modelName created) calls finishReason ∧
      Anthropic.Faithful (Anthropic.emitter responseId modelName inline) calls' stopReason) ↔ ¬HeldBack calls' :=
  ⟨fun h => Anthropic.faithful_unless_held.mp h.right, fun h => ⟨OpenAI.faithful, Anthropic.faithful_unless_held.mpr h⟩⟩

-- A text that ends with a bracket
theorem bracket_lost :
    ¬Anthropic.Faithful (Anthropic.emitter "msg" "model" false) [.text "a <".toList] "end_turn" ∧
    (Anthropic.stream (Anthropic.emitter "msg" "model" false) [.text "a <".toList] "end_turn").flatMap
      Anthropic.said = "a ".toList ∧
    (total ["a <".toList]).visible = "a <".toList := by
  have hsaid : (Anthropic.stream (Anthropic.emitter "msg" "model" false) [.text "a <".toList] "end_turn").flatMap
      Anthropic.said = "a ".toList := by decide +kernel
  have htotal : (total ["a <".toList]).visible = "a <".toList := by decide +kernel
  refine ⟨fun h => ?_, hsaid, htotal⟩
  have htext := hsaid.symm.trans (h.text.trans htotal)
  exact absurd htext (by decide +kernel)

end CompatWire
