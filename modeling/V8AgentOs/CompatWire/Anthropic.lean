import V8AgentOs.CompatWire.Streams

-- The stream of the Anthropic emitter, as blocks
namespace CompatWire.Anthropic

open InlineThinkStreamFilter

variable {e e₀ : Emitter} {out : List (Frame Event)} {type : BlockType}

def BlockType.delta : BlockType → List Char → Delta
  | text     => .textDelta
  | thinking => .thinkingDelta

inductive Block
  | streamed (type : BlockType) (deltas : List (List Char))
  | toolUse (use : ToolUse)

namespace Block

-- The start of a block and its deltas, all of the type of the block
def body (index : ℕ) : Block → List Event
  | streamed type deltas =>
    .contentBlockStart index (.opened type) :: deltas.map fun text => .contentBlockDelta index (type.delta text)
  | toolUse use          =>
    [.contentBlockStart index (.toolUse use.wireId use.wireName),
      .contentBlockDelta index (.inputJsonDelta use.inputPayload)]

def events (index : ℕ) (b : Block) : List Event :=
  b.body index ++ [.contentBlockStop index]

end Block

-- Blocks one after the other, with their indices
def written (blocks : List Block) : List Event :=
  blocks.zipIdx.flatMap fun b => b.1.events b.2

@[simp]
theorem written_concat {blocks : List Block} {b : Block} :
    written (blocks ++ [b]) = written blocks ++ b.events blocks.length := by
  simp [written, List.zipIdx_append]

-- The message starts, its blocks follow, and then it ends.
structure WellFormed (e₀ : Emitter) (stopReason : String) (frames : List (Frame Event)) : Prop where
  numbered : Numbered e₀.responseId frames
  shape    : ∃ blocks : List Block, frames.map (·.data) =
    .messageStart e₀.responseId e₀.modelName :: written blocks ++ [.messageDelta stopReason, .messageStop]

-- The frames so far have been counted.
def Counted (e₀ e : Emitter) (out : List (Frame Event)) : Prop :=
  (e.responseId = e₀.responseId ∧ e.modelName = e₀.modelName ∧ e.emitInlineThinking = e₀.emitInlineThinking) ∧
    e.eventCounter = out.length ∧ Numbered e₀.responseId out

theorem counted_frame {event : Event} : Emission.Keeps (Counted e₀) (frame event) := by
  intro e out h
  refine ⟨h.left, ?counter, ?numbered⟩
  case counter  => simp [frame, h.right.left]
  case numbered => simp only [frame, h.left.left, h.right.left]; exact h.right.right.concat event

-- A block that is open, with its deltas so far
abbrev Current := Option (BlockType × List (List Char))

def Current.block (current : Current) : Option Block :=
  current.map fun c => .streamed c.1 c.2

-- An emitter that has written some blocks and is inside another one
structure Writes (e₀ e : Emitter) (out : List (Frame Event)) (blocks : List Block) (current : Current) : Prop where
  counted : Counted e₀ e out
  next    : e.nextBlockIndex = blocks.length + current.toList.length
  index   : e.activeBlockIndex = current.map fun _ => blocks.length
  type    : e.activeBlockType = current.map (·.1)
  data    : out.map (·.data) = .messageStart e₀.responseId e₀.modelName :: written blocks ++
    current.block.toList.flatMap (·.body blocks.length)

def Sent (e₀ e : Emitter) (out : List (Frame Event)) : Prop :=
  ∃ blocks current, Writes e₀ e out blocks current

variable {blocks : List Block} {current : Current} {deltas : List (List Char)}

theorem writes_closeActiveBlock (h : Writes e₀ e out blocks current) :
    Writes e₀ (closeActiveBlock e).1 (out ++ (closeActiveBlock e).2) (blocks ++ current.block.toList) none := by
  unfold closeActiveBlock
  cases current
  case none =>
    simp only [h.index, Option.map_none, List.append_nil, Current.block, Option.toList_none]
    exact h
  case some c =>
    simp only [h.index, Option.map_some]
    constructor
    case counted => exact counted_frame _ _ h.counted
    case next    => simp [frame, h.next, Current.block]
    case index   => rfl
    case type    => rfl
    case data    => simp [frame, h.data, Current.block, Block.events]

theorem writes_openBlock (h : Writes e₀ e out blocks current) :
    Writes e₀ (openBlock type e).1 (out ++ (openBlock type e).2) (blocks ++ current.block.toList)
      (some (type, [])) := by
  have hclosed := writes_closeActiveBlock h
  have hnext : (closeActiveBlock e).1.nextBlockIndex = (blocks ++ current.block.toList).length := hclosed.next
  simp only [openBlock, Emission.andThen, ← List.append_assoc]
  constructor
  case counted => exact counted_frame _ _ hclosed.counted
  case next    => simp only [frame, hnext]; rfl
  case index   => simp only [frame, hnext]; rfl
  case type    => rfl
  case data    =>
    rw [List.map_append, hclosed.data]
    simp [frame, hnext, Current.block, Block.body]

theorem writes_ensureBlock (h : Sent e₀ e out) : ∃ blocks deltas,
    Writes e₀ (ensureBlock type e).1 (out ++ (ensureBlock type e).2) blocks (some (type, deltas)) := by
  obtain ⟨blocks, current, h⟩ := h
  unfold ensureBlock
  split
  case isFalse => exact ⟨_, _, writes_openBlock h⟩
  case isTrue ha =>
    rw [List.append_nil]
    cases current
    case none => simp [h.index] at ha
    case some c =>
      have htype : c.1 = type := by simpa [h.index, h.type] using ha
      exact ⟨blocks, c.2, htype ▸ h⟩

theorem writes_blockDelta {text : List Char} (h : Writes e₀ e out blocks (some (type, deltas))) :
    Writes e₀ (blockDelta (type.delta text) e).1 (out ++ (blockDelta (type.delta text) e).2) blocks
      (some (type, deltas ++ [text])) := by
  constructor
  case counted => exact counted_frame _ _ h.counted
  case next    => exact h.next
  case index   => exact h.index
  case type    => exact h.type
  case data    => simp [blockDelta, frame, h.data, h.index, Current.block, Block.body]

-- A delta in a block of its type
theorem keeps_delta {text : List Char} :
    Emission.Keeps (Sent e₀) ((ensureBlock type).andThen (blockDelta (type.delta text))) := by
  intro e out h
  obtain ⟨blocks, deltas, hensured⟩ := writes_ensureBlock h
  simp only [Emission.andThen, ← List.append_assoc]
  exact ⟨blocks, _, writes_blockDelta hensured⟩

theorem keeps_thinkingDelta {content : List Char} : Emission.Keeps (Sent e₀) (thinkingDelta content) := by
  unfold thinkingDelta
  split
  case isTrue  => exact Emission.keeps_skip
  case isFalse => exact @keeps_delta e₀ .thinking content

theorem keeps_visibleDelta {content : List Char} : Emission.Keeps (Sent e₀) (visibleDelta content) := by
  unfold visibleDelta
  split
  case isTrue  => exact Emission.keeps_skip
  case isFalse => exact @keeps_delta e₀ .text content

theorem keeps_inlineThinking {reasoning : List Char} : Emission.Keeps (Sent e₀) (inlineThinking reasoning) := by
  intro e out h
  unfold inlineThinking
  split
  case isTrue  => exact keeps_thinkingDelta _ _ h
  case isFalse => rw [List.append_nil]; exact h

theorem sent_filter {filter : InlineThinkStreamFilter} (h : Sent e₀ e out) :
    Sent e₀ { e with thinkFilter := filter } out := by
  obtain ⟨blocks, current, h⟩ := h
  exact ⟨blocks, current, h.counted, h.next, h.index, h.type, h.data⟩

theorem keeps_textDelta {content : List Char} : Emission.Keeps (Sent e₀) (textDelta content) := by
  intro e out h
  unfold textDelta
  split
  case isTrue  => rw [List.append_nil]; exact h
  case isFalse => exact keeps_inlineThinking.andThen keeps_visibleDelta _ _ (sent_filter h)

theorem writes_toolBlock {use : ToolUse} (h : Writes e₀ e out blocks none) :
    Writes e₀ (toolBlock use e).1 (out ++ (toolBlock use e).2) (blocks ++ [.toolUse use]) none := by
  have hnext : e.nextBlockIndex = blocks.length := h.next
  constructor
  case counted => exact (counted_frame.andThen (counted_frame.andThen counted_frame)) _ _ h.counted
  case next    => simp [toolBlock, Emission.andThen, frame, hnext]
  case index   => exact h.index
  case type    => exact h.type
  case data    => simp [toolBlock, Emission.andThen, frame, h.data, hnext, Current.block, Block.events, Block.body]

theorem keeps_toolUse {use : ToolUse} : Emission.Keeps (Sent e₀) (toolUse use) := by
  unfold toolUse
  split
  case isTrue  => exact Emission.keeps_skip
  case isFalse =>
    intro e out h
    obtain ⟨blocks, current, h⟩ := h
    simp only [Emission.andThen, ← List.append_assoc]
    exact ⟨_, none, writes_toolBlock (writes_closeActiveBlock h)⟩

theorem keeps_flush : Emission.Keeps (Sent e₀) flush := by
  intro e out h
  exact keeps_inlineThinking.andThen keeps_textDelta _ _ (sent_filter h)

theorem keeps_call {c : Call ToolUse} : Emission.Keeps (Sent e₀) (call c) := by
  cases c
  case text      => exact keeps_textDelta
  case notice    => exact keeps_textDelta
  case reasoning => exact keeps_thinkingDelta
  case tool      => exact keeps_toolUse

theorem keeps_calls {calls : List (Call ToolUse)} : Emission.Keeps (Sent e₀) (Emission.all call calls) :=
  Emission.keeps_all fun _ _ => keeps_call

theorem wellFormed_finish {reason : String} (h : Sent e₀ e out) :
    WellFormed e₀ reason (out ++ (finish reason e).2) := by
  obtain ⟨blocks, current, hflush⟩ := keeps_flush _ _ h
  have hclosed := writes_closeActiveBlock hflush
  have hend : Emission.Keeps (Counted e₀) ((frame (.messageDelta reason)).andThen (frame .messageStop)) :=
    counted_frame.andThen counted_frame
  have hcounted := hend _ _ hclosed.counted
  simp only [finish, Emission.andThen, ← List.append_assoc] at hcounted ⊢
  constructor
  case numbered => exact hcounted.right.right
  case shape    =>
    refine ⟨blocks ++ current.block.toList, ?_⟩
    rw [List.map_append, List.map_append, hclosed.data]
    simp [frame, Current.block]

def said (frame : Frame Event) : List Char :=
  match frame.data with
  | .contentBlockDelta _ (.textDelta text) => text
  | _                                      => []

def thought (frame : Frame Event) : List Char :=
  match frame.data with
  | .contentBlockDelta _ (.thinkingDelta thinking) => thinking
  | _                                              => []

-- What some frames say, with the filter behind them
def heard (r : Emitter × List (Frame Event)) : Fed :=
  ⟨r.2.flatMap said, r.2.flatMap thought, r.1.thinkFilter⟩

theorem heard_andThen {f g : Emits} : heard ((f.andThen g) e) = (heard (f e)).append (heard (g (f e).1)) := by
  simp [heard, Fed.append, Emission.andThen]

theorem filter_closeActiveBlock : (closeActiveBlock e).1.thinkFilter = e.thinkFilter := by
  unfold closeActiveBlock
  split
  case h_1 => rfl
  case h_2 => rfl

theorem heard_closeActiveBlock : heard (closeActiveBlock e) = .silent e.thinkFilter := by
  unfold closeActiveBlock
  split
  case h_1 => rfl
  case h_2 => rfl

theorem heard_openBlock : heard (openBlock type e) = .silent e.thinkFilter := by
  refine heard_andThen.trans ?_
  rw [heard_closeActiveBlock, Fed.silent_append]
  simp [heard, frame, said, thought, Fed.silent, filter_closeActiveBlock]

theorem heard_ensureBlock : heard (ensureBlock type e) = .silent e.thinkFilter := by
  unfold ensureBlock
  split
  case isTrue  => rfl
  case isFalse => exact heard_openBlock

theorem heard_delta {text : List Char} : heard (((ensureBlock type).andThen (blockDelta (type.delta text))) e) =
    match type with
    | .text     => ⟨text, [], e.thinkFilter⟩
    | .thinking => ⟨[], text, e.thinkFilter⟩ := by
  have hensured : (ensureBlock type e).1.thinkFilter = e.thinkFilter := congrArg Fed.filter heard_ensureBlock
  rw [heard_andThen, heard_ensureBlock, Fed.silent_append]
  cases type
  case text     => simp [heard, blockDelta, frame, said, thought, BlockType.delta, hensured]
  case thinking => simp [heard, blockDelta, frame, said, thought, BlockType.delta, hensured]

theorem heard_thinkingDelta {content : List Char} : heard (thinkingDelta content e) = ⟨[], content, e.thinkFilter⟩ := by
  unfold thinkingDelta
  split
  case isTrue he => rw [List.isEmpty_iff.mp he]; rfl
  case isFalse   => exact @heard_delta e .thinking content

theorem heard_visibleDelta {content : List Char} : heard (visibleDelta content e) = ⟨content, [], e.thinkFilter⟩ := by
  unfold visibleDelta
  split
  case isTrue he => rw [List.isEmpty_iff.mp he]; rfl
  case isFalse   => exact @heard_delta e .text content

theorem heard_inlineThinking {reasoning : List Char} : heard (inlineThinking reasoning e) =
    ⟨[], if e.emitInlineThinking then reasoning else [], e.thinkFilter⟩ := by
  unfold inlineThinking
  split
  case isTrue  => exact heard_thinkingDelta
  case isFalse => rfl

theorem heard_textDelta {content : List Char} (h : e.thinkFilter.Held) :
    heard (textDelta content e) = (e.thinkFilter.feed content).told e.emitInlineThinking := by
  unfold textDelta
  split
  case isTrue he => rw [List.isEmpty_iff.mp he, feed_nil h]; simp [heard, Fed.told]
  case isFalse   =>
    let fed := e.thinkFilter.feed content
    have hinline : (inlineThinking fed.reasoning { e with thinkFilter := fed.filter }).1.thinkFilter = fed.filter :=
      congrArg Fed.filter heard_inlineThinking
    simp only [heard_andThen, heard_inlineThinking, heard_visibleDelta]
    simp only [Fed.append, Fed.told, List.nil_append, List.append_nil]
    rw [hinline]

theorem heard_toolUse {use : ToolUse} : heard (toolUse use e) = .silent e.thinkFilter := by
  unfold toolUse
  split
  case isTrue  => rfl
  case isFalse =>
    rw [heard_andThen, heard_closeActiveBlock, Fed.silent_append, ← filter_closeActiveBlock]
    rfl

theorem heard_call {c : Call ToolUse} (h : e.thinkFilter.Held) :
    heard (call c e) = hear e.emitInlineThinking e.thinkFilter c := by
  cases c
  case text      => exact heard_textDelta h
  case notice    => exact heard_textDelta h
  case reasoning => exact heard_thinkingDelta
  case tool      => exact heard_toolUse

-- The flush emits no text, whatever the filter has held back: the filter holds it back again.
theorem heard_flush (h : e.thinkFilter.Held) : (heard (flush e)).visible = [] ∧
    (heard (flush e)).reasoning = (e.thinkFilter.flush.told e.emitInlineThinking).reasoning := by
  let fed := e.thinkFilter.flush
  let e' := (inlineThinking fed.reasoning { e with thinkFilter := fed.filter }).1
  have hfilter : e'.thinkFilter = fed.filter := congrArg Fed.filter heard_inlineThinking
  have hpending : e'.thinkFilter.pending = [] := hfilter ▸ flush_filter.left
  have hinside : e'.thinkFilter.insideThink = e.thinkFilter.insideThink := hfilter ▸ flush_filter.right
  have hagain : ∃ f', e'.thinkFilter.feed fed.visible = .silent f' := by
    have hvisible : fed.visible = if e.thinkFilter.insideThink then [] else e.thinkFilter.pending := flush_visible h
    cases hi : e.thinkFilter.insideThink
    case true =>
      rw [hvisible, hi, if_pos rfl]
      exact ⟨_, feed_nil (held_of_nil hpending)⟩
    case false =>
      rw [hvisible, hi, if_neg Bool.false_ne_true]
      have hmarker : e'.thinkFilter.marker = e.thinkFilter.marker := by
        unfold InlineThinkStreamFilter.marker
        rw [hinside]
      refine ⟨_, feed_held ?_ ?_⟩
      case _ => rw [hpending, hmarker]; exact h.left
      case _ => rw [hpending, hmarker]; exact h.right
  obtain ⟨f', hagain⟩ := hagain
  have htext : heard (textDelta fed.visible e') = _ := heard_textDelta (held_of_nil hpending)
  rw [hagain] at htext
  simp only [flush, heard_andThen, heard_inlineThinking]
  simp [Fed.append, Fed.told, fed, e', htext, Fed.silent]

theorem heard_finish {reason : String} (h : e.thinkFilter.Held) : (heard (finish reason e)).visible = [] ∧
    (heard (finish reason e)).reasoning = (e.thinkFilter.flush.told e.emitInlineThinking).reasoning := by
  have hend : ∀ e : Emitter, heard (((frame (.messageDelta reason)).andThen (frame .messageStop)) e) =
      .silent e.thinkFilter := fun _ => rfl
  unfold finish
  rw [heard_andThen, heard_andThen, heard_closeActiveBlock, hend, Fed.silent_append]
  simp only [Fed.append, Fed.silent, List.append_nil]
  exact heard_flush h

theorem heard_all {calls : List (Call ToolUse)} (hs : Sent e₀ e out) (h : e.thinkFilter.Held) :
    heard (Emission.all call calls e) = hearAll e₀.emitInlineThinking e.thinkFilter calls := by
  induction calls generalizing e out
  case nil => rfl
  case cons c cs hi =>
    obtain ⟨_, _, hwrites⟩ := id hs
    have hinline : e.emitInlineThinking = e₀.emitInlineThinking := hwrites.counted.left.right.right
    have hc : heard (call c e) = hear e₀.emitInlineThinking e.thinkFilter c := hinline ▸ heard_call h
    have hfilter : (call c e).1.thinkFilter = (hear e₀.emitInlineThinking e.thinkFilter c).filter :=
      congrArg Fed.filter hc
    have hheld : (call c e).1.thinkFilter.Held := hfilter ▸ held_hear h
    rw [Emission.all, heard_andThen, hc, hi (keeps_call _ _ hs) hheld, hfilter, hearAll]

-- The emitter for a response
def emitter (responseId modelName : String) (emitInlineThinking : Bool) : Emitter :=
  { responseId, modelName, emitInlineThinking }

variable {responseId modelName reason : String} {inline : Bool} {calls : List (Call ToolUse)}

theorem sent_messageStart : Sent (emitter responseId modelName inline)
    (messageStart (emitter responseId modelName inline)).1 (messageStart (emitter responseId modelName inline)).2 := by
  refine ⟨[], none, ?_⟩
  constructor
  case counted => exact counted_frame _ [] ⟨⟨rfl, rfl, rfl⟩, rfl, numbered_nil⟩
  case next    => rfl
  case index   => rfl
  case type    => rfl
  case data    => rfl

theorem wellFormed : WellFormed (emitter responseId modelName inline) reason
    (stream (emitter responseId modelName inline) calls reason) := by
  let e := emitter responseId modelName inline
  have hcalls : Sent e (Emission.all call calls (messageStart e).1).1
      ((messageStart e).2 ++ (Emission.all call calls (messageStart e).1).2) := keeps_calls _ _ sent_messageStart
  have hfinish : WellFormed e reason _ := wellFormed_finish hcalls
  rw [List.append_assoc] at hfinish
  exact hfinish

-- All but what the filter holds back at the end is said.
theorem heard_stream : (stream (emitter responseId modelName inline) calls reason).flatMap said =
      (feedAll {} (texts calls)).visible ∧
    (stream (emitter responseId modelName inline) calls reason).flatMap thought = thoughts inline calls := by
  let e₀ := emitter responseId modelName inline
  let e  := (Emission.all call calls (messageStart e₀).1).1
  have hall : heard (Emission.all call calls (messageStart e₀).1) = hearAll inline {} calls :=
    heard_all sent_messageStart held_init
  have hfilter : e.thinkFilter = (hearAll inline {} calls).filter := congrArg Fed.filter hall
  have hheld : e.thinkFilter.Held := by
    rw [hfilter, hearAll_texts.right]
    exact held_feedAll held_init
  have hcalls : Sent e₀ e _ := keeps_calls _ _ sent_messageStart
  obtain ⟨_, _, hwrites⟩ := hcalls
  have hinline : e.emitInlineThinking = inline := hwrites.counted.left.right.right
  have hfinish : _ ∧ (heard (finish reason e)).reasoning = _ := heard_finish hheld
  have hheard : heard ((messageStart.andThen ((Emission.all call calls).andThen (finish reason))) e₀) =
      (hearAll inline {} calls).append (heard (finish reason e)) := by
    rw [heard_andThen, heard_andThen, hall]
    rfl
  constructor
  case left =>
    refine (congrArg Fed.visible hheard).trans ?_
    rw [Fed.append, hfinish.left, List.append_nil, hearAll_texts.left]
  case right =>
    refine (congrArg Fed.reasoning hheard).trans ?_
    rw [Fed.append, hfinish.right, hfilter, hinline]
    rfl

-- What the stream of some calls has to be
structure Faithful (e : Emitter) (calls : List (Call ToolUse)) (stopReason : String) : Prop where
  wellFormed : WellFormed e stopReason (stream e calls stopReason)
  text       : (stream e calls stopReason).flatMap said = (total (texts calls)).visible
  reasoning  : (stream e calls stopReason).flatMap thought = thoughts e.emitInlineThinking calls

theorem faithful_unless_held : Faithful (emitter responseId modelName inline) calls reason ↔ ¬HeldBack calls := by
  have hheld : (feedAll {} (texts calls)).filter.Held := held_feedAll held_init
  have hflush : (total (texts calls)).visible = (feedAll {} (texts calls)).visible ↔ ¬HeldBack calls := by
    simp only [total, Fed.append, List.append_right_eq_self, flush_visible hheld, HeldBack]
    cases (feedAll {} (texts calls)).filter.insideThink
    case true  => simp
    case false => simp
  constructor
  case mp  => exact fun h => hflush.mp (h.text.symm.trans heard_stream.left)
  case mpr => exact fun h => ⟨wellFormed, heard_stream.left.trans (hflush.mpr h).symm, heard_stream.right⟩

end CompatWire.Anthropic
