import V8AgentOs.Lib.Incremental
import V8AgentOs.Python.Re
import V8AgentOs.Python.Str

-- core/model_text_protocol.py
--
-- A text is the list of its code points.
namespace ModelText

open Incremental Python

def isNameChar (c : Char) : Bool :=
  c.isAlphanum || c == '_' || c == '-'

-- `\]<\][A-Za-z0-9_-]{1,40}\[>\[`
def wrapper : Re :=
  .seq (.lit "]<]".toList) (.seq (.chars isNameChar 1 40) (.lit "[>[".toList))

-- `\]<\][A-Za-z0-9_-]{0,40}(?:\[|\[>)?`
def wrapperStart : Re :=
  .seq (.lit "]<]".toList)
    (.seq (.chars isNameChar 0 40) (.opt (.alt (.lit "[".toList) (.lit "[>".toList))))

def toolOpen : List Char := "<tool_call>".toList

def isBlankOrTab (c : Char) : Bool := c == ' ' || c == '\t'

-- `(?: {0,3}> ?)*[ \t]{0,3}(?:(?:[-+*]|\d{1,9}[.)]) +)?`
def fenceLeader : Re :=
  .seq (.star (.seq (.chars (· == ' ') 0 3) (.seq (.lit ['>']) (.opt (.lit [' '])))))
    (.seq (.chars isBlankOrTab 0 3)
      (.opt (.seq
        (.alt (.chars (fun c => c == '-' || c == '+' || c == '*') 1 1)
          (.seq (.chars isDecimal 1 9) (.chars (fun c => c == '.' || c == ')') 1 1)))
        (.many1 (· == ' ')))))

-- `str.lower`, on the characters that decide about `<tool_call>`: no character outside ASCII has
-- one of its letters as (the start of) its lower case.
def lower (text : List Char) : List Char :=
  text.map Char.toLower

def isProtocol (text : List Char) : Bool :=
  toolOpen.isPrefixOf (lower text) || wrapper.isMatch text

def isPartial (text : List Char) : Bool :=
  (lower text).isPrefixOf toolOpen ||
  (text.isPrefixOf "]<]".toList || wrapperStart.isFullMatch text)

-- A partial protocol token at the end of the text that counts as a leak.
def isCutProtocol (text : List Char) : Bool :=
  "<tool_call".toList.isPrefixOf (lower text) || "]<]".toList.isPrefixOf text

-- `remainder`: the text between a possible closing fence and the end of its line.
def remainder (after : List Char) : List Char :=
  after.takeWhile (· ≠ '\n')

@[ext]
structure NativeToolTextGuard where
  enabled    : Bool
  pending    : List Char
  codeTicks  : ℕ
  fence      : Option (Char × ℕ)
  linePrefix : List Char
  indented   : Bool
  escaped    : Bool
  leaked     : Bool
  deriving DecidableEq

namespace NativeToolTextGuard

def init (enabled : Bool) : NativeToolTextGuard where
  enabled := enabled
  pending := []
  codeTicks := 0
  fence := none
  linePrefix := []
  indented := false
  escaped := false
  leaked := false

def setPending (g : NativeToolTextGuard) (text : List Char) : NativeToolTextGuard :=
  { g with pending := text }

def advanceChar (g : NativeToolTextGuard) (char : Char) : NativeToolTextGuard :=
  if char = '\n' then
    { g with
      codeTicks := if isBlank g.linePrefix ∧ g.fence.isNone then 0 else g.codeTicks
      linePrefix := []
      indented := false
      escaped := false }
  else if g.linePrefix.length < 128 then { g with linePrefix := g.linePrefix ++ [char] }
  else g

def advance (g : NativeToolTextGuard) (text : List Char) : NativeToolTextGuard :=
  text.foldl advanceChar g

-- The start of an iteration: a line that begins with four columns of white space is a code block.
def observe (g : NativeToolTextGuard) : NativeToolTextGuard :=
  if g.linePrefix ≠ [] ∧ isBlank g.linePrefix ∧ 4 ≤ expandedLength 4 g.linePrefix then
    { g with indented := true }
  else g

-- Inside a code span, a fence or an indented block nothing is protocol text.
def inCode (g : NativeToolTextGuard) : Bool :=
  g.codeTicks ≠ 0 || g.fence.isSome || g.indented

def atFence (g : NativeToolTextGuard) : Bool :=
  fenceLeader.isFullMatch g.linePrefix

-- Emits the character `c` and what follows it in the same token.
def emitToken (g : NativeToolTextGuard) (c : Char) (more : List Char) :
    Verdict NativeToolTextGuard Char :=
  .emit more.length (c :: more) (g.advance (c :: more))

-- A run of `count` ticks, followed by `after`, closes the open fence.
def closesFence (g : NativeToolTextGuard) (c : Char) (count : ℕ) (after : List Char) : Bool :=
  match g.fence with
  | some (fenceChar, fenceCount) =>
    c = fenceChar ∧ fenceCount ≤ count ∧ g.atFence ∧ isBlank (remainder after)
  | none => false

def endRun (g : NativeToolTextGuard) (c : Char) (count : ℕ) (closes : Bool) : NativeToolTextGuard :=
  if g.fence.isSome then
    if closes then { g with fence := none } else g
  else if 3 ≤ count ∧ g.atFence ∧ g.codeTicks = 0 then { g with fence := some (c, count) }
  else if c = '`' then
    { g with codeTicks :=
        if count = g.codeTicks then 0 else if g.codeTicks ≠ 0 then g.codeTicks else count }
  else g

-- A complete run of the tick `c`; whether it closes a fence is known at the end of its line.
def tickRun (final : Bool) (g : NativeToolTextGuard) (c : Char) (run after : List Char) :
    Verdict NativeToolTextGuard Char :=
  let count := run.length + 1
  let closes := g.closesFence c count after
  if closes ∧ '\n' ∉ after ∧ !final then .wait g
  else (g.endRun c count closes).emitToken c run

def ticks (final : Bool) (g : NativeToolTextGuard) (c : Char) (rest : List Char) :
    Verdict NativeToolTextGuard Char :=
  let run := rest.takeWhile (· = c)
  let after := rest.dropWhile (· = c)
  if after = [] ∧ !final then .wait g else tickRun final g c run after

def protocol (final : Bool) (g : NativeToolTextGuard) (c : Char) (rest : List Char) :
    Verdict NativeToolTextGuard Char :=
  if isProtocol (c :: rest) then .stop { g with leaked := true }
  else if isPartial (c :: rest) then
    if !final then .wait g
    else if isCutProtocol (c :: rest) then .stop { g with leaked := true }
    else g.emitToken c []
  else g.emitToken c []

def step (final : Bool) (g : NativeToolTextGuard) (c : Char) (rest : List Char) :
    Verdict NativeToolTextGuard Char :=
  if g.escaped then { g with escaped := false }.emitToken c []
  else if c = '\\' ∧ !g.inCode then { g with escaped := true }.emitToken c []
  else if (c = '`' ∨ c = '~') ∧ !g.indented then ticks final g c rest
  else if !g.inCode ∧ (c = '<' ∨ c = ']') then protocol final g c rest
  else g.emitToken c []

-- One iteration of the loop of `feed`, at the unread text `c :: rest`.
def next : Scanner NativeToolTextGuard Char Char :=
  fun final g c rest => step final g.observe c rest

def feed (g : NativeToolTextGuard) (text : List Char) (final : Bool) :
    List Char × NativeToolTextGuard :=
  if !g.enabled then (text, g)
  else if g.leaked then ([], g)
  else
    let r := scan next final (g.setPending []) 0 (g.pending ++ text)
    (r.output, r.state.setPending r.pending)

end NativeToolTextGuard

def hasNativeToolText (text : List Char) : Bool :=
  ((NativeToolTextGuard.init true).feed text true).snd.leaked

end ModelText
