import V8AgentOs.Canvas.Document
import V8AgentOs.Lib.UndoLog
import V8AgentOs.Python.Equality

-- core/creative_canvas_graph.py: the stored graph of a session with its commands, `save_graph` and `apply_history`.
namespace Canvas

open Python (Dict Json)
open UndoLog (Entry)

-- `_graph_without_viewport`
def graphWithoutViewport (d : Document) : Json :=
  .dict [("nodes", .list (d.nodes.map .dict)), ("edges", .list (d.edges.map .dict))]

-- Whether `_command_delta` finds nothing
def unchanged (before after : Document) : Bool :=
  (graphWithoutViewport before).eq (graphWithoutViewport after)

-- The direction of a command with the `target_command_id`
inductive Direction
  | forward
  | undo (target : String)
  | redo (target : String)

structure Command where
  commandId : String
  direction : Direction
  before    : Document
  after     : Document

def Command.entry (c : Command) : Entry String :=
  match c.direction with
  | .forward     => .forward c.commandId
  | .undo target => .undo target
  | .redo target => .redo target

structure Graph where
  graphId  : String
  revision : ℕ
  document : Document

-- The row of a session in `creative_canvas_graphs`, and its commands in the order of their sequence numbers
structure Store where
  graph    : Option Graph
  commands : List Command

def Store.empty : Store := ⟨none, []⟩

def maxCommandHistory : ℕ := 120

-- `_history_stacks`
def historyStacks (rows : List Command) : UndoLog.Stacks String :=
  UndoLog.replay (rows.map (·.entry))

-- `_insert_history_command`
def insertHistoryCommand (rows : List Command) (c : Command) : List Command :=
  lastOf maxCommandHistory (rows ++ [c])

def Store.revision (s : Store) : ℕ :=
  s.graph.elim 0 (·.revision)

-- What is stored, an empty graph at first
def Store.document (s : Store) (graphId : String) : Document :=
  s.graph.elim (.empty graphId) (·.document)

-- What a call of `save_graph` or `apply_history` finds: whether a run of the session is active, which resources are
-- available, and the id that a command gets.
structure Call where
  active    : Bool
  available : Dict → Bool
  commandId : String

-- `save_graph`, under the graph id that it read or made before its transaction
def saveGraph (r : Rules) (call : Call) (graphId : String) (graph : Dict) (expectedRevision : ℤ) (s : Store) :
    Option Store := do
  let normalized ← r.validateGraph call.available (graph.set "graphId" (.str graphId))
  let persisted := s.graph.elim graphId (·.graphId)
  let before := { s.document persisted with graphId := persisted }
  let after := { normalized with graphId := persisted }
  if call.active ∨ expectedRevision ≠ s.revision then none
  else some {
    graph    := some ⟨persisted, s.revision + 1, after⟩
    commands := if unchanged before after then s.commands
                else insertHistoryCommand s.commands ⟨call.commandId, .forward, before, after⟩ }

inductive Way
  | undo
  | redo

def Way.stack : Way → UndoLog.Stacks String → List String
  | .undo, history => history.undo
  | .redo, history => history.redo

def Way.direction : Way → String → Direction
  | .undo, target => .undo target
  | .redo, target => .redo target

-- The graph that a command had there
def Way.graph : Way → Command → Document
  | .undo, target => target.before
  | .redo, target => target.after

-- `apply_history`
def applyHistory (r : Rules) (call : Call) (way : Way) (expectedRevision : ℤ) (s : Store) : Option Store := do
  let row ← s.graph
  if call.active ∨ expectedRevision ≠ row.revision then none
  let targetId ← (way.stack (historyStacks s.commands)).head?
  let target ← s.commands.find? (·.commandId = targetId)
  let normalized ← r.validateGraph call.available { way.graph target with graphId := row.graphId }.toDict
  let after := { normalized with graphId := row.graphId }
  some {
    graph    := some ⟨row.graphId, row.revision + 1, after⟩
    commands := insertHistoryCommand s.commands ⟨call.commandId, way.direction targetId, row.document, after⟩ }

end Canvas
