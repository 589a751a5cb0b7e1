import Mathlib.Data.List.Perm.Basic
import Mathlib.Logic.Function.Basic
import V8AgentOs.Lib.Along
import V8AgentOs.Python.Dict
import V8AgentOs.Python.Numbers
import V8AgentOs.Python.Text

-- core/runtime_episode_runner.py, `_execute_local_delegation_sends`: the order in which an episode runs the tasks that
-- depend on each other.
namespace Delegation.Waves

open Python

section Sends

variable (text : Text)

def dictOf : Json → Dict
  | .dict members => members
  | _             => []

-- `source if isinstance(source, list) else [source]`
def listed : Json → List Json
  | .list items => items
  | value       => [value]

def delegationSendBranch (arg : Dict) : Dict :=
  dictOf (arg.get "parallel_branch")

def delegationSendTaskId (arg : Dict) : String :=
  let branch := delegationSendBranch arg
  let taskBrief := dictOf (branch.get "taskBrief")
  text.stripped (Python.orElse (branch.get "taskBriefId") (Python.orElse (branch.get "taskId")
    (Python.orElse (taskBrief.get "taskBriefId") (taskBrief.get "taskId"))))

def delegationSendDependencies (arg : Dict) : List String :=
  let branch := delegationSendBranch arg
  let taskBrief := dictOf (branch.get "taskBrief")
  let context := dictOf (taskBrief.get "context")
  let sources := [branch, taskBrief, context].flatMap fun d =>
    [d.get "dependency", d.get "dependencies", d.get "dependsOn"]
  (sources.flatMap listed).foldl (fun deps value =>
    let dep := text.stripped value
    if dep ≠ "" ∧ dep ∉ deps then deps ++ [dep] else deps) []

def delegationSummarySucceeded (summary : Dict) : Bool :=
  let status := text.lowered (summary.get "status")
  if ["ok", "ready", "success", "completed", "done"].contains status then true
  else if status = "degraded" then (summary.get "canContinueParent").truthy
  else if ["blocked", "error", "failed", "cancelled"].contains status then false
  else (summary.get "artifacts").truthy || (summary.get "proofRefs").truthy || (summary.get "changedFiles").truthy

-- The statuses that do not make a dependency fail
def summaryWaits (summary : Dict) : Bool :=
  ["waiting_approval", "waiting_input", "waiting", "waiting_child", "waiting_dependency"].contains
    (text.orEmpty (summary.get "status"))

def blockedDependencySummary (branch : Dict) (taskId : String) (deps : List String) (reason : String)
    (failed : List String) (completedAt : String) : Dict :=
  [("invocationId", branch.get "invocationId"),
   ("taskBriefId", Python.orElse (.str taskId) (branch.get "taskBriefId")),
   ("taskBrief", match branch.get "taskBrief" with | .dict members => .dict members | _ => .null),
   ("taskGoal", branch.get "reason"),
   ("agentId", branch.get "agentId"),
   ("agentName", Python.orElse (branch.get "agentName") (branch.get "agentId")),
   ("delegationId", branch.get "delegationId"),
   ("lane", Python.orElse (branch.get "lane") (.str "subagent")),
   ("targetId", branch.get "agentId"),
   ("targetLabel", Python.orElse (branch.get "agentName") (branch.get "agentId")),
   ("branchIndex", branch.get "branchIndex"),
   ("status", .str "blocked"),
   ("error", .str reason),
   ("dependency", .list (deps.map .str)),
   ("blockedDependencies", .list (failed.map .str)),
   ("completedAt", .str completedAt)]

end Sends

-- What lies outside the loop: the sends, what the worker of a send reports, how a direct episode is closed, and the
-- clock. `S` is the type of the sends, `W` that of the world.
structure Runner (W S ε : Type*) where
  text       : Text
  node       : S → String
  arg        : S → Dict
  worker     : W → S → (String → Option Dict) → Except ε (List Dict) × W
  finalize   : W → Dict → Dict → Except ε Unit × W
  utcNowIso  : W → String

-- How a send was settled, with what was appended to the results.
inductive Entry (S : Type*)
  | failed (send : S) (deps : List String) (summary : Dict)
  | ran (send : S) (summaries : List Dict)
  | unsatisfied (send : S) (summary : Dict)

namespace Entry

variable {S : Type*}

def send : Entry S → S
  | failed send ..    => send
  | ran send _        => send
  | unsatisfied send _ => send

def results : Entry S → List Dict
  | failed _ _ summary    => [summary]
  | ran _ summaries       => summaries
  | unsatisfied _ summary => [summary]

end Entry

structure State (W S : Type*) where
  world     : W
  pending   : List S
  completed : String → Option Dict
  entries   : List (Entry S)

variable {W S ε : Type*} [DecidableEq S] (runner : Runner W S ε)

namespace Runner

def taskId (item : S) : String :=
  delegationSendTaskId runner.text (runner.arg item)

def deps (item : S) : List String :=
  delegationSendDependencies runner.text (runner.arg item)

-- `if task_id: completed_by_task_id[task_id] = summary`
def recorded (item : S) (summaries : List Dict) (completed : String → Option Dict) : String → Option Dict :=
  match summaries.getLast? with
  | none         => completed
  | some summary =>
    if runner.taskId item = "" then completed else Function.update completed (runner.taskId item) (some summary)

-- What a settled send makes of the pending ones and the completed ones.
def settle (s : State W S) (entry : Entry S) : State W S :=
  { s with
    pending   := s.pending.erase entry.send
    completed := runner.recorded entry.send entry.results s.completed
    entries   := s.entries ++ [entry] }

def failedDeps (item : S) (completed : String → Option Dict) : List String :=
  (runner.deps item).filter fun dep =>
    match completed dep with
    | none         => false
    | some summary => !delegationSummarySucceeded runner.text summary && !summaryWaits runner.text summary

def ready (item : S) (completed : String → Option Dict) : Bool :=
  (runner.deps item).all fun dep =>
    match completed dep with
    | none         => false
    | some summary => delegationSummarySucceeded runner.text summary

def runReadySend (s : State W S) (item : S) : Except ε Unit × State W S :=
  if runner.node item ≠ "parallel_delegate_task" then (.ok (), runner.settle s (.ran item []))
  else
    match runner.worker s.world item s.completed with
    | (.error e, world)      => (.error e, { s with world := world })
    | (.ok summaries, world) => (.ok (), runner.settle { s with world := world } (.ran item summaries))

-- The summary of a send that does not run, once its episode has been closed.
def block (s : State W S) (entry : Entry S) : Except ε Unit × State W S :=
  match runner.finalize s.world (delegationSendBranch (runner.arg entry.send)) (entry.results.headD []) with
  | (.error e, world) => (.error e, { s with world := world })
  | (.ok _, world)    => (.ok (), runner.settle { s with world := world } entry)

-- `for item in list(pending)`: the sends that have a failed dependency are settled, and the first one that is ready
-- runs.
def sweep : List S → Bool → State W S → Except ε Bool × State W S
  | [], progressed, s            => (.ok progressed, s)
  | item :: items, progressed, s =>
    let failed := runner.failedDeps item s.completed
    if failed ≠ [] then
      let summary := blockedDependencySummary (delegationSendBranch (runner.arg item)) (runner.taskId item)
        (runner.deps item) "dependency_failed" failed (runner.utcNowIso s.world)
      match runner.block s (.failed item failed summary) with
      | (.error e, s) => (.error e, s)
      | (.ok _, s)    => sweep items true s
    else if !runner.ready item s.completed then sweep items progressed s
    else
      match runner.runReadySend s item with
      | (.error e, s) => (.error e, s)
      | (.ok _, s)    => (.ok true, s)

def unsatisfiedSummary (s : State W S) (item : S) : Dict :=
  let deps := runner.deps item
  let missing := deps.filter fun dep => (s.completed dep).isNone
  let summary := blockedDependencySummary (delegationSendBranch (runner.arg item)) (runner.taskId item) deps
    "dependency_not_satisfied" missing (runner.utcNowIso s.world)
  let awaiting := (deps.filterMap s.completed).filter fun summary =>
    "waiting".toList <+: (runner.text.orEmpty (summary.get "status")).toList
  if awaiting = [] then summary
  else
    summary.merge
      [("status", .str "waiting_dependency"), ("error", .str "dependency_waiting"), ("completedAt", .null),
       ("waitingDependencyEpisodeIds", .list (awaiting.map (·.get "delegationId")))]

-- Nothing has progressed: the sends that are left do not run.
def giveUp : List S → State W S → Except ε Unit × State W S
  | [], s            => (.ok (), s)
  | item :: items, s =>
    match runner.block s (.unsatisfied item (runner.unsatisfiedSummary s item)) with
    | (.error e, s) => (.error e, s)
    | (.ok _, s)    => giveUp items s

-- `while pending`. Every turn settles a send.
def turns : ℕ → State W S → Except ε Unit × State W S
  | 0, s        => (.ok (), s)
  | fuel + 1, s =>
    if s.pending = [] then (.ok (), s)
    else
      match runner.sweep s.pending false s with
      | (.error e, s)  => (.error e, s)
      | (.ok true, s)  => turns fuel s
      | (.ok false, s) => runner.giveUp s.pending s

end Runner
end Delegation.Waves
