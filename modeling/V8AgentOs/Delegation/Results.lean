import V8AgentOs.Lib.Table
import Mathlib.Data.Finset.Image
import Mathlib.Data.Finset.Filter

-- core/delegation_result_contract.py: the decisions about the results of delegated work, and the retries that later
-- results have settled. Of a `dict`, a structure has the members that these functions read. A member that is missing
-- is `none`, and so is one of another type.
namespace Delegation

-- `bool(value)` and `first or second`
def truthy (value : Option String) : Bool :=
  value.any (· ≠ "")

def orElse (first second : Option String) : Option String :=
  if truthy first then first else second

structure Result where
  taskBriefId : Option String := none
  deriving DecidableEq

namespace Result

-- `str(result.get("taskBriefId") or "")`
def task (result : Result) : String :=
  result.taskBriefId.getD ""

end Result

-- The members that a handoff and its payload have in common. The item of a list that is no `dict` is `none`.
structure Body where
  taskBriefId       : Option String        := none
  handoffRefId      : Option String        := none
  handoffId         : Option String        := none
  payloadDigest     : Option String        := none
  results           : List (Option Result) := []
  delegationHandoff : List (Option Result) := [] -- `payload["delegationHandoff"]["results"]`
  deriving DecidableEq

namespace Body

def ref (payload : Body) : Option String :=
  orElse payload.handoffRefId payload.handoffId

end Body

-- A payload may have a payload of its own.
structure Payload extends Body where
  payload : Option Body := none
  deriving DecidableEq

structure Handoff extends Body where
  payload          : Option Payload := none
  payloadCorrupted : Bool           := false
  deriving DecidableEq

structure Decision where
  status         : Option String
  requiredAction : List String := []
  deriving DecidableEq

-- `metadata["supervisorAcceptance"]`
structure Head where
  handoffRefId  : Option String                   := none
  payloadDigest : Option String                   := none
  results       : List (String × Option Decision) := []

-- An item of `metadata["retryOfResults"]`
structure Source where
  episodeId     : Option String := none
  handoffRefId  : Option String := none
  payloadDigest : Option String := none
  taskBriefId   : Option String := none

structure Metadata where
  supervisorAcceptance : Head        := {}
  retryOfResults       : List Source := []

structure Episode where
  episodeId       : Option String := none
  id              : Option String := none
  resultRef       : Option String := none
  result_ref      : Option String := none
  session_id      : Option String := none
  run_id          : Option String := none
  parentEpisodeId : Option String := none
  metadata        : Metadata      := {}

namespace Episode

-- `str(row.get("episodeId") or row.get("id") or "")`
def key (row : Episode) : String :=
  (orElse row.episodeId row.id).getD ""

def ref (row : Episode) : Option String :=
  orElse row.resultRef row.result_ref

-- The fields that the episodes of a retry have in common: `(row.get(field) or "")`
def scope (row : Episode) : String × String × String :=
  (row.session_id.getD "", row.run_id.getD "", row.parentEpisodeId.getD "")

end Episode

-- `handoff.get("payload") if isinstance(handoff.get("payload"), dict) else handoff`
def Handoff.read (handoff : Handoff) : Payload :=
  handoff.payload.getD { handoff with payload := none }

def Payload.read (handoff : Payload) : Body :=
  handoff.payload.getD handoff.toBody

def delegation_handoff_results (handoff : Payload) : List Result :=
  let payload := handoff.read
  let results :=
    if payload.results ≠ [] then payload.results
    else if payload.delegationHandoff ≠ [] then payload.delegationHandoff
    else if truthy payload.taskBriefId then [some ⟨payload.taskBriefId⟩]
    else []
  results.reduceOption

def pending : Decision where
  status         := some "pending"
  requiredAction := ["accept", "retry", "ignore"]

def delegation_result_acceptance (episode : Episode) (handoff : Payload) (task_brief_id : String) : Decision :=
  let payload := handoff.read
  let head := episode.metadata.supervisorAcceptance
  if truthy episode.ref ∧ episode.ref = payload.ref ∧ payload.ref = head.handoffRefId ∧
      truthy payload.payloadDigest ∧ payload.payloadDigest = head.payloadDigest then
    match head.results.lookup task_brief_id with
    | some (some decision) => decision
    | _                    => pending
  else pending

-- A result version
structure Key where
  episodeId     : String
  handoffRefId  : String
  payloadDigest : String
  taskBriefId   : String
  deriving DecidableEq

-- The key that a source names. Without one of its fields it is no key of a result.
def Source.key (source : Source) : Option Key := do
  return ⟨← source.episodeId, ← source.handoffRefId, ← source.payloadDigest, ← source.taskBriefId⟩

-- The rows of `runtime_episodes`, whose ids are the primary key of their table
abbrev Episodes := Table Episode.key

-- The handoffs of each episode. A payload is bound to its reference by its digest.
structure Handoffs where
  of        : String → List Handoff
  immutable : ∀ episodeId, ∀ h ∈ of episodeId, ∀ h' ∈ of episodeId,
    h.read.ref = h'.read.ref → h.read.payloadDigest = h'.read.payloadDigest → h.read = h'.read

-- The results of the current version of an episode
def delivered (row : Episode) (handoff : Handoff) : Bool :=
  !handoff.payloadCorrupted && truthy handoff.read.payloadDigest && truthy row.ref && row.ref = handoff.read.ref

-- What a row and a handoff assign to `current`
def assigned (row : Episode) (handoff : Handoff) : List (Key × Option String) :=
  if delivered row handoff then
    (delegation_handoff_results handoff.read).map fun result =>
      (⟨row.key, row.ref.getD "", handoff.read.payloadDigest.getD "", result.task⟩,
        (delegation_result_acceptance row handoff.read result.task).status)
  else []

-- `current`, as the assignments to it. The last one of a key counts.
def current (episodes : Episodes) (handoffs_by_episode : Handoffs) : List (Key × Option String) :=
  episodes.rows.flatMap fun row => (handoffs_by_episode.of row.key).flatMap (assigned row)

-- `current.get(key)`
def status? (current : List (Key × Option String)) (key : Key) : Option String :=
  (current.reverse.lookup key).join

structure Search where
  resolved     : Finset Key
  replacements : Finset Key := ∅
  changed      : Bool       := false

variable (episodes : Episodes) (handoffs_by_episode : Handoffs) (current : List (Key × Option String))

-- One source of a resolved key
def visit (key : Key) (row : Episode) (s : Search) (source : Source) : Search :=
  match source.key with
  | none => s
  | some old_key =>
    let old := (episodes.get? old_key.episodeId).getD {}
    if old_key ∈ s.resolved ∨ status? current old_key ≠ some "retry" ∨ old_key.taskBriefId ≠ key.taskBriefId ∨
        old.scope ≠ row.scope then s
    else
      { resolved := insert old_key s.resolved, replacements := insert old_key s.replacements, changed := true }

-- `rows[key[0]]` has a row for every key of `current`.
def visitKey (s : Search) (key : Key) : Search :=
  match episodes.get? key.episodeId with
  | none     => s
  | some row => row.metadata.retryOfResults.foldl (visit episodes current key row) s

-- The order in which a set is iterated is arbitrary.
structure Iteration where
  order : Finset Key → List Key
  lists : ∀ s a, a ∈ order s ↔ a ∈ s

-- The loop ends with a round that has changed nothing. `none` tells that the fuel was too little.
def search (iteration : Iteration) : ℕ → Search → Option Search
  | 0, _        => none
  | fuel + 1, s =>
    let s' := (iteration.order s.resolved).foldl (visitKey episodes current) { s with changed := false }
    if s'.changed then search iteration fuel s' else some s'

-- The results that have been reviewed for good
def reviewed : Finset Key :=
  (current.map Prod.fst).toFinset.filter fun key =>
    status? current key = some "accepted" ∨ status? current key = some "ignored"

-- The tasks of each episode, as pairs of both. There are no more rounds than results, and one.
def resolved_delegation_retries (iteration : Iteration) : Option (Finset (String × String)) :=
  let current := Delegation.current episodes handoffs_by_episode
  (search episodes current iteration (current.length + 1) { resolved := reviewed current }).map fun s =>
    s.replacements.image fun key => (key.episodeId, key.taskBriefId)

end Delegation
