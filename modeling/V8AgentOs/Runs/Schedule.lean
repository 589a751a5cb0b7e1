import Mathlib.Order.MinMax
import V8AgentOs.Runs.Service

-- core/database.py: `claim_runtime_episode_resume_schedule`, with the callers of erc/command_router.py.
namespace Runs

open Python (Dict Json Text strip)

-- `active_run_id` is the writer that holds the lane of a session.
structure Lane where
  sessionId   : String
  activeRunId : Option String

structure Episode where
  id              : String
  runId           : String
  parentEpisodeId : Option String
  state           : String

-- `recipient` and `deliverySeq` are what SQL reads of the payload.
structure EpisodeEvent where
  runId       : String
  topic       : String
  state       : String
  recipient   : Option String
  deliverySeq : Option ℤ

structure Database where
  runs     : RunTable
  lanes    : Table Lane.sessionId
  episodes : List Episode
  events   : List EpisodeEvent

-- `TERMINAL_EPISODE_STATES`
def terminalEpisodeStates : List String :=
  ["completed", "degraded", "failed", "merged", "cancelled"]

-- `ACTIVE_EPISODE_STATES`
def activeEpisodeStates : List String :=
  ["detected", "routed", "queued", "leased", "active", "waiting", "waiting_dependency", "waiting_child",
    "waiting_external", "waiting_approval", "waiting_input"]

inductive Claim
  | claimed (row : RunRecord) (topLevelEpisodeCount : ℕ)
  | refused (r : Refusal)

def Claim.granted : Claim → Bool
  | claimed _ _ => true
  | refused _   => false

-- `expected` is `expected_run_status`.
def statusRefusal (expected : String) (row : RunRecord) : Option Refusal :=
  if expected ≠ "" ∧ strip row.status ≠ expected then
    some (.because ("run_not_running:" ++ if strip row.status = "" then "unknown" else strip row.status))
  else none

-- `expected` is `expected_state`.
def markerRefusal (text : Text) (expected : String) (marker nextMarker : Dict) : Option Refusal :=
  if !(marker.get "waitGeneration").eq (nextMarker.get "waitGeneration") then
    some (.because "runtime_wait_generation_changed")
  else if text.lowered (marker.get "state") = "scheduled" then
    some (.because "runtime_episode_resume_already_scheduled")
  else if text.lowered (marker.get "state") ≠ expected then some (.because "run_not_waiting_for_runtime_resume")
  else none

def laneRefusal (lanes : Table Lane.sessionId) (sessionId : String) : Option Refusal :=
  match lanes.get? sessionId with
  | some lane => if lane.activeRunId.getD "" ≠ "" then some (.because "parent_graph_writer_active") else none
  | none      => none

def EpisodeEvent.calls (run : String) (e : EpisodeEvent) : Bool :=
  e.runId = run && e.topic = "runtime.episode.message" && e.state = "pending" &&
    e.recipient = some ("supervisor:" ++ run)

-- `MAX(deliverySeq)` of the pending messages to the supervisor of a run
def attention (events : List EpisodeEvent) (run : String) : Option ℤ :=
  ((events.filter (·.calls run)).filterMap (·.deliverySeq)).max?

-- The texts in `set(value or [])`
def textsOf (value : Json) : Option (List String) :=
  if !value.truthy then some []
  else match value with
    | .list items => if items.any (fun v => match v with | .list _ => true | .dict _ => true | _ => false) then none
      else some (items.filterMap fun v => match v with | .str s => some s | _ => none)
    | .str s        => some (s.toList.map String.singleton)
    | .dict members => some (members.map (·.1))
    | _             => none

-- Whether the run waits for an episode
def waitsFor (marker : Dict) (id : String) : Option Bool :=
  if !(marker.get "awaitExplicit").truthy then some true
  else (textsOf (marker.get "episodeIds")).map (·.contains id)

def Episode.topLevel (run : String) (e : Episode) : Bool :=
  e.runId = run && e.parentEpisodeId.getD "" = ""

-- Whether an episode still has to be waited for
def stillActive (terminal active : List String) (state : String) : Bool :=
  active.contains state || (terminal ≠ [] && !terminal.contains state)

def episodesRefusal (text : Text) (terminal active : List String) (marker : Dict) : List Episode → Option Refusal
  | []            => none
  | e :: episodes => match waitsFor marker e.id with
    | none       => some .raised
    | some false => episodesRefusal text terminal active marker episodes
    | some true  =>
      if stillActive terminal active (text.lower (strip e.state)) then
        some (.because "top_level_runtime_episode_still_active")
      else episodesRefusal text terminal active marker episodes

-- `if attention: break`
def activeRefusal (text : Text) (terminal active : List String) (marker : Dict) (db : Database) (run : String) :
    Option Refusal :=
  if (attention db.events run).getD 0 ≠ 0 then none
  else episodesRefusal text terminal active marker (db.episodes.filter (·.topLevel run))

-- The first of the reasons that speak against the schedule
def scheduleRefusal (text : Text) (db : Database) (row : RunRecord) (key : String) (nextMarker : Dict)
    (expectedState expectedStatus : String) (terminal active : List String) : Option Refusal :=
  let marker := (markerOf row.metadata key).getD []
  (statusRefusal expectedStatus row).or <| (controlRefusal stoppingCommands "runtime_resume_blocked_by_control" row.metadata).or <|
    (markerRefusal text expectedState marker nextMarker).or <| (laneRefusal db.lanes row.sessionId).or <|
      activeRefusal text terminal active marker db row.id

-- `{str(item or "").strip().lower() for item in states if str(item or "").strip()}`
def normalizedStates (text : Text) (states : List String) : List String :=
  (states.filter (strip · ≠ "")).map fun s => text.lower (strip s)

-- The marker of a schedule
def scheduledMarker (now : String) (seq : Option ℤ) (nextMarker : Dict) : Dict :=
  nextMarker.merge [("attentionSeq", seq.elim .null .int), ("scheduledAt", .str now)]

def claimRuntimeEpisodeResumeSchedule (text : Text) (now : String) (db : Database) (run markerKey : String)
    (nextMarker : Dict) (expectedMarkerState expectedStatus : String) (terminalStates activeStates : List String) :
    Claim × RunTable :=
  if strip markerKey = "" then (.refused .raised, db.runs)
  else match db.runs.get? run with
    | none     => (.refused (.because "run_not_found"), db.runs)
    | some row =>
      match scheduleRefusal text db row (strip markerKey) nextMarker (text.lower (strip expectedMarkerState))
        (strip expectedStatus) (normalizedStates text terminalStates) (normalizedStates text activeStates) with
      | some refusal => (.refused refusal, db.runs)
      | none         =>
        let metadata := row.metadata.set (strip markerKey)
          (.dict (scheduledMarker now (attention db.events run) nextMarker))
        (.claimed { row with metadata := metadata } (db.episodes.filter (·.topLevel run)).length,
          setMetadata db.runs run metadata)

-- A caller of `schedule_runtime_episode_handoff_resume`, with the marker that it read before
structure Resume where
  run          : String
  marker       : Dict
  generation   : ℤ
  waits        : marker.get "waitGeneration" = .int generation
  episodeId    : String
  episodeState : String
  now          : String

-- `scheduled_marker`
def Resume.nextMarker (c : Resume) : Dict :=
  c.marker.merge [("state", .str "scheduled"), ("resumeKind", .str "runtime_episode_terminal"),
    ("episodeId", .str c.episodeId), ("episodeState", .str c.episodeState)]

def markerKey : String := "runtimeEpisodeResume"

-- `RunService.claim_runtime_episode_resume_schedule`
def Resume.claim (text : Text) (db : Database) (c : Resume) : Claim × RunTable :=
  claimRuntimeEpisodeResumeSchedule text c.now db c.run markerKey c.nextMarker "waiting" "running"
    terminalEpisodeStates activeEpisodeStates

namespace Schedule

structure State where
  base     : Runs.State
  lanes    : Table Lane.sessionId
  episodes : List Episode
  events   : List EpisodeEvent

def State.db (s : State) : Database :=
  ⟨s.base.runs, s.lanes, s.episodes, s.events⟩

inductive Event
  -- A step of a status change, a control signal or another write of a run's metadata
  | run (e : Runs.Event)
  | claim (c : Resume) (granted : Bool)
  -- The lanes, the episodes and their messages change.
  | elsewhere (lanes : Table Lane.sessionId) (episodes : List Episode) (events : List EpisodeEvent)

inductive Step (text : Text) : State → Event → State → Prop
  | run {s e b} : Runs.Step text s.base e b → Step text s (.run e) { s with base := b }
  | claim {s c} : Step text s (.claim c (c.claim text s.db).1.granted)
      { s with base := { s.base with runs := (c.claim text s.db).2 } }
  | elsewhere {s lanes episodes events} :
    Step text s (.elsewhere lanes episodes events) ⟨s.base, lanes, episodes, events⟩

def system (text : Text) : Transition State Event where
  init s := (Runs.system text).init s.base
  step   := Step text

-- The run and the wait generation that an event schedules
def Event.schedules : Event → List (String × ℤ)
  | claim c true => [(c.run, c.generation)]
  | _            => []

end Schedule
end Runs
