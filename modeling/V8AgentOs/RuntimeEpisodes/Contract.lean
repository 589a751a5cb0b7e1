import Mathlib.Data.Prod.Lex
import Mathlib.Data.String.Basic
import V8AgentOs.Python.Text

-- core/runtime_episodes.py: what an episode says of its own work. A value of a type that the code cannot iterate is
-- read as an empty list.
namespace RuntimeEpisodes

open Python (Dict Json strip)

-- What episodes are read with: texts of values, and `str.casefold`
structure Reading where
  text     : Python.Text
  casefold : String → String

-- `value if isinstance(value, Mapping) else {}`
def mapping : Json → Dict
  | .dict d => d
  | _       => []

-- `list(value or [])`
def itemsOf : Json → List Json
  | .list items => items
  | .str s      => s.toList.map fun c => .str (String.singleton c)
  | .dict d     => d.map fun m => .str m.1
  | _           => []

-- `value if isinstance(value, list) else [value] if value else []`
def valuesOf : Json → List Json
  | .list items => items
  | v           => if v.truthy then [v] else []

-- The items that are mappings
def mappingsOf (values : List Json) : List Dict :=
  values.filterMap fun v => match v with
    | .dict d => some d
    | _       => none

-- `d.get(key) or d.get(key') or …`, and nothing where all of them are false
def firstOf (d : Dict) (keys : List String) : Json :=
  ((keys.map fun key => d.get key).find? (·.truthy)).getD .null

-- `value is True`
def isTrue : Json → Bool
  | .bool b => b
  | _       => false

-- `value is False`
def isFalse : Json → Bool
  | .bool b => !b
  | _       => false

-- `text.replace("\\", "/")`
def slashes (text : String) : String :=
  String.ofList (text.toList.map fun c => if c = '\\' then '/' else c)

-- ``text.strip("`'\"")``
def unquoted (text : String) : String :=
  let isQuote := fun c => ['\x60', '\'', '"'].contains c
  String.ofList ((text.toList.dropWhile isQuote).rdropWhile isQuote)

-- `while text.startswith("./"): text = text[2:]`
def relative (text : String) : String :=
  String.ofList (go text.toList)
where
  go : List Char → List Char
    | '.' :: '/' :: rest => go rest
    | rest               => rest

-- `"/".join(part for part in text.split("/") if part)`
def joined (text : String) : String :=
  "/".intercalate (((text.toList.splitOn '/').filter fun part => !part.isEmpty).map String.ofList)

namespace Reading

variable (r : Reading)

-- The texts of `str(value or "").strip()` that are not blank
def texts (values : List Json) : List String :=
  (values.map r.text.stripped).filter (· ≠ "")

section Contract

variable (episode : Dict)

def runtime_episode_parent_id : String :=
  r.text.stripped (firstOf episode ["parentEpisodeId", "parent_episode_id"])

-- `_episode_id`
def episodeId : String :=
  r.text.stripped (firstOf episode ["episodeId", "id", "needId"])

-- `_time_key`
def timeKey (index : ℕ) : String ×ₗ ℕ :=
  toLex (r.text.orEmpty (firstOf episode ["completed_at", "updated_at", "updatedAt", "created_at", "createdAt"]), index)

def state : String :=
  r.text.lowered (episode.get "state")

def normalize_capability_kind (value : Json) : String :=
  let normalized := String.ofList ((r.text.lowered value).toList.map fun c => if c = '-' ∨ c = ' ' then '_' else c)
  let aliases := [("engineering_runtime", "engineering"), ("project_coding", "engineering"), ("coding", "engineering"),
    ("research_runtime", "research"), ("creative", "creative_media"), ("creative_media_runtime", "creative_media"),
    ("computer", "computer_use"), ("computer_use_runtime", "computer_use"), ("desktop", "computer_use"),
    ("rpa_runtime", "rpa"), ("subagent", "delegation"), ("subagent_swarm", "delegation")]
  (aliases.lookup normalized).getD normalized

def kind : String :=
  r.normalize_capability_kind (episode.get "kind")

omit r in
def inputs : Dict :=
  mapping (episode.get "inputs")

omit r in
def briefs : List Dict :=
  mappingsOf (itemsOf (firstOf (inputs episode) ["workerBriefs", "taskBriefs", "tasks"]))

-- `_runtime_episode_raw_write_set`
def rawWriteSet : List String :=
  let names := ["writeSet", "write_set"]
  let values := valuesOf (firstOf (inputs episode) names) ++ (briefs episode).flatMap fun brief =>
    itemsOf (firstOf brief names) ++ itemsOf (firstOf (mapping (brief.get "engineeringTaskCapsule")) names)
  (r.texts values).map fun text => slashes (unquoted text)

def runtime_episode_write_set : List String :=
  let normalized := (r.rawWriteSet episode).map fun value =>
    r.casefold (joined (relative (slashes (unquoted (strip value)))))
  (normalized.filter (· ≠ "")).eraseDups

-- `_runtime_episode_has_repairable_write_contract`
def hasRepairableWriteContract (replacementWriteSet : List String) : Bool :=
  let values := (r.rawWriteSet episode).map strip
  let isAbsolute := fun (value : String) => match value.toList with
    | '/' :: _           => true
    | _ :: ':' :: '/' :: _ => true
    | _                  => false
  let isRepairable := fun (value : String) => isAbsolute value || decide (value.toList.getLast? = some '/')
  let explicit := ((values.filter (!isRepairable ·)).map fun value => r.casefold (joined value)).filter (· ≠ "")
  values.any isRepairable && explicit.all replacementWriteSet.contains

def runtime_episode_task_brief_ids : List String :=
  (r.texts ((briefs episode).map (firstOf · ["taskBriefId", "task_brief_id", "taskId", "task_id"]))).eraseDups

-- `_runtime_episode_workspace_identity`
def workspaceIdentity : String :=
  let workspace := firstOf (mapping ((inputs episode).get "engineeringWorkspace"))
    ["originalWorkspacePath", "original_workspace_path"]
  let value := if workspace.truthy then workspace else firstOf (inputs episode)
    ["originalWorkspacePath", "original_workspace_path", "workspacePath", "workspace_path"]
  r.casefold (String.ofList ((slashes (r.text.stripped value)).toList.rdropWhile (· = '/')))

-- `_repair_lineage`
def repairLineage : Dict :=
  let lineage := mapping ((inputs episode).get "repairLineage")
  if r.text.stripped (lineage.get "schemaVersion") = "v8.engineering_repair.v1" then lineage else []

end Contract

end Reading
end RuntimeEpisodes
