import V8AgentOs.Delegation.Results
import V8AgentOs.Python.Dict
import V8AgentOs.RuntimeEpisodes.Contract

-- core/runtime_episodes.py: which delivery of an episode is current, and what it proves.
namespace RuntimeEpisodes

open Python (Dict Json strip)

-- `_walk_runtime_handoff`, all the mappings in a value
mutual

def walk : Json → List Dict
  | .dict d     => d :: walkMembers d
  | .list items => walkItems items
  | _           => []

def walkItems : List Json → List Dict
  | []      => []
  | v :: vs => walk v ++ walkItems vs

def walkMembers : List (String × Json) → List Dict
  | []           => []
  | (_, v) :: ms => walk v ++ walkMembers ms

end

-- `_runtime_handoff_payload`
def handoffPayload (value : Dict) : Dict :=
  Dict.merge value (mapping (value.get "payload"))

namespace Reading

variable (r : Reading)

def runtime_handoff_identities (value : Dict) : List String :=
  let payload := handoffPayload value
  r.texts ([value.get "id", value.get "handoffId", value.get "handoffRefId", payload.get "handoffId",
    payload.get "handoffRefId", payload.get "deliveryId"] ++ valuesOf (payload.get "identityAliases"))

-- What a row of the handoffs carries without the members of the store
def candidatePayload (row : Dict) : Dict :=
  Dict.merge (row.filter fun m => !(["payload", "payload_json", "refs_json"].contains m.1))
    (mapping (row.get "payload"))

def isCorrupted (row : Dict) : Bool :=
  (row.get "payloadCorrupted").truthy || isFalse (row.get "deliverySupported") ||
    ((candidatePayload row).get "payloadCorrupted").truthy ||
    r.text.lowered ((candidatePayload row).get "deliveryState") = "corrupted"

-- `resolve_runtime_episode_current_handoff` without its diagnostic
def resolve_runtime_episode_current_handoff (episode : Dict) (handoffs : List Dict) : Option Dict :=
  let episodeId := r.text.stripped (firstOf episode ["episodeId", "id"])
  let resultRef := r.text.stripped (firstOf episode ["resultRef", "result_ref"])
  let matching := if resultRef = "" then handoffs
    else handoffs.filter fun row => (r.runtime_handoff_identities row).contains resultRef
  match matching with
  | [row] =>
    let producerId := r.text.stripped ((candidatePayload row).get "producerEpisodeId")
    if r.isCorrupted row || (producerId ≠ "" && producerId ≠ episodeId) then none else some (candidatePayload row)
  | _     => none

section Write

def verifies (item : Dict) : Bool :=
  isTrue ((mapping (item.get "verificationEvidence")).get "passed") ||
  (match item.get "verificationResults" with
    | .list results => (mappingsOf results).any fun result => isTrue (result.get "passed") ||
      ["verified", "passed", "success", "completed"].contains (r.text.lowered (result.get "status"))
    | _             => false) ||
  isTrue ((mapping ((mapping (firstOf item ["acceptanceCheck", "acceptance_check"])).get "must")).get "passed")

-- `str(value or "").strip().strip(quotes).replace("\\", "/").casefold()` without the leading `./`
def changedPath (value : Json) : String :=
  relative (r.casefold (slashes (unquoted (r.text.stripped value))))

def changedPaths (item : Dict) : List String :=
  let names := ["changedPaths", "changed_paths", "changedFiles", "changed_files", "createdFiles", "created_files",
    "modifiedFiles", "modified_files", "writtenFiles", "written_files"]
  let values := names.flatMap fun name => valuesOf (item.get name)
  let refs := (itemsOf (item.get "artifactRefs")).map fun v => match v with
    | .dict ref => firstOf ref ["path", "workspaceRelativePath"]
    | ref       => ref
  let isLink := fun (text : String) => ["git://", "artifact://"].any fun scheme => scheme.toList.isPrefixOf text.toList
  (values.map r.changedPath).filter (· ≠ "") ++ (refs.map r.changedPath).filter fun text => text ≠ "" && !isLink text

-- `runtime_handoffs_have_verified_write_delivery`, for one handoff
def hasVerifiedWriteDelivery (handoff : Dict) (writeSet : List String) : Bool :=
  let payload := handoffPayload handoff
  let expected := (writeSet.map strip).filterMap fun target =>
    if target = "" then none else some (r.casefold (slashes target))
  let items := walk (.dict payload)
  let paths := items.flatMap r.changedPaths
  !expected.isEmpty &&
    ["ready", "completed", "success", "ok"].contains (r.text.lowered (payload.get "status")) && items.any r.verifies &&
    expected.all fun target => paths.any fun path =>
      path = target || ("/" ++ target).toList.isSuffixOf path.toList

-- `_verified_native_write`
def verifiedNativeWrite (handoff : Dict) : Bool :=
  (walk (.dict handoff)).any fun node =>
    isTrue (node.get "writeToolSucceeded") ||
      ((r.texts (itemsOf (firstOf node ["toolsUsed", "toolNames"]))).contains "write_native_file" &&
        !(itemsOf (node.get "artifactRefs")).isEmpty)

end Write

section Read

-- `_collect`, which goes no deeper than 8 levels below the handoff
def collect : ℕ → Dict → List Dict
  | 0, _             => []
  | depth + 1, value =>
    let results := ["results", "taskBriefResults"].flatMap fun key => mappingsOf (itemsOf (value.get key))
    let nested := mappingsOf (["delegationHandoff", "payload"].map fun key => value.get key)
    let children := mappingsOf (itemsOf (value.get "childHandoffs"))
    results ++ (results ++ nested ++ children).flatMap (collect depth)

-- `_verified_read_delivery`
def verifiedReadDelivery (handoff : Dict) (requiredTaskBriefIds : List String) : Bool :=
  let root := handoffPayload handoff
  let isSuccessful := fun result =>
    r.text.stripped (firstOf result ["taskBriefId", "taskId"]) ≠ "" &&
    ["ok", "ready", "success", "completed", "verified", "passed"].contains
      (r.text.lowered (firstOf result ["status", "workerStatus"])) &&
    r.text.stripped (firstOf result ["error", "errorCode", "errorMessage"]) = "" &&
    !(r.texts (itemsOf (firstOf result ["toolsUsed", "toolNames", "tools"]))).isEmpty
  let successfulIds := ((collect 9 root).filter isSuccessful).map fun result =>
    r.text.stripped (firstOf result ["taskBriefId", "taskId"])
  ["ready", "completed"].contains (r.text.lowered (root.get "status")) && !requiredTaskBriefIds.isEmpty &&
    requiredTaskBriefIds.all successfulIds.contains

end Read

end Reading
end RuntimeEpisodes

-- core/runtime_episodes.py: the attempts that later proof or a review has retired.
namespace RuntimeEpisodes

open Python (Dict Json)

section Reviews

def textOf : Json → Option String
  | .str s => some s
  | _      => none

def dictOf : Json → Option Dict
  | .dict d => some d
  | _       => none

def resultsOf (v : Json) : List (Option Delegation.Result) :=
  (itemsOf v).map fun item => (dictOf item).map fun d => ⟨textOf (d.get "taskBriefId")⟩

-- What the reviews read of a handoff, of its payload and of an episode
def bodyOf (d : Dict) : Delegation.Body where
  taskBriefId       := textOf (d.get "taskBriefId")
  handoffRefId      := textOf (d.get "handoffRefId")
  handoffId         := textOf (d.get "handoffId")
  payloadDigest     := textOf (d.get "payloadDigest")
  results           := resultsOf (d.get "results")
  delegationHandoff := resultsOf ((mapping (d.get "delegationHandoff")).get "results")

def payloadOf (d : Dict) : Delegation.Payload where
  toBody  := bodyOf d
  payload := (dictOf (d.get "payload")).map bodyOf

def handoffOf (d : Dict) : Delegation.Handoff where
  toBody           := bodyOf d
  payload          := (dictOf (d.get "payload")).map payloadOf
  payloadCorrupted := (d.get "payloadCorrupted").truthy

def decisionOf (v : Json) : Option Delegation.Decision :=
  (dictOf v).map fun d => ⟨textOf (d.get "status"), (itemsOf (d.get "requiredAction")).filterMap textOf⟩

def headOf (d : Dict) : Delegation.Head where
  handoffRefId  := textOf (d.get "handoffRefId")
  payloadDigest := textOf (d.get "payloadDigest")
  results       := (mapping (d.get "results")).map fun m => (m.1, decisionOf m.2)

def sourceOf (d : Dict) : Delegation.Source where
  episodeId     := textOf (d.get "episodeId")
  handoffRefId  := textOf (d.get "handoffRefId")
  payloadDigest := textOf (d.get "payloadDigest")
  taskBriefId   := textOf (d.get "taskBriefId")

def episodeOf (d : Dict) : Delegation.Episode where
  episodeId       := textOf (d.get "episodeId")
  id              := textOf (d.get "id")
  resultRef       := textOf (d.get "resultRef")
  result_ref      := textOf (d.get "result_ref")
  session_id      := textOf (d.get "session_id")
  run_id          := textOf (d.get "run_id")
  parentEpisodeId := textOf (d.get "parentEpisodeId")
  metadata        := {
    supervisorAcceptance := headOf (mapping ((mapping (d.get "metadata")).get "supervisorAcceptance"))
    retryOfResults       := (mappingsOf (itemsOf ((mapping (d.get "metadata")).get "retryOfResults"))).map sourceOf }

end Reviews

def key (d : Dict) : String :=
  (episodeOf d).key

-- Episodes as the database lists them. Their ids are the primary key, without blanks around.
structure Attempts (r : Reading) extends Table key where
  named : ∀ d ∈ rows, r.episodeId d = key d ∧ key d ≠ ""

-- The handoffs of each episode. A payload is bound to its reference by its digest.
structure Deliveries where
  of        : String → List Dict
  immutable : ∀ episodeId, ∀ h ∈ of episodeId, ∀ h' ∈ of episodeId, (handoffOf h).read.ref = (handoffOf h').read.ref →
    (handoffOf h).read.payloadDigest = (handoffOf h').read.payloadDigest → (handoffOf h).read = (handoffOf h').read

def Deliveries.handoffs (d : Deliveries) : Delegation.Handoffs where
  of episodeId := (d.of episodeId).map handoffOf
  immutable    := by
    intro episodeId h hh h' hh' href hdigest
    obtain ⟨g, hg, rfl⟩ := List.mem_map.mp hh
    obtain ⟨g', hg', rfl⟩ := List.mem_map.mp hh'
    exact d.immutable episodeId g hg g' hg' href hdigest

-- The episodes that have no parent
def Attempts.roots {r : Reading} (episodes : Attempts r) : List Dict :=
  episodes.rows.filter (r.runtime_episode_parent_id · = "")

def Attempts.rootEpisodes {r : Reading} (episodes : Attempts r) : Delegation.Episodes where
  rows   := episodes.roots.map episodeOf
  unique := by
    rw [List.map_map]
    exact episodes.unique.sublist (List.filter_sublist.map key)

-- An item of `proven`
structure Candidate where
  episode             : Dict
  writeSet            : List String
  taskBriefIds        : List String
  time                : String ×ₗ ℕ
  verifiedRead        : Bool
  repairLineage       : Dict
  verifiedNativeWrite : Bool

namespace Reading

variable (r : Reading) (deliveries : Deliveries)

def currentHandoff (episode : Dict) : Option Dict :=
  r.resolve_runtime_episode_current_handoff episode (deliveries.of (r.episodeId episode))

def candidate (row : Dict × ℕ) : Option Candidate := do
  let handoff ← r.currentHandoff deliveries row.1
  let writeSet := r.runtime_episode_write_set row.1
  let taskBriefIds := r.runtime_episode_task_brief_ids row.1
  let verifiedWrite := !writeSet.isEmpty && r.hasVerifiedWriteDelivery handoff writeSet
  let verifiedRead := writeSet.isEmpty && r.kind row.1 = "engineering" && r.verifiedReadDelivery handoff taskBriefIds
  if r.episodeId row.1 ≠ "" && ["completed", "merged"].contains (r.state row.1) && (verifiedWrite || verifiedRead) then
    some {
      episode             := row.1
      writeSet            := writeSet
      taskBriefIds        := taskBriefIds
      time                := r.timeKey row.1 row.2
      verifiedRead        := verifiedRead
      repairLineage       := r.repairLineage row.1
      verifiedNativeWrite := r.verifiedNativeWrite handoff }
  else none

def subset (xs ys : List String) : Bool :=
  xs.all ys.contains

-- Whether a candidate does the work of an episode
def covers (c : Candidate) (episode : Dict) : Bool :=
  let writeSet := r.runtime_episode_write_set episode
  let taskBriefIds := r.runtime_episode_task_brief_ids episode
  let readOnlyRepair := writeSet.isEmpty && r.kind episode = "engineering" && !taskBriefIds.isEmpty &&
    ["degraded", "failed", "cancelled"].contains (r.state episode)
  let workspace := r.workspaceIdentity episode
  let workspace' := r.workspaceIdentity c.episode
  let sameKind := decide (r.kind c.episode = r.kind episode)
  let crossKindSameTask := !sameKind && !taskBriefIds.isEmpty && subset taskBriefIds c.taskBriefIds &&
    subset writeSet c.writeSet
  let repairIds := r.texts (itemsOf (c.repairLineage.get "repairOfEpisodeIds"))
  let overlap := (r.texts (itemsOf (c.repairLineage.get "overlappingWriteSet"))).map (r.casefold <| slashes ·)
  let common := writeSet.filter c.writeSet.contains
  let explicit := repairIds.contains (r.episodeId episode) && c.verifiedNativeWrite && !common.isEmpty &&
    subset overlap common && !overlap.isEmpty
  let sameTaskRepair := !taskBriefIds.isEmpty && subset taskBriefIds c.taskBriefIds &&
    r.hasRepairableWriteContract episode c.writeSet
  r.episodeId episode ≠ "" && (!writeSet.isEmpty || readOnlyRepair) && r.episodeId c.episode ≠ r.episodeId episode &&
    (sameKind || crossKindSameTask) && (workspace = "" || workspace' = "" || workspace = workspace') &&
    (explicit ||
      if readOnlyRepair then
        r.kind c.episode = "engineering" && c.writeSet.isEmpty && c.verifiedRead && subset taskBriefIds c.taskBriefIds
      else crossKindSameTask || sameTaskRepair || subset writeSet c.writeSet)

def isRetiredBy (row : Dict × ℕ) (c : Candidate) : Bool :=
  r.timeKey row.1 row.2 < c.time && r.covers c row.1

-- Whether the reviews of its results retire an episode. The resolved retries are pairs of an episode and a task.
def isRetiredByReview (resolved : Finset (String × String)) (episode : Dict) : Bool :=
  let episodeId := r.episodeId episode
  decide (∃ retired ∈ resolved, retired.1 = episodeId) && r.kind episode = "delegation" &&
  (r.currentHandoff deliveries episode).any fun handoff =>
    let results := Delegation.delegation_handoff_results (payloadOf handoff)
    let resultIds := results.map (·.task)
    !results.isEmpty && !resultIds.contains "" && subset (r.runtime_episode_task_brief_ids episode) resultIds &&
      results.all fun item => decide ((episodeId, item.task) ∈ resolved) ||
        [some "accepted", some "ignored"].contains
          (Delegation.delegation_result_acceptance (episodeOf episode) (payloadOf handoff) item.task).status

def superseded_runtime_episode_ids (episodes : Attempts r) (iteration : Delegation.Iteration) :
    Option (Finset String) :=
  let rows := episodes.roots
  let proven := rows.zipIdx.filterMap (r.candidate deliveries)
  (Delegation.resolved_delegation_retries episodes.rootEpisodes deliveries.handoffs iteration).map fun resolved =>
    let reviewed := rows.filter (r.isRetiredByReview deliveries resolved)
    let repaired := (rows.zipIdx.filter fun row => proven.any (r.isRetiredBy row)).map (·.1)
    ((reviewed ++ repaired).map r.episodeId).toFinset

end Reading
end RuntimeEpisodes
