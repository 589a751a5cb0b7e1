import V8AgentOs.Assignment.Context
import V8AgentOs.Lib.Triple

-- The authority that a caller is given for an assignment, and the one that was stored
namespace Assignment

open Python (Dict Json orElse)

-- A path of a write set, which is a directory only where that is one, or a path below one of its directories
def Within (writeSet : List String) (path : String) : Prop :=
  ∃ parent ∈ writeSet,
    (Path.ofText path = Path.ofText parent ∧ (endsWithSep path → endsWithSep parent)) ∨
    (endsWithSep parent ∧ (Path.ofText path).isRelativeTo (Path.ofText parent))

def AllWithin (writeSet : List String) (values : List Json) : Prop :=
  ∀ value ∈ values, ∃ path, value = .str path ∧ Within writeSet path

def items : Json → List Json
  | .list values => values
  | _            => []

-- The write set of a brief or a capsule
def writeSetOf : Json → List Json
  | .dict members => items (Dict.get members "writeSet")
  | _             => []

-- The write sets that a brief carries: its own, and the one of its capsule
def carried : Json → List Json
  | .dict members => items (Dict.get members "writeSet") ++ writeSetOf (Dict.get members "engineeringTaskCapsule")
  | _             => []

def textOf? : Json → Option String
  | .str path => some path
  | _         => none

-- The write set of the stored contract
def Contract.writeSet (contract : Contract) : List String :=
  (items (contract.taskBrief.get "writeSet")).filterMap textOf?

variable {w : World} {context binding members : Dict} {row : CommandAssignment} {v v' : Verified} {message : Message}
  {assignment : Envelope} {value : Json} {paths' permitted : List String} {error sessionId userId id workspace : String}
  {revision : ℤ}

theorem require_ok {p : Prop} [Decidable p] (h : require p error = .ok ()) : p := by
  unfold require at h
  split at h
  case isTrue hp => exact hp
  case isFalse   => cases h

theorem found_ok {α : Type} {x : Option α} {a : α} (h : found x error = .ok a) : x = some a := by
  cases x
  case none => cases h
  case some => cases h; rfl

theorem asDict_ok (h : asDict value = .ok members) : value = .dict members := by
  cases value
  case dict => cases h; rfl
  all_goals cases h

theorem mapM_ok {values : List Json} (h : values.mapM (fun | .str s => .ok s | _ => .error "TypeError") = Except.ok paths') :
    values = paths'.map Json.str := by
  induction values generalizing paths'
  case nil => cases h; rfl
  case cons value values hi =>
    rw [List.mapM_cons] at h
    obtain ⟨path, hpath, h⟩ := Hoare.bind_ok h
    obtain ⟨rest, hrest, h⟩ := Hoare.bind_ok h
    cases h
    rw [hi hrest]
    cases value
    case str => cases hpath; rfl
    all_goals cases hpath

theorem texts_ok (h : texts value = .ok paths') : value = .list (paths'.map .str) := by
  cases value
  case list values => exact congrArg Json.list (mapM_ok h)
  all_goals cases h

-- What a valid assignment is known to be
structure Valid (w : World) (row : CommandAssignment) (id userId : String) (revision : ℤ) : Prop where
  stored   : w.assignments.get? id = some row
  owner    : row.userId = userId
  active   : row.status = "active"
  revision : row.revision = revision
  turns    : w.userRevision row.childSessionId = row.contract.targetUserRevision

theorem valid_of_validate (h : w.validate id sessionId userId revision = .ok row) : Valid w row id userId revision := by
  obtain ⟨row', hstored, h⟩ := Hoare.bind_ok h
  obtain ⟨_, _, h⟩ := Hoare.bind_ok h
  obtain ⟨_, howner, h⟩ := Hoare.bind_ok h
  obtain ⟨_, hactive, h⟩ := Hoare.bind_ok h
  obtain ⟨_, hrevision, h⟩ := Hoare.bind_ok h
  obtain ⟨_, _, h⟩ := Hoare.bind_ok h
  obtain ⟨_, _, h⟩ := Hoare.bind_ok h
  obtain ⟨_, hturns, h⟩ := Hoare.bind_ok h
  obtain ⟨_, _, h⟩ := Hoare.bind_ok h
  obtain ⟨_, _, h⟩ := Hoare.bind_ok h
  obtain ⟨_, _, h⟩ := Hoare.bind_ok h
  cases h
  exact ⟨found_ok hstored, (require_ok howner).right, require_ok hactive, require_ok hrevision, require_ok hturns⟩

theorem mem_of_getMessage (h : w.getMessage id = some message) : w.messages.get? message.id = some message := by
  unfold World.getMessage at h
  split at h
  case isTrue  => cases h
  case isFalse => exact Table.get?_of_mem (Table.mem_of_get? h)

-- What an assignment and the message that dispatched it have in common
structure Dispatched (w : World) (row : CommandAssignment) (message : Message) : Prop where
  authority  : message.authority = "project_assignment"
  assignment : w.text.orEmpty (message.metadata.get "assignmentId") = row.assignmentId
  revision   : w.intOf (message.metadata.get "assignmentRevision") = .ok row.revision
  source     : message.sourceSessionId = row.rootSessionId
  owner      : message.sourceUserId.getD "" = row.userId

theorem dispatched_of_assignmentForMessage (hm : w.messages.get? message.id = some message)
    (h : w.assignmentForMessage message sessionId = .ok (some assignment)) : ∃ row, assignment = w.envelope row ∧
      Dispatched w row message ∧ row.childSessionId = sessionId ∧ Valid w row row.assignmentId row.userId row.revision := by
  unfold World.assignmentForMessage at h
  split at h
  case h_1 => split at h <;> cases h
  case h_2 persisted hp =>
    obtain ⟨hp, hauthority⟩ := Option.filter_eq_some_iff.mp hp
    obtain ⟨_, hsame, h⟩ := Hoare.bind_ok h
    obtain ⟨_, _, h⟩ := Hoare.bind_ok h
    obtain ⟨revision, hrevision, h⟩ := Hoare.bind_ok h
    obtain ⟨row, hrow, h⟩ := Hoare.bind_ok h
    obtain ⟨_, hscope, h⟩ := Hoare.bind_ok h
    cases h
    have hpersisted : persisted = message := by
      have hget := mem_of_getMessage hp
      rw [← (require_ok hsame).left, hm] at hget
      exact (Option.some.inj hget).symm
    subst hpersisted
    have hvalid := valid_of_validate hrow
    have hid := Table.key_of_get? hvalid.stored
    have ⟨hchild, hroot⟩ := require_ok hscope
    refine ⟨row, rfl, ⟨of_decide_eq_true hauthority, hid.symm, ?_, hroot.symm, hvalid.owner.symm⟩, hchild, ?_⟩
    case _ => rw [hvalid.revision]; exact hrevision
    case _ => exact ⟨hid ▸ hvalid.stored, rfl, hvalid.active, rfl, hvalid.turns⟩

theorem get_taskBrief (contract : Contract) : ∃ capsule, contract.taskBrief.lookup "engineeringTaskCapsule" =
      some (.dict capsule) ∧ contract.taskBrief.get "writeSet" = orElse (Dict.get capsule "writeSet") (.list []) := by
  obtain ⟨task, context, capsule, hbrief⟩ := contract.ensured
  refine ⟨capsule, ?_, ?_⟩
  all_goals rw [hbrief]
  case _ => simp [withCapsule, Dict.lookup_set_of_ne, Dict.lookup_set_self]
  case _ => simp [withCapsule, Dict.get, Dict.lookup_set_of_ne, Dict.lookup_set_self]

-- The paths that the brief and the capsule of a contract name are those of its write set.
structure OfContract (w : World) (row : CommandAssignment) (v : Verified) : Prop where
  assignment : v.projectAssignment = w.envelope row
  brief      : v.taskBrief = .dict row.contract.taskBrief
  other      : v.taskBriefAlias = .dict row.contract.taskBrief
  paths      : v.allowedWritePaths = row.contract.writeSet
  carried    : carried v.taskBrief = row.contract.writeSet.map .str ++ row.contract.writeSet.map .str
  capsule    : writeSetOf v.engineeringTaskCapsule = row.contract.writeSet.map .str

theorem filterMap_str {paths : List String} : (paths.map Json.str).filterMap textOf? = paths := by
  induction paths
  case nil                => rfl
  case cons path paths hi => exact congrArg (path :: ·) hi

theorem ofContract_of_executionContext (hrow : w.assignments.get? assignment.assignmentId = some row)
    (h : w.executionContext assignment sessionId userId = .ok v) : OfContract w row v := by
  obtain ⟨row', hvalid, h⟩ := Hoare.bind_ok h
  obtain ⟨_, _, h⟩ := Hoare.bind_ok h
  obtain ⟨capsule, hcapsule, h⟩ := Hoare.bind_ok h
  obtain ⟨members, hmembers, h⟩ := Hoare.bind_ok h
  obtain ⟨mode, _, h⟩ := Hoare.bind_ok h
  obtain ⟨value, hvalue, h⟩ := Hoare.bind_ok h
  obtain ⟨allowed, hallowed, h⟩ := Hoare.bind_ok h
  cases h
  cases hrow.symm.trans (valid_of_validate hvalid).stored
  obtain ⟨stored, hstored, hset⟩ := get_taskBrief row.contract
  cases hstored.symm.trans (found_ok hcapsule)
  cases asDict_ok hmembers
  have hget : Dict.get members "writeSet" = .list (allowed.map .str) := by
    rw [Dict.get, found_ok hvalue, texts_ok hallowed]
    rfl
  have hitems : items (row.contract.taskBrief.get "writeSet") = allowed.map .str := by
    rw [hset, hget]
    cases allowed
    case nil  => rfl
    case cons => rfl
  have hcap : row.contract.taskBrief.get "engineeringTaskCapsule" = .dict members := by
    rw [Dict.get, hstored]
    rfl
  have hwrite : row.contract.writeSet = allowed := by
    rw [Contract.writeSet, hitems]
    exact filterMap_str
  refine ⟨rfl, rfl, rfl, hwrite.symm, ?carried, ?capsule⟩
  case capsule => rw [hwrite, writeSetOf, hget]; rfl
  case carried =>
    show items (row.contract.taskBrief.get "writeSet") ++
      writeSetOf (row.contract.taskBrief.get "engineeringTaskCapsule") = _
    rw [hitems, hcap, hwrite, writeSetOf, hget]
    rfl

-- What a run is known to be whose caller is given a context
structure Bound (w : World) (context binding : Dict) (row : CommandAssignment) : Prop where
  run       : ∃ run, w.runs.get? (w.runId context) = some run ∧ run.sessionId = w.sessionId context ∧
    run.userId = some (w.userId context)
  cancel    : ¬(binding.get "cancelRequested").truthy
  message   : ∃ message, w.getMessage (w.text.orEmpty (binding.get "messageId")) = some message ∧
    message.targetRunId = some (w.runId context) ∧ Dispatched w row message
  child     : row.childSessionId = w.sessionId context
  valid     : Valid w row row.assignmentId row.userId row.revision
  identity  : (Json.str row.assignmentId).eq (binding.get "assignmentId")
  revision  : (Json.int row.revision).eq (binding.get "revision")
  workspace : w.fs.resolve (.ofText (w.workspacePath context)) = .ok (.ofText row.contract.scope.workspacePath)

theorem bound_of_boundAssignment (h : w.boundAssignment context binding = .ok assignment) :
    ∃ row, assignment = w.envelope row ∧ Bound w context binding row := by
  obtain ⟨run, hrun, h⟩ := Hoare.bind_ok h
  obtain ⟨_, hscope, h⟩ := Hoare.bind_ok h
  obtain ⟨_, hcancel, h⟩ := Hoare.bind_ok h
  obtain ⟨message, hmessage, h⟩ := Hoare.bind_ok h
  obtain ⟨_, _, h⟩ := Hoare.bind_ok h
  obtain ⟨found, hfound, h⟩ := Hoare.bind_ok h
  obtain ⟨assignment', hassignment, h⟩ := Hoare.bind_ok h
  obtain ⟨_, hbinding, h⟩ := Hoare.bind_ok h
  obtain ⟨_, _, h⟩ := Hoare.bind_ok h
  obtain ⟨_, _, h⟩ := Hoare.bind_ok h
  obtain ⟨_, _, h⟩ := Hoare.bind_ok h
  obtain ⟨path, hpath, h⟩ := Hoare.bind_ok h
  obtain ⟨_, hworkspace, h⟩ := Hoare.bind_ok h
  cases h
  obtain ⟨hmessage, htarget⟩ := Option.filter_eq_some_iff.mp (found_ok hmessage)
  cases found_ok hassignment
  obtain ⟨row, hrow, hdispatched, hchild, hvalid⟩ :=
    dispatched_of_assignmentForMessage (mem_of_getMessage hmessage) hfound
  subst hrow
  have ⟨hsession, huser, _⟩ := require_ok hscope
  have ⟨hidentity, hrevision⟩ := require_ok hbinding
  refine ⟨row, rfl, ⟨run, found_ok hrun, hsession, huser⟩, require_ok hcancel,
    ⟨message, hmessage, of_decide_eq_true htarget, hdispatched⟩, hchild, hvalid, hidentity, hrevision, ?_⟩
  rw [hpath, require_ok hworkspace]
  rfl

-- What a descendant presents stays within the contract: it asks for no directory where the contract names a file only,
-- and the briefs and the capsule that it brings along name no other paths.
structure Narrow (w : World) (context : Dict) (row : CommandAssignment) : Prop where
  directories : ∀ root, w.fs.resolve (.ofText row.contract.scope.workspacePath) = .ok root →
    ∀ value ∈ items (World.requested context), ∀ path, concretePath w.fs root value = .ok path → endsWithSep path →
      ∃ parent ∈ row.contract.writeSet, endsWithSep parent ∧ (Path.ofText path).isRelativeTo (Path.ofText parent)
  brief       : ∀ brief, context.lookup "task_brief" = some brief → AllWithin row.contract.writeSet (carried brief)
  other       : ∀ brief, context.lookup "taskBrief" = some brief → AllWithin row.contract.writeSet (carried brief)
  capsule     : ∀ capsule, context.lookup "engineering_task_capsule" = some capsule →
    AllWithin row.contract.writeSet (writeSetOf capsule)

-- A context does not go beyond the contract.
structure Contained (w : World) (row : CommandAssignment) (v : Verified) : Prop where
  paths   : ∀ path ∈ v.allowedWritePaths, Within row.contract.writeSet path
  brief   : AllWithin row.contract.writeSet (carried v.taskBrief)
  other   : AllWithin row.contract.writeSet (carried v.taskBriefAlias)
  capsule : AllWithin row.contract.writeSet (writeSetOf v.engineeringTaskCapsule)

theorem within_self {writeSet : List String} {path : String} (h : path ∈ writeSet) : Within writeSet path :=
  ⟨path, h, .inl ⟨rfl, fun h => h⟩⟩

theorem allWithin_self {writeSet : List String} : AllWithin writeSet (writeSet.map .str) := by
  intro value hvalue
  obtain ⟨path, hpath, hvalue⟩ := List.mem_map.mp hvalue
  exact ⟨path, hvalue.symm, within_self hpath⟩

theorem contained_of_contract (h : OfContract w row v) : Contained w row v := by
  have hbrief : AllWithin row.contract.writeSet (carried v.taskBrief) := by
    rw [h.carried]
    intro value hvalue
    cases List.mem_append.mp hvalue
    case inl hvalue => exact allWithin_self value hvalue
    case inr hvalue => exact allWithin_self value hvalue
  refine ⟨fun path hpath => within_self (h.paths ▸ hpath), hbrief, ?_, h.capsule ▸ allWithin_self⟩
  rw [h.other, ← h.brief]
  exact hbrief

theorem isRelativeTo_self {path : Path} : path.isRelativeTo path := by
  simp [Path.isRelativeTo]

-- A path that the check lets through lies in the write set, unless it is a directory where that has a file.
theorem within_iff {writeSet : List String} {path : String} (h : writeSet.any (covers · path)) : Within writeSet path ↔
    (endsWithSep path → ∃ parent ∈ writeSet,
      endsWithSep parent ∧ (Path.ofText path).isRelativeTo (Path.ofText parent)) := by
  constructor
  case mp =>
    intro hw hsep
    obtain ⟨parent, hparent, hw⟩ := hw
    refine ⟨parent, hparent, ?_⟩
    cases hw
    case inr hw => exact hw
    case inl hw => exact ⟨hw.right hsep, hw.left ▸ isRelativeTo_self⟩
  case mpr =>
    intro hd
    cases hsep : endsWithSep path
    case true =>
      obtain ⟨parent, hparent, hd⟩ := hd hsep
      exact ⟨parent, hparent, .inr hd⟩
    case false =>
      obtain ⟨parent, hparent, hc⟩ := List.any_eq_true.mp h
      refine ⟨parent, hparent, ?_⟩
      simp only [covers, Bool.or_eq_true, Bool.and_eq_true, decide_eq_true_eq] at hc
      cases hc
      case inl he => exact .inl ⟨he, fun hs => (by rw [hsep] at hs; cases hs)⟩
      case inr hr => exact .inr hr

-- What a member of the context replaces
theorem replaced_iff {key : String} {stored : Json} {P : Json → Prop} (hstored : P stored) :
    P (context.get key stored) ↔ ∀ value, context.lookup key = some value → P value := by
  unfold Dict.get
  cases context.lookup key
  case none       => simp [hstored]
  case some value => simp

theorem mem_append {result : List String} {path added : String} :
    path ∈ append result added ↔ path ∈ result ∨ path = added := by
  unfold append
  split
  case isTrue ha  => exact ⟨.inl, fun h => h.elim (fun h => h) (fun h => h ▸ ha)⟩
  case isFalse ha => simp

theorem mem_foldlM {fs : FileSystem} {root : Path} {values : List Json} {result asked : List String}
    (h : values.foldlM (fun result value => do return append result (← concretePath fs root value)) result = .ok asked)
    {path : String} : path ∈ asked ↔ path ∈ result ∨ ∃ value ∈ values, concretePath fs root value = .ok path := by
  induction values generalizing result
  case nil => cases h; simp
  case cons value values hi =>
    rw [List.foldlM_cons] at h
    obtain ⟨result', hresult', h⟩ := Hoare.bind_ok h
    obtain ⟨added, hadded, hresult'⟩ := Hoare.bind_ok hresult'
    cases hresult'
    rw [hi h, mem_append, or_assoc]
    apply or_congr_right
    simp [hadded, eq_comm]

-- The paths of a path set are those that its values name.
theorem mem_paths {fs : FileSystem} {asked : List String} (h : paths fs value workspace = .ok asked) :
    ∃ root, fs.resolve (.ofText workspace) = .ok root ∧
      ∀ path, path ∈ asked ↔ ∃ value' ∈ items value, concretePath fs root value' = .ok path := by
  cases value
  case list values =>
    obtain ⟨root, hroot, h⟩ := Hoare.bind_ok h
    refine ⟨root, hroot, fun path => (mem_foldlM h).trans ?_⟩
    simp [items]
  all_goals cases h

theorem contained_narrowed (hv : OfContract w row v)
    (h : w.narrowed context row.contract.scope.workspacePath v = .ok v') :
    v'.projectAssignment = v.projectAssignment ∧ (Contained w row v' ↔ Narrow w context row) := by
  obtain ⟨asked, hasked, h⟩ := Hoare.bind_ok h
  obtain ⟨_, hpermits, h⟩ := Hoare.bind_ok h
  obtain ⟨mode, _, h⟩ := Hoare.bind_ok h
  cases h
  refine ⟨rfl, ?_⟩
  obtain ⟨root, hroot, hmem⟩ := mem_paths hasked
  have hcontract := contained_of_contract hv
  have hpaths : ∀ path ∈ asked, row.contract.writeSet.any (covers · path) := by
    intro path hpath
    rw [← hv.paths]
    exact List.all_eq_true.mp (require_ok hpermits) path hpath
  have hbrief : AllWithin row.contract.writeSet (carried (context.get "task_brief" v.taskBrief)) ↔ _ :=
    replaced_iff (P := fun brief => AllWithin row.contract.writeSet (carried brief)) hcontract.brief
  have hother : AllWithin row.contract.writeSet (carried (context.get "taskBrief" v.taskBriefAlias)) ↔ _ :=
    replaced_iff (P := fun brief => AllWithin row.contract.writeSet (carried brief)) hcontract.other
  have hcapsule : AllWithin row.contract.writeSet
      (writeSetOf (context.get "engineering_task_capsule" v.engineeringTaskCapsule)) ↔ _ :=
    replaced_iff (P := fun capsule => AllWithin row.contract.writeSet (writeSetOf capsule)) hcontract.capsule
  constructor
  case mp =>
    intro hc
    refine ⟨fun root' hroot' value hvalue path hpath => ?_, hbrief.mp hc.brief, hother.mp hc.other, hcapsule.mp hc.capsule⟩
    cases hroot.symm.trans hroot'
    have hasked' := (hmem path).mpr ⟨value, hvalue, hpath⟩
    exact (within_iff (hpaths path hasked')).mp (hc.paths path hasked')
  case mpr =>
    intro hn
    refine ⟨fun path hpath => ?_, hbrief.mpr hn.brief, hother.mpr hn.other, hcapsule.mpr hn.capsule⟩
    obtain ⟨value, hvalue, hvalue'⟩ := (hmem path).mp hpath
    exact (within_iff (hpaths path hpath)).mpr (hn.directories root hroot value hvalue path hvalue')

-- The authority of an assignment was withdrawn after its run was bound to it. A fingerprint tells the human turns of the
-- child from those that the contract knows.
def Withdrawn (w : World) (binding : Dict) (row : CommandAssignment) : Prop :=
  row.status ≠ "active" ∨
  (Json.int row.revision).eq (binding.get "revision") = false ∨
  (binding.get "cancelRequested").truthy ∨
  ∃ turns, row.contract.targetUserRevision = w.fingerprint turns ∧ w.humanTurns row.childSessionId ≠ turns ∧
    (w.fingerprint (w.humanTurns row.childSessionId) = w.fingerprint turns → w.humanTurns row.childSessionId = turns)

-- What the code promises of a context: it is that of the stored row, and does not go beyond its contract.
structure Authorized (w : World) (context binding : Dict) (row : CommandAssignment) (v : Verified) : Prop where
  assignment : v.projectAssignment = w.envelope row
  bound      : Bound w context binding row
  contained  : Contained w row v

theorem verified_of_validate (hb : w.runBinding context = .dict binding)
    (hid : binding.get "assignmentId" = .str row.assignmentId)
    (hrow : w.assignments.get? row.assignmentId = some row)
    (h : w.validateAssignmentExecutionContext context = .ok (some v)) :
    v.projectAssignment = w.envelope row ∧ Bound w context binding row ∧
      (Contained w row v ↔ (w.descendant context → Narrow w context row)) := by
  unfold World.validateAssignmentExecutionContext at h
  split at h
  case isFalse => split at h <;> cases h
  case isTrue =>
    obtain ⟨binding', hbinding, h⟩ := Hoare.bind_ok h
    obtain ⟨assignment, hassignment, h⟩ := Hoare.bind_ok h
    obtain ⟨verified, hverified, h⟩ := Hoare.bind_ok h
    cases hb.symm.trans (asDict_ok hbinding)
    obtain ⟨row', hrow', hbound⟩ := bound_of_boundAssignment hassignment
    have hsame : row' = row := by
      have heq := hbound.identity
      rw [hid] at heq
      have hids : row'.assignmentId = row.assignmentId := eq_of_beq heq
      have hstored := hbound.valid.stored
      rw [hids, hrow] at hstored
      exact (Option.some.inj hstored).symm
    subst hrow' hsame
    have hcontract := ofContract_of_executionContext hrow hverified
    split at h
    case isTrue hdescendant =>
      obtain ⟨narrowed, hnarrowed, h⟩ := Hoare.bind_ok h
      cases h
      have ⟨hassigned, hiff⟩ := contained_narrowed hcontract hnarrowed
      exact ⟨hassigned.trans hcontract.assignment, hbound, hiff.trans ⟨fun hn _ => hn, fun hn => hn hdescendant⟩⟩
    case isFalse hdescendant =>
      cases h
      have hcontained := contained_of_contract hcontract
      exact ⟨hcontract.assignment, hbound, ⟨fun _ hd => absurd hd hdescendant, fun _ => hcontained⟩⟩

-- For a run that is bound to a stored assignment:
-- a context that is returned is authorized exactly if what a descendant presents stays within the contract,
-- and once the authority was withdrawn none is returned.
theorem context_authorized_iff (hb : w.runBinding context = .dict binding)
    (hid : binding.get "assignmentId" = .str row.assignmentId)
    (hrow : w.assignments.get? row.assignmentId = some row) :
    (∀ v, w.validateAssignmentExecutionContext context = .ok (some v) →
      (Authorized w context binding row v ↔ (w.descendant context → Narrow w context row))) ∧
    (Withdrawn w binding row → ∃ error, w.validateAssignmentExecutionContext context = .error error) := by
  constructor
  case left =>
    intro v h
    obtain ⟨hassignment, hbound, hiff⟩ := verified_of_validate hb hid hrow h
    exact ⟨fun ha => hiff.mp ha.contained, fun hn => ⟨hassignment, hbound, hiff.mpr hn⟩⟩
  case right =>
    intro hw
    cases h : w.validateAssignmentExecutionContext context
    case error error => exact ⟨error, rfl⟩
    case ok result =>
      cases result
      case none =>
        have hne : binding ≠ [] := by
          intro he
          rw [he] at hid
          cases hid
        have htruthy : (w.runBinding context).truthy := by
          rw [hb]
          cases hm : binding
          case nil  => exact absurd hm hne
          case cons => rfl
        unfold World.validateAssignmentExecutionContext at h
        rw [if_pos htruthy] at h
        obtain ⟨_, _, h⟩ := Hoare.bind_ok h
        obtain ⟨_, _, h⟩ := Hoare.bind_ok h
        obtain ⟨_, _, h⟩ := Hoare.bind_ok h
        split at h
        case isTrue =>
          obtain ⟨_, _, h⟩ := Hoare.bind_ok h
          cases h
        case isFalse => cases h
      case some v =>
        have hbound := (verified_of_validate hb hid hrow h).right.left
        rcases hw with hw | hw | hw | ⟨turns, hturns, hchanged, hfingerprint⟩
        case inl         => exact absurd hbound.valid.active hw
        case inr.inl     => rw [hbound.revision] at hw; cases hw
        case inr.inr.inl => exact absurd hw hbound.cancel
        case inr.inr.inr => exact absurd (hfingerprint (hbound.valid.turns.trans hturns)) hchanged

section Sample

def sampleScope : Scope where
  projectId         := some "project"
  workspaceId       := some "workspace"
  workspacePath     := "/ws"
  resolvedScope     := some "project"
  directoryIdentity := (1, 2)

def sampleCapsule : Dict :=
  [("executionMode", .str "write"), ("readSet", .list []), ("writeSet", .list [.str "/ws/a"])]

def sampleContract : Contract where
  scope                 := sampleScope
  taskBrief             := withCapsule [("goal", .str "goal")] [] sampleCapsule
  ensured               := ⟨_, _, _, rfl⟩
  authorizationRef      := "user-instruction"
  requirementRevision   := "requirement"
  userInstruction       := "write a"
  targetUserRevision    := ""
  targetIngressRevision := .int 0
  permittedControls     := ["continue", "revoke"]
  safetyApprovalMode    := "manual"

def sampleRow : CommandAssignment where
  assignmentId   := "assignment"
  rootSessionId  := "root"
  childSessionId := "child"
  userId         := "user"
  status         := "active"
  revision       := 1
  contract       := sampleContract

def sampleBinding : Dict :=
  [("state", .str "active"), ("assignmentId", .str "assignment"), ("revision", .int 1), ("messageId", .str "message")]

def sampleMessage : Message where
  id              := "message"
  authority       := "project_assignment"
  sourceSessionId := "root"
  targetSessionId := "child"
  targetRunId     := some "run"
  sourceUserId    := some "user"
  content         := "go on"
  state           := "promoted"
  metadata        := [("assignmentId", .str "assignment"), ("assignmentRevision", .int 1),
    ("assignmentCommandDigest", .str "digest")]

def sampleScopeBinding (sessionId : String) : ScopeBinding where
  sessionId     := sessionId
  workspacePath := "/ws"
  status        := "active"
  projectId     := some "project"
  workspaceId   := some "workspace"
  resolvedScope := some "project"

-- Nothing is a link, and the workspace is the only directory.
def sampleWorld : World where
  assignments := ⟨[sampleRow], by simp⟩
  runs        := ⟨[⟨"run", "child", some "user", "running", [("sessionAssignment", .dict sampleBinding)]⟩], by simp⟩
  messages    := ⟨[sampleMessage], by simp⟩
  sessions    := ⟨[⟨"root", some "user", []⟩, ⟨"child", some "user", []⟩], by simp⟩
  bindings    := ⟨[sampleScopeBinding "root", sampleScopeBinding "child"], by simp [sampleScopeBinding]⟩
  humanTurns _ := []
  fingerprint turns := "".intercalate (turns.map fun t => t.1 ++ t.2.1 ++ t.2.2)
  digest _    := "digest"
  fs          := ⟨fun path => path, .ok, fun path => path = .ofText "/ws", fun _ => (1, 2)⟩
  text        := Python.asciiText
  numbers     := ⟨fun _ => .notFinite, fun | .int n => some n | _ => none⟩

-- A subagent of the run
def sampleContext (others : Dict) : Dict :=
  [("session_id", .str "child"), ("user_id", .str "user"), ("run_id", .str "run"), ("workspace_path", .str "/ws"),
    ("runtime_kind", .str "subagent"), ("allowed_write_paths", .list [.str "a"])] ++ others

-- The run of the sample is bound to an assignment that may write one file, and its subagent is authorized to do so.
theorem context_authorized_iff_narrowed :
    (∀ v, sampleWorld.validateAssignmentExecutionContext (sampleContext []) = .ok (some v) →
      (Authorized sampleWorld (sampleContext []) sampleBinding sampleRow v ↔
        (sampleWorld.descendant (sampleContext []) → Narrow sampleWorld (sampleContext []) sampleRow))) ∧
    (Withdrawn sampleWorld sampleBinding sampleRow →
      ∃ error, sampleWorld.validateAssignmentExecutionContext (sampleContext []) = .error error) :=
  context_authorized_iff rfl rfl rfl

-- A capsule that the subagent brings along
def smuggled : Dict :=
  sampleContext [("engineering_task_capsule", .dict [("writeSet", .list [.str "/etc/passwd"])])]

-- A subagent of the sample is given a context whose capsule names a path outside the workspace.
theorem capsule_smuggled : ¬∀ (w : World) (context binding : Dict) (row : CommandAssignment) (v : Verified),
    w.runBinding context = .dict binding → binding.get "assignmentId" = .str row.assignmentId →
    w.assignments.get? row.assignmentId = some row →
    w.validateAssignmentExecutionContext context = .ok (some v) → Contained w row v := by
  intro h
  have hok : (sampleWorld.validateAssignmentExecutionContext smuggled).toOption.join.isSome := by decide +kernel
  cases hv : sampleWorld.validateAssignmentExecutionContext smuggled
  case error => rw [hv] at hok; cases hok
  case ok result =>
    cases result
    case none => rw [hv] at hok; cases hok
    case some v =>
      have hcontained := h sampleWorld smuggled sampleBinding sampleRow v rfl rfl rfl hv
      have hnarrow := (verified_of_validate rfl rfl rfl hv).right.right.mp hcontained (by decide +kernel)
      obtain ⟨path, hpath, parent, hparent, hwithin⟩ := hnarrow.capsule _ rfl _ List.mem_cons_self
      cases hpath
      cases List.mem_singleton.mp hparent
      cases hwithin
      case inl hsame  => exact absurd hsame.left (by decide +kernel)
      case inr hbelow => exact absurd hbelow.left (by decide +kernel)

end Sample
end Assignment
