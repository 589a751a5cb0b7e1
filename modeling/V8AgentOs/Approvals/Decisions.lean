import V8AgentOs.Approvals.Invariant
import V8AgentOs.Runs.Signals

-- What decisions do, over every run.
namespace Approvals

open Python (Dict Json Text strip)
open Runs (Time RunRecord RunTable Commanded stoppingCommands controlSignal markerOf valueOf readMetadata)

variable {text : Text} {s₀ s t u : State} {e : Event} {es es' : List Event} {w : World} {a b : Approval}
  {d : Decision} {db : Database} {row : RunRecord} {id run key : String} {operation : Dict}

section Once

-- A decision stays, with its request and its response.
theorem decision_stays (r : (system text).Run s es t) (ha : s.approvals.get? id = some a) (hs : a.status ≠ .pending) :
    ∃ b, t.approvals.get? id = some b ∧ b.status = a.status ∧ b.request = a.request ∧ b.response = a.response := by
  induction r generalizing a
  case refl => exact ⟨a, ha, rfl, rfl, rfl⟩
  case trans hstep _ ih =>
    have ⟨b, hb, hbec⟩ := (moves_step hstep).kept id a ha
    have ⟨hstatus, hresponse⟩ := hbec.settled hs
    have ⟨c, hc, hcs, hcq, hcr⟩ := ih hb (hstatus ▸ hs)
    exact ⟨c, hc, hcs.trans hstatus, hcq.trans hbec.same_row.request, hcr.trans hresponse⟩

-- A call that reports nothing did nothing.
theorem unchanged_of_refused {c : Call} (h : (c.run text w db).1 = .refused) : (c.run text w db).2 = db := by
  cases c
  case add id sessionId runId kind status request response expiresAt =>
    cases ha : addPendingApproval id sessionId runId kind status request response expiresAt db
    case none     => simp only [Call.run, ha]
    case some db' => simp only [Call.run, ha] at h; cases h
  case createSpecReview id sessionId runId request expiresAt =>
    cases ha : createSpecReviewApproval id sessionId runId request expiresAt db
    case none     => simp only [Call.run, ha]
    case some db' => simp only [Call.run, ha] at h; cases h
  case resolve d =>
    cases hb : (resolvePendingApprovalIfPending text w d db).1
    case false => simp only [Call.run, unchanged_of_resolve hb]
    case true  => simp only [Call.run, hb] at h; cases h
  case claim id restart =>
    cases hd : (claimApprovalResume w id restart db).1
    case none    => simp only [Call.run, unchanged_of_claim hd]
    case some d' => simp only [Call.run, hd] at h; cases h
  case transition m =>
    cases hb : (transitionApprovalResume w m db).1
    case false => simp only [Call.run, unchanged_of_transition hb]
    case true  => simp only [Call.run, hb] at h; cases h
  case recover nowText => cases h

end Once

section Runs

theorem controlled_of_commanded {commands : List String} (h : Commanded commands row.metadata) : controlled row := by
  have ⟨signal, hs, _⟩ := h
  have ⟨hm, hne⟩ := Option.filter_eq_some_iff.mp hs
  unfold markerOf at hm
  split at hm
  case h_2 => cases hm
  case h_1 d hl =>
    cases hm
    have hne : signal ≠ [] := by simpa using hne
    simp [controlled, Runs.orDict, Dict.get, hl, Json.truthy, hne]

theorem rejects_of_controlled (h : controlled row) : rejects d a row = false := by
  simp [rejects, h]

-- A decision sets the signal, or leaves it.
theorem decidedMetadata_lookup {operations : List Dict} (hk : key ≠ "approvedSafetyOperations")
    (hr : key = "control_signal" → rejects d a row = false) :
    (decidedMetadata d a row operations).lookup key = row.metadata.lookup key := by
  have h : (if rejects d a row then row.metadata.set "control_signal" (.dict (rejectionSignal d))
      else row.metadata).lookup key = row.metadata.lookup key := by
    split
    case isFalse => rfl
    case isTrue hrej =>
      apply Dict.lookup_set_of_ne
      intro hc
      rw [hr hc] at hrej
      cases hrej
  unfold decidedMetadata
  cases d.operation
  case none           => exact h
  case some operation => exact (Dict.lookup_set_of_ne hk).trans h

-- What a decision does to a run
structure Decides (db' : Database) (row row' : RunRecord) : Prop where
  terminal : terminal row.status → row'.status = row.status
  signal   : Commanded stoppingCommands row.metadata → controlSignal row'.metadata = controlSignal row.metadata
  released : row.status = "waiting_approval" → row'.status = "running" →
    ∀ i b, db'.approvals.get? i = some b → b.pendingFor row.id = false

theorem Decides.refl : Decides db row row where
  terminal _     := rfl
  signal _       := rfl
  released hw hr := by simp [hw] at hr

theorem released_of_nextStatus {others : Bool} (h : nextStatus d a row others = "running")
    (hw : row.status = "waiting_approval") : others = false ∧ d.status = .approved := by
  unfold nextStatus at h
  split at h
  case isTrue hc =>
    simp only [Bool.and_eq_true, decide_eq_true_eq] at hc
    exact ⟨by simpa using hc.left.right, hc.left.left.right⟩
  case isFalse =>
    split at h
    case isTrue  => simp at h
    case isFalse => simp [hw] at h

theorem not_terminal {now : Time} (h : decisionRefusal text now d a (some row) = none) :
    terminal row.status = false := by
  have h := (Option.or_eq_none_iff.mp (Option.or_eq_none_iff.mp (Option.or_eq_none_iff.mp
    (Option.or_eq_none_iff.mp h).right).right).right).right
  have h := (Option.or_eq_none_iff.mp h).left
  cases ht : terminal row.status
  case false => rfl
  case true  => rw [ht] at h; cases h

theorem get?_decided {operations : List Dict} {i : String} :
    (decide w d a row operations db).approvals.get? i = (db.approvals.get? i).map fun b =>
      if b.id = d.id then b.decided d (if resumes d a row (othersPending d a db.approvals) then some (newDelivery w)
        else none) else b := by
  refine (Table.get?_update (h := by exact fun _ => rfl)).trans ?_
  simp only [decide_eq_true_eq]

theorem runs_decided {operations : List Dict} {i : String} :
    (decide w d a row operations db).runs.get? i = (db.runs.get? i).map fun r => if r.id = a.runId then
      decidedRow (nextStatus d a row (othersPending d a db.approvals)) (decidedMetadata d a row operations) r else r := by
  refine (Table.get?_update (h := by exact fun _ => rfl)).trans ?_
  simp only [decide_eq_true_eq]

-- A decision after which no other approval is pending
theorem released_of_decide {operations : List Dict} {i : String} (hst : d.status = .approved)
    (hn : othersPending d a db.approvals = false)
    (hb : (decide w d a row operations db).approvals.get? i = some b) : b.pendingFor a.runId = false := by
  rw [get?_decided] at hb
  obtain ⟨c, hc, hcb⟩ := Option.map_eq_some_iff.mp hb
  rw [← hcb]
  split
  case isTrue  => simp [Approval.pendingFor, Approval.decided, hst]
  case isFalse hid =>
    have h := List.any_eq_false.mp hn c (Table.mem_of_get? hc)
    simpa [by simpa using hid] using h

theorem decides_run (hr : db.runs.get? run = some row) :
    ∃ row', (resolvePendingApprovalIfPending text w d db).2.runs.get? run = some row' ∧
      Decides (resolvePendingApprovalIfPending text w d db).2 row row' := by
  cases hb : (resolvePendingApprovalIfPending text w d db).1
  case false => exact ⟨row, by rw [unchanged_of_resolve hb, hr], .refl⟩
  case true =>
    obtain ⟨a, row₀, operations, hst, ha, hrow, hf, _, hw⟩ := decided_of_resolve hb
    rw [hw]
    have hid := Table.key_of_get? hr
    by_cases hrun : row.id = a.runId
    case neg => exact ⟨row, by simp [runs_decided, hr, hrun], .refl⟩
    case pos =>
      have : row₀ = row := by
        rw [← hrun, hid, hr] at hrow
        exact (Option.some.inj hrow).symm
      subst this
      refine ⟨decidedRow (nextStatus d a row₀ (othersPending d a db.approvals))
        (decidedMetadata d a row₀ operations) row₀, by simp [runs_decided, hr, hrun], ?_⟩
      constructor
      case terminal =>
        intro ht
        rw [not_terminal hf] at ht
        cases ht
      case signal =>
        intro hc
        have hrej : rejects d a row₀ = false := rejects_of_controlled (controlled_of_commanded hc)
        have hl : (decidedMetadata d a row₀ operations).lookup "control_signal" = row₀.metadata.lookup "control_signal" :=
          decidedMetadata_lookup (by decide) fun _ => hrej
        show controlSignal (decidedMetadata d a row₀ operations) = _
        simp only [controlSignal, markerOf, hl]
      case released =>
        intro hwaiting hrunning i b hb
        obtain ⟨hothers, happroved⟩ := released_of_nextStatus hrunning hwaiting
        rw [hrun]
        exact released_of_decide happroved hothers hb

end Runs
section Operations

-- The key of a run's metadata that holds the operations
def operationsKey : String := "approvedSafetyOperations"

-- A value lists an operation.
def Listed (v : Option Json) (operation : Dict) : Prop :=
  ∃ items, v = some (.list items) ∧ .dict operation ∈ items

-- What a decision found where it approved an operation of a run
structure Approves (text : Text) (s : State) (d : Decision) (w : World) (run : String) (operation : Dict) (a : Approval)
    (row : RunRecord) : Prop where
  status    : d.status = .approved
  operation : d.approvedOperation = some operation
  approval  : s.approvals.get? d.id = some a
  runId     : a.runId = run
  found     : s.base.runs.get? run = some row
  pending   : a.status = .pending
  request   : ∀ e, d.expectedRequest = some e → (Json.dict a.request).eq (.dict e)
  scope     : scopeChanged a.request row.metadata = false
  unexpired : expiryRefusal w.now a.expiresAt = none

-- The operation was approved in one of the steps of a run.
def Given (text : Text) (s₀ : State) (es : List Event) (run : String) (operation : Dict) : Prop :=
  ∃ es₁ es₂ s d w a row, es = es₁ ++ .call (.resolve d) w .done :: es₂ ∧ (system text).Run s₀ es₁ s ∧
    Approves text s d w run operation a row

theorem Given.append (h : Given text s₀ es run operation) : Given text s₀ (es ++ es') run operation := by
  obtain ⟨es₁, es₂, s, d, w, a, row, he, r, ha⟩ := h
  exact ⟨es₁, es₂ ++ es', s, d, w, a, row, by simp [he], r, ha⟩

theorem listed_operations {operations : List Dict} {metadata : Dict} (h : operationsOf metadata = some operations)
    (ho : operation ∈ operations) : Listed (metadata.lookup operationsKey) operation := by
  unfold operationsOf at h
  simp only at h
  split at h
  case isTrue => cases h; cases ho
  case isFalse =>
    split at h
    case h_1 items hi =>
      cases h
      have hl : metadata.lookup operationsKey = some (.list items) := by
        unfold Dict.get at hi
        cases hm : metadata.lookup operationsKey
        case none   => rw [show metadata.lookup "approvedSafetyOperations" = none from hm] at hi; cases hi
        case some v => rw [show metadata.lookup "approvedSafetyOperations" = some v from hm] at hi; rw [← hi]; rfl
      refine ⟨items, hl, ?_⟩
      have ⟨v, hv, hd⟩ := List.mem_filterMap.mp ho
      split at hd
      case h_1 => cases hd; exact hv
      case h_2 => cases hd
    case h_2 => cases h; cases ho
    case h_3 => cases h; cases ho
    case h_4 => cases h

theorem mem_remember {operations : List Dict} {new : Dict} (h : operation ∈ remember operations new) :
    operation ∈ operations ∨ operation = new := by
  have h := List.mem_of_mem_drop h
  cases List.mem_append.mp h
  case inl h => exact .inl (List.mem_of_mem_filter h)
  case inr h => exact .inr (List.mem_singleton.mp h)

-- The approved operation of a decision is listed, besides what was listed before.
theorem listed_decided {operations : List Dict}
    (ho : (if d.operation.isSome then operationsOf row.metadata else some []) = some operations)
    (h : Listed ((decidedMetadata d a row operations).lookup operationsKey) operation) :
    Listed (row.metadata.lookup operationsKey) operation ∨ d.operation = some operation := by
  cases hd : d.operation
  case none =>
    left
    have hl : (decidedMetadata d a row operations).lookup operationsKey = row.metadata.lookup operationsKey := by
      unfold decidedMetadata
      rw [hd]
      simp only
      split
      case isTrue  => exact Dict.lookup_set_of_ne (by decide)
      case isFalse => rfl
    rwa [hl] at h
  case some new =>
    have hl : (decidedMetadata d a row operations).lookup operationsKey =
        some (.list ((remember operations new).map .dict)) := by
      unfold decidedMetadata
      rw [hd]
      exact Dict.lookup_set_self
    rw [hl] at h
    have ⟨items, hi, hm⟩ := h
    cases hi
    have ⟨o, hor, hoe⟩ := List.mem_map.mp hm
    cases hoe
    rw [hd] at ho
    cases mem_remember hor
    case inl h => exact .inl (listed_operations ho h)
    case inr h => exact .inr (congrArg some h.symm)

theorem approved_of_operation (h : d.operation = some operation) :
    d.status = .approved ∧ d.approvedOperation = some operation := by
  unfold Decision.operation at h
  split at h
  case isTrue hs => exact ⟨hs, (Option.filter_eq_some_iff.mp h).left⟩
  case isFalse   => cases h

theorem approves_of_decided (ha : s.approvals.get? d.id = some a) (hr : s.base.runs.get? a.runId = some row)
    (hf : decisionRefusal text w.now d a (some row) = none) (ho : d.operation = some operation) :
    Approves text s d w a.runId operation a row := by
  have ⟨hpending, hf⟩ := Option.or_eq_none_iff.mp hf
  have ⟨hrequest, hf⟩ := Option.or_eq_none_iff.mp hf
  have ⟨hscope, hf⟩ := Option.or_eq_none_iff.mp hf
  have ⟨_, hf⟩ := Option.or_eq_none_iff.mp hf
  have ⟨_, hf⟩ := Option.or_eq_none_iff.mp hf
  have ⟨_, hexpiry⟩ := Option.or_eq_none_iff.mp hf
  have ⟨hstatus, happroved⟩ := approved_of_operation ho
  have hfalse : ∀ {p : Bool} {reason : String}, because p reason = none → p = false := by
    intro p reason h
    cases p
    case false => rfl
    case true  => cases h
  constructor
  case status    => exact hstatus
  case operation => exact happroved
  case approval  => exact ha
  case runId     => rfl
  case found     => exact hr
  case pending   => simpa using hfalse hpending
  case scope     => exact hfalse hscope
  case unexpired => exact hexpiry
  case request =>
    intro e he
    simpa [he] using hfalse hrequest

-- What a decision lists on a run
theorem listed_resolve (h : Listed (valueOf (resolvePendingApprovalIfPending text w d s.db).2.runs run operationsKey)
      operation) :
    Listed (valueOf s.base.runs run operationsKey) operation ∨
      (resolvePendingApprovalIfPending text w d s.db).1 = true ∧ ∃ a row, Approves text s d w run operation a row := by
  cases hb : (resolvePendingApprovalIfPending text w d s.db).1
  case false =>
    rw [unchanged_of_resolve hb] at h
    exact .inl h
  case true =>
    obtain ⟨a, row, operations, _, ha, hr, hf, ho, hw⟩ := decided_of_resolve hb
    rw [hw] at h
    have hv : valueOf (decide w d a row operations s.db).runs run operationsKey =
        if a.runId = run then (decidedMetadata d a row operations).lookup operationsKey
        else valueOf s.base.runs run operationsKey := by
      simp only [decide]
      exact Runs.valueOf_update hr
    rw [hv] at h
    split at h
    case isFalse => exact .inl h
    case isTrue hrun =>
      subst hrun
      cases listed_decided ho h
      case inl h =>
        left
        rw [← Runs.valueOf_of_get? hr] at h
        exact h
      case inr h => exact .inr ⟨rfl, a, row, approves_of_decided ha hr hf h⟩

section Calls

-- Every run keeps the value of its operations.
def SameOperations (runs runs' : RunTable) : Prop :=
  ∀ run, valueOf runs' run operationsKey = valueOf runs run operationsKey

theorem SameOperations.update {runs : RunTable} {f : RunRecord → RunRecord} (hf : ∀ r, (f r).id = r.id)
    (h : runs.get? id = some row) (hm : (f row).metadata.lookup operationsKey = row.metadata.lookup operationsKey) :
    SameOperations runs (runs.update (·.id = id) f hf) := by
  intro run
  rw [Runs.valueOf_update h]
  split
  case isFalse => rfl
  case isTrue hid =>
    subst hid
    rw [hm, Runs.valueOf_of_get? h]

-- A run that was lost keeps the operations that it had in the beginning.
theorem recovered_operations {now : Time} {nowText : String} {runs : RunTable} (h : SameOperations db.runs runs)
    (hr : db.interrupted a = some row) : SameOperations db.runs (recoverRun now nowText runs a row) := by
  have hrow : db.runs.get? row.id = some row := by
    unfold Database.interrupted at hr
    split at hr
    case isFalse => cases hr
    case isTrue =>
      have hg := (Option.filter_eq_some_iff.mp (Option.filter_eq_some_iff.mp hr).left).left
      rwa [Table.key_of_get? hg]
  intro run
  unfold recoverRun
  cases hg : runs.get? row.id
  case none => rw [Runs.update_none hg, h run]
  case some row' =>
    rw [Runs.valueOf_update hg]
    split
    case isFalse => exact h run
    case isTrue hid =>
      subst hid
      rw [Runs.valueOf_of_get? hrow]
      exact Dict.lookup_merge.trans rfl

theorem recover_operations {now : Time} {nowText : String} (as : List Approval) {runs : RunTable}
    (h : SameOperations db.runs runs) :
    SameOperations db.runs (as.foldl (fun runs a => match db.interrupted a with
      | some row => recoverRun now nowText runs a row
      | none     => runs) runs) := by
  induction as generalizing runs
  case nil => exact h
  case cons a as hi =>
    apply hi
    cases hr : db.interrupted a
    case none     => simp only [hr]; exact h
    case some row => simp only [hr]; exact recovered_operations h hr

-- Only a decision lists an operation.
theorem listed_call {c : Call} (h : Listed (valueOf (c.run text w s.db).2.runs run operationsKey) operation) :
    Listed (valueOf s.base.runs run operationsKey) operation ∨
      ∃ d a row, c = .resolve d ∧ (c.run text w s.db).1 = .done ∧ Approves text s d w run operation a row := by
  have keep {runs : RunTable} (hs : SameOperations s.base.runs runs) (h : Listed (valueOf runs run operationsKey)
      operation) : Listed (valueOf s.base.runs run operationsKey) operation := by
    rwa [hs run] at h
  cases c
  case resolve d =>
    cases listed_resolve h
    case inl h => exact .inl h
    case inr h =>
      obtain ⟨hb, a, row, ha⟩ := h
      exact .inr ⟨d, a, row, rfl, by simp only [Call.run, hb]; rfl, ha⟩
  case recover nowText => exact .inl (keep (recover_operations s.db.approvals.rows fun _ => rfl) h)
  case add id sessionId runId kind status request response expiresAt =>
    cases ha : addPendingApproval id sessionId runId kind status request response expiresAt s.db
    case none    => simp only [Call.run, ha] at h; exact .inl h
    case some db => simp only [Call.run, ha, runs_add ha] at h; exact .inl h
  case createSpecReview id sessionId runId request expiresAt =>
    cases ha : createSpecReviewApproval id sessionId runId request expiresAt s.db
    case none => simp only [Call.run, ha] at h; exact .inl h
    case some db =>
      simp only [Call.run, ha] at h
      cases review_of_create ha
      case inl hsame => rw [hsame] at h; exact .inl h
      case inr hrev =>
        obtain ⟨_, row, hrow, _, hrev⟩ := hrev
        rw [runs_review hrev] at h
        exact .inl (keep (SameOperations.update (by exact fun _ => rfl) hrow rfl) h)
  case claim id restart =>
    cases hd : (claimApprovalResume w id restart s.db).1
    case none => simp only [Call.run, unchanged_of_claim hd] at h; exact .inl h
    case some d =>
      obtain ⟨_, _, _, _, _, _, _, hw⟩ := claimed_of_claim hd
      simp only [Call.run, hw] at h; exact .inl h
  case transition m =>
    cases hb : (transitionApprovalResume w m s.db).1
    case false => simp only [Call.run, unchanged_of_transition hb] at h; exact .inl h
    case true =>
      obtain ⟨_, _, _, _, _, _, _, hw⟩ := moved_of_transition hb
      simp only [Call.run, hw] at h; exact .inl h

end Calls
section History

variable {tr : Runs.Transaction} {m : Runs.Merge}

-- What a call on a run will merge: the keys that it was given, over the metadata as it read it.
theorem merge_of_start {c : Runs.Call} {runs : RunTable} (h : c.start runs = some (.transaction tr))
    (hm : tr.merge = some m) : m.updates = updatesOf c ∧ m.read = readMetadata runs tr.target := by
  cases c
  case transitionRun run status errorMessage metadata =>
    cases h
    have ⟨updates, hu, hm⟩ := Option.map_eq_some_iff.mp hm
    subst hm hu
    exact ⟨rfl, rfl⟩
  case transitionRunIfStatus run expected status errorMessage metadata =>
    cases h
    have ⟨updates, hu, hm⟩ := Option.map_eq_some_iff.mp hm
    subst hm hu
    exact ⟨rfl, rfl⟩
  case updateMetadata run updates =>
    cases hr : runs.get? run
    case none => simp [Runs.Call.start, hr] at h
    case some row =>
      simp only [Runs.Call.start, hr] at h
      cases h
      cases hm
      simp [updatesOf, readMetadata, Runs.Transaction.target, hr]
  case setControlSignal => cases h; cases hm
  case consumeControlSignal => cases h
  case clearControlSignal run expected =>
    cases ho : expected.or (Runs.getControlSignal runs run)
    case none => simp [Runs.Call.start, ho] at h
    case some observed =>
      simp only [Runs.Call.start, ho] at h
      split at h
      case isTrue  => cases h
      case isFalse => cases h

-- Every operation that a run lists, or that a call may write again, was approved for the run.
structure Recorded (text : Text) (s₀ : State) (es : List Event) (s : State) : Prop where
  run    : (system text).Run s₀ es s
  listed : ∀ run operation, Listed (valueOf s.base.runs run operationsKey) operation → Given text s₀ es run operation
  work   : ∀ i tr m, s.base.work i = some (.transaction tr) → tr.merge = some m →
    m.updates.has operationsKey = false ∧
      ∀ operation, Listed (m.read.lookup operationsKey) operation → Given text s₀ es tr.target operation

theorem recorded_init (h : (system text).init s) : Recorded text s [] s where
  run := .refl
  listed run operation hl := by
    have ⟨items, hv, _⟩ := hl
    have ⟨row, hr, hrow⟩ := Option.bind_eq_some_iff.mp hv
    have hn := h.right.right row (Table.mem_of_get? hr)
    rw [Dict.has, show row.metadata.lookup "approvedSafetyOperations" = _ from hrow] at hn
    cases hn
  work i tr m hw := by
    rw [h.right.left i] at hw
    cases hw

-- A step of a call on a run leaves the listed operations, or those that the call had read.
theorem listed_base {r : Runs.Event} {base : Runs.State} (h : Recorded text s₀ es s)
    (hs : Runs.Step text s.base r base) (hl : Listed (valueOf base.runs run operationsKey) operation) :
    Given text s₀ es run operation := by
  cases hs
  case call    => exact h.listed run operation hl
  case recheck => exact h.listed run operation hl
  case stop    => exact h.listed run operation hl
  case commit i tr w' hw =>
    have hstale : valueOf (tr.apply text w' s.base.runs).2 run operationsKey = valueOf s.base.runs run operationsKey ∨
        tr.target = run ∧ ∃ m ∈ tr.merge,
          valueOf (tr.apply text w' s.base.runs).2 run operationsKey = m.read.lookup operationsKey :=
      Runs.valueOf_stale (fun m hm => (h.work i tr m hw hm).left) (by decide)
    cases hstale
    case inl hv => exact h.listed run operation (hv ▸ hl)
    case inr hv =>
      have ⟨hrun, m, hm, hv⟩ := hv
      exact hrun ▸ (h.work i tr m hw hm).right operation (hv ▸ hl)

-- The metadata that a call reads lists what the run lists.
theorem work_base {r : Runs.Event} {base : Runs.State} (h : Recorded text s₀ es s) (hk : keepsOperations r)
    (hs : Runs.Step text s.base r base) {i : ℕ} (hw : base.work i = some (.transaction tr)) (hm : tr.merge = some m) :
    m.updates.has operationsKey = false ∧
      ∀ operation, Listed (m.read.lookup operationsKey) operation → Given text s₀ es tr.target operation := by
  cases hs
  case call j c _ =>
    by_cases hj : i = j
    case neg => exact h.work i tr m (by simpa [Function.update_of_ne hj] using hw) hm
    case pos =>
      subst hj
      have hstart : c.start s.base.runs = some (.transaction tr) := by simpa using hw
      have ⟨hu, hread⟩ := merge_of_start hstart hm
      refine ⟨?_, fun operation hl => ?_⟩
      · rw [hu]
        simpa [keepsOperations, operationsKey] using hk
      · rw [hread, Runs.readMetadata_lookup] at hl
        exact h.listed _ operation hl
  case recheck j run expected _ =>
    by_cases hj : i = j
    case neg => exact h.work i tr m (by simpa [Function.update_of_ne hj] using hw) hm
    case pos =>
      subst hj
      have hre : Runs.recheck s.base.runs run expected = some (.transaction tr) := by simpa using hw
      have ⟨_, _, htr⟩ := Option.map_eq_some_iff.mp hre
      cases htr
      cases hm
  case commit j tr' w' _ =>
    by_cases hj : i = j
    case neg => exact h.work i tr m (by simpa [Function.update_of_ne hj] using hw) hm
    case pos => subst hj; simp at hw
  case stop j =>
    by_cases hj : i = j
    case neg => exact h.work i tr m (by simpa [Function.update_of_ne hj] using hw) hm
    case pos => subst hj; simp at hw

theorem recorded_step (h : Recorded text s₀ es s) (hs : (system text).step s e t) :
    Recorded text s₀ (es ++ [e]) t := by
  have hrun := h.run.append (.single hs)
  cases hs
  case run r base hk hstep =>
    exact ⟨hrun, fun run operation hl => (listed_base h hstep hl).append, fun i tr m hw hm =>
      have hwork := work_base h hk hstep hw hm
      ⟨hwork.left, fun operation hl => (hwork.right operation hl).append⟩⟩
  case call c w _ _ _ =>
    refine ⟨hrun, fun run operation hl => ?_, fun i tr m hw hm => ?_⟩
    · cases listed_call hl
      case inl hl => exact (h.listed run operation hl).append
      case inr hd =>
        obtain ⟨d, a, row, hc, hdone, ha⟩ := hd
        subst hc
        exact ⟨es, [], s, d, w, a, row, by rw [hdone], h.run, ha⟩
    · have hwork := h.work i tr m hw hm
      exact ⟨hwork.left, fun operation hl => (hwork.right operation hl).append⟩

theorem recorded_run (h : (system text).init s₀) (r : (system text).Run s₀ es t) : Recorded text s₀ es t :=
  r.from_start (recorded_init h) fun _ _ _ _ => recorded_step

end History
end Operations
section Decided

theorem same_run (r : (system text).Run s es t) (ha : s.approvals.get? id = some a) :
    ∃ b, t.approvals.get? id = some b ∧ Becomes.Same a b := by
  induction r generalizing a
  case refl => exact ⟨a, ha, rfl, rfl, rfl, rfl, rfl, rfl⟩
  case trans hstep _ ih =>
    have ⟨b, hb, hbec⟩ := (moves_step hstep).kept id a ha
    have hab := hbec.same_row
    have ⟨c, hc, hbc⟩ := ih hb
    exact ⟨c, hc, hbc.id.trans hab.id, hbc.sessionId.trans hab.sessionId, hbc.runId.trans hab.runId,
      hbc.kind.trans hab.kind, hbc.request.trans hab.request, hbc.expiresAt.trans hab.expiresAt⟩

-- The operation of a decision that follows a read of the approval has the fingerprint of the approval's request.
theorem fingerprint_of_service {now : String} {status : Status} {response : Option Dict} {read : Approval}
    (r : (system text).Run t es u) (hread : t.approvals.get? id = some read)
    (h : Approves text u (.ofService text now read status response) w run operation a row) :
    operationFingerprint text a.request ≠ "" ∧
      operation.get "fingerprint" = .str (operationFingerprint text a.request) := by
  have ⟨b, hb, hsame⟩ := same_run r hread
  have hid : read.id = id := Table.key_of_get? hread
  have ha : u.approvals.get? read.id = some a := h.approval
  rw [hid, hb] at ha
  cases ha
  rw [hsame.request]
  have ho : (if status = .approved then approvedOperation text now read response else none) = some operation :=
    h.operation
  split at ho
  case isFalse => cases ho
  case isTrue =>
    unfold approvedOperation at ho
    split at ho
    case isTrue => cases ho
    case isFalse hne =>
      cases ho
      exact ⟨hne, rfl⟩

-- An approval is decided once. A call that reports nothing leaves everything as it is. A decision changes no run
-- that is over and no signal that stops a run, and it releases a run when nothing else of the run is pending. A run
-- lists the operations that were approved for it, with the fingerprints of the approvals.
theorem decisions_hold (h₀ : (system text).init s₀) (r : (system text).Run s₀ es t) :
    (∀ es' u id a, (system text).Run t es' u → t.approvals.get? id = some a → a.status ≠ .pending →
      ∃ b, u.approvals.get? id = some b ∧ b.status = a.status ∧ b.request = a.request ∧ b.response = a.response) ∧
    (∀ w (c : Call), (c.run text w t.db).1 = .refused → (c.run text w t.db).2 = t.db) ∧
    (∀ w d run row, t.base.runs.get? run = some row →
      ∃ row', (resolvePendingApprovalIfPending text w d t.db).2.runs.get? run = some row' ∧
        Decides (resolvePendingApprovalIfPending text w d t.db).2 row row') ∧
    (∀ run operation, Listed (valueOf t.base.runs run operationsKey) operation → Given text s₀ es run operation) ∧
    ∀ es' u id read now status response w run operation a row, (system text).Run t es' u →
      t.approvals.get? id = some read →
      Approves text u (.ofService text now read status response) w run operation a row →
      operationFingerprint text a.request ≠ "" ∧
        operation.get "fingerprint" = .str (operationFingerprint text a.request) :=
  have hruns : ∀ w d run row, t.db.runs.get? run = some row →
      ∃ row', (resolvePendingApprovalIfPending text w d t.db).2.runs.get? run = some row' ∧
        Decides (resolvePendingApprovalIfPending text w d t.db).2 row row' := fun _ _ _ _ => decides_run
  ⟨fun _ _ _ _ r' => decision_stays r', fun _ _ => unchanged_of_refused, hruns,
    (recorded_run h₀ r).listed, fun _ _ _ _ _ _ _ _ _ _ _ _ => fingerprint_of_service⟩

theorem decisions_hold_sample : Given Python.asciiText sampleState sampleAsking "run" sampleOperation := by
  have hlisted : Listed (valueOf sampleApproved.base.runs "run" operationsKey) sampleOperation :=
    ⟨[.dict sampleOperation], rfl, List.mem_singleton.mpr rfl⟩
  exact (decisions_hold sampleState_init sampleAsking_run).right.right.right.left "run" sampleOperation hlisted

end Decided
end Approvals
