import V8AgentOs.Canvas.Steps
import V8AgentOs.Lib.Transition

-- What holds of the runs of a canvas graph, over all orders of the transactions.
--
-- A transaction that is refused, or that a crash cuts short, changes nothing and is no step.
namespace Canvas

open Python (Dict Json Text)

def transactions (r : Rules) : Transition Database (Moment × Write) where
  init db      := db = .empty
  step db e db' := perform r e.1 db e.2 = some db'

-- A retry is claimed while no run of the session is active.
def RetriesAlone (db : Database) : Write → Prop
  | .claimRetry sessionId _ => db.activeRun sessionId = false
  | _                       => True

def carefulTransactions (r : Rules) : Transition Database (Moment × Write) where
  init db       := db = .empty
  step db e db' := perform r e.1 db e.2 = some db' ∧ RetriesAlone db e.2

def Database.activeRuns (db : Database) (sessionId : String) : List GraphRun :=
  db.runs.rows.filter fun run => run.sessionId = sessionId && run.status.active

-- A run has a time of completion exactly if it is not active.
def Completed (db : Database) : Prop :=
  ∀ run ∈ db.runs.rows, run.completedAt.isSome = !run.status.active

-- What every transaction keeps to
structure Lawful (text : Text) (db db' : Database) : Prop where
  -- The graph stays while a run of the session is active.
  locked : ∀ sessionId, db.activeRun sessionId → db'.stores sessionId = db.stores sessionId
  runs   : ∀ id run, db.runs.get? id = some run → ∃ next, db'.runs.get? id = some next ∧
    ([Status.succeeded, .cancelled].contains run.status → next.status = run.status) ∧
    (next.status = .queued → run.status = .queued) ∧
    (next.status = .running → run.status ≠ .running →
      run.status = .queued ∨ run.status.retryable ∧ mayContinue (retryState text run.toRunRow) = false)

section Invariants

variable {r : Rules} {m : Moment} {db db' : Database} {w : Write} {run next : GraphRun} {id sessionId : String}

theorem activeRun_iff :
    db.activeRun sessionId ↔ ∃ run ∈ db.runs.rows, run.sessionId = sessionId ∧ run.status.active := by
  simp [Database.activeRun, Table.any, List.any_eq_true]

-- Where a row of the next state comes from
theorem origin (h : perform r m db w = some db') (hnext : next ∈ db'.runs.rows) :
    (∃ run ∈ db.runs.rows, run.graphRunId = next.graphRunId ∧ Turn r.text m.now run next ∧
      (next.status.active → run.status.active ∨ w = .claimRetry run.sessionId next.graphRunId)) ∨
    ∃ request actions, w = .admitted request actions ∧ next = request.run m.now actions ∧
      db.activeRun next.sessionId = false := by
  have hget : db'.runs.get? next.graphRunId = some next := Table.get?_of_mem hnext
  cases hrun : db.runs.get? next.graphRunId
  case none     => exact .inr (inserted h hrun hget)
  case some run =>
    obtain ⟨next', hnext', hturn, hactive⟩ := turned h hrun
    rw [hget] at hnext'
    cases hnext'
    exact .inl ⟨run, Table.mem_of_get? hrun, Database.graphRunId_of_get? hrun, hturn, hactive⟩

theorem Completed.step (hc : Completed db) (h : perform r m db w = some db') : Completed db' := by
  intro next hnext
  cases origin h hnext
  case inl ho =>
    obtain ⟨run, hrun, -, hturn, -⟩ := ho
    exact hturn.completed (hc run hrun)
  case inr ho =>
    obtain ⟨request, actions, -, hnext, -⟩ := ho
    subst hnext
    rfl

theorem completed_of_reachable (h : (transactions r).Reachable db) : Completed db := by
  apply Transition.Reachable.invariant _ _ h
  case _ => exact fun db hdb run hrun => by subst hdb; exact absurd hrun List.not_mem_nil
  case _ => exact fun db e db' hc hstep => hc.step hstep

theorem lawful (h : perform r m db w = some db') : Lawful r.text db db' := by
  constructor
  case locked => exact fun sessionId ha => locked h ha
  case runs =>
    intro id run hrun
    obtain ⟨next, hnext, hturn, -⟩ := turned h hrun
    exact ⟨next, hnext, hturn.final, hturn.queued, hturn.running⟩

-- No two runs of a session are active.
def Exclusive (db : Database) : Prop :=
  ∀ a ∈ db.runs.rows, ∀ b ∈ db.runs.rows, a.sessionId = b.sessionId → a.status.active → b.status.active → a = b

-- Where a run of the session is active, every run that is active after the step was so before.
theorem active_before (h : perform r m db w = some db') (hw : RetriesAlone db w) (hnext : next ∈ db'.runs.rows)
    (ha : next.status.active) (hbusy : db.activeRun next.sessionId) :
    ∃ run ∈ db.runs.rows, run.graphRunId = next.graphRunId ∧ run.sessionId = next.sessionId ∧ run.status.active := by
  cases origin h hnext
  case inr ho =>
    obtain ⟨_, _, _, _, hfree⟩ := ho
    rw [hbusy] at hfree
    cases hfree
  case inl ho =>
    obtain ⟨run, hrun, hid, hturn, hactive⟩ := ho
    refine ⟨run, hrun, hid, hturn.ids.right.symm, (hactive ha).resolve_right fun hclaim => ?_⟩
    rw [hclaim, RetriesAlone, ← hturn.ids.right, hbusy] at hw
    cases hw

-- Where no run of the session is active, a run that is active after the step is the one that the step is about.
theorem active_after (h : perform r m db w = some db') (hnext : next ∈ db'.runs.rows) (ha : next.status.active)
    (hfree : db.activeRun next.sessionId = false) : w = .claimRetry next.sessionId next.graphRunId ∨
      ∃ request actions, w = .admitted request actions ∧ next = request.run m.now actions := by
  cases origin h hnext
  case inr ho =>
    obtain ⟨request, actions, hw, hnext, _⟩ := ho
    exact .inr ⟨request, actions, hw, hnext⟩
  case inl ho =>
    obtain ⟨run, hrun, -, hturn, hactive⟩ := ho
    cases hactive ha
    case inr hclaim => exact .inl (by rw [hclaim, hturn.ids.right])
    case inl hrunActive =>
      have hbusy : db.activeRun next.sessionId := activeRun_iff.mpr ⟨run, hrun, hturn.ids.right.symm, hrunActive⟩
      rw [hfree] at hbusy
      cases hbusy

theorem Exclusive.step (he : Exclusive db) (h : perform r m db w = some db') (hw : RetriesAlone db w) :
    Exclusive db' := by
  intro a ha b hb hsession haa hba
  cases hbusy : db.activeRun a.sessionId
  case true =>
    obtain ⟨ra, hra, haid, has, hraa⟩ := active_before h hw ha haa hbusy
    obtain ⟨rb, hrb, hbid, hbs, hrba⟩ := active_before h hw hb hba (hsession ▸ hbusy)
    have hsame : ra = rb := he ra hra rb hrb (has.trans (hsession.trans hbs.symm)) hraa hrba
    exact List.inj_on_of_nodup_map db'.runs.unique ha hb (by rw [← haid, ← hbid, hsame])
  case false =>
    cases active_after h ha haa hbusy
    case inl hwa =>
      cases active_after h hb hba (hsession ▸ hbusy)
      case inl hwb =>
        rw [hwa] at hwb
        injection hwb with _ hid
        exact List.inj_on_of_nodup_map db'.runs.unique ha hb hid
      case inr hwb =>
        obtain ⟨_, _, hwb, _⟩ := hwb
        rw [hwa] at hwb
        cases hwb
    case inr hwa =>
      obtain ⟨_, _, hwa, hna⟩ := hwa
      cases active_after h hb hba (hsession ▸ hbusy)
      case inl hwb =>
        rw [hwa] at hwb
        cases hwb
      case inr hwb =>
        obtain ⟨_, _, hwb, hnb⟩ := hwb
        rw [hwa] at hwb
        cases hwb
        rw [hna, hnb]

theorem exclusive_of_reachable (h : (carefulTransactions r).Reachable db) : Exclusive db := by
  apply Transition.Reachable.invariant _ _ h
  case _ => exact fun db hdb run hrun => by subst hdb; exact absurd hrun List.not_mem_nil
  case _ => exact fun db e db' he hstep => he.step hstep.left hstep.right

theorem reachable_of_careful (h : (carefulTransactions r).Reachable db) : (transactions r).Reachable db := by
  induction h
  case init hinit      => exact .init hinit
  case step hstep hi => exact .step hi hstep.left

-- In every run of which each retry is claimed while no run of its session is active
theorem lifecycle_holds (r : Rules) (db : Database) (h : (carefulTransactions r).Reachable db) :
    (∀ sessionId, (db.activeRuns sessionId).length ≤ 1) ∧ Completed db ∧
      ∀ m w db', perform r m db w = some db' → Lawful r.text db db' := by
  refine ⟨fun sessionId => ?_, completed_of_reachable (reachable_of_careful h), fun m w db' => lawful⟩
  have hn : (db.activeRuns sessionId).Nodup := (List.Nodup.of_map _ db.runs.unique).filter _
  apply Rows.length_le_one_of_eq hn
  intro a ha b hb
  obtain ⟨ha, hpa⟩ := List.mem_filter.mp ha
  obtain ⟨hb, hpb⟩ := List.mem_filter.mp hb
  obtain ⟨hsa, haa⟩ := Bool.and_eq_true_iff.mp hpa
  obtain ⟨hsb, hba⟩ := Bool.and_eq_true_iff.mp hpb
  exact exclusive_of_reachable h a ha b hb ((of_decide_eq_true hsa).trans (of_decide_eq_true hsb).symm) haa hba

end Invariants

section Sample

def sampleMoment (now : String) (uuid : String := now) : Moment where
  now        := now
  authorized := true
  ids n      := (s!"o{uuid}{n}", s!"e{uuid}{n}")

def sampleExecution (canvasOperationId graphRunId : String) : Execution where
  sessionId         := "s"
  graphId           := "g"
  graphRevision     := 1
  canvasOperationId := canvasOperationId
  chatRunId         := none
  graphRunId        := graphRunId
  retryGraphRunId   := none

-- A run fails, another one is admitted and the first one is retried.
def retrySteps : List (Moment × Write) :=
  [(sampleMoment "1", .save (fun _ => true) "c1" "s" "g" [] 0),
    (sampleMoment "2", .admitted (sampleExecution "op1" "r1") []),
    (sampleMoment "3", .executor "r1" (.start [])),
    (sampleMoment "4", .executor "r1" (.fail [] "" "error")),
    (sampleMoment "5", .admitted (sampleExecution "op2" "r2") []),
    (sampleMoment "6", .claimRetry "s" "r1")]

-- The claim of a retry does not look for other runs.
theorem retry_not_exclusive :
    ∃ db, (transactions sampleRules).Reachable db ∧ ¬ ∀ sessionId, (db.activeRuns sessionId).length ≤ 1 := by
  have h : ((retrySteps.foldlM (fun db e => perform sampleRules e.1 db e.2) .empty).map fun db =>
      (db.activeRuns "s").length) = some 2 := by decide +kernel
  obtain ⟨db, hdb, hlength⟩ := Option.map_eq_some_iff.mp h
  have hreachable : (transactions sampleRules).Reachable db :=
    Transition.Reachable.foldlM (fun _ _ _ hstep => hstep) (.init rfl) hdb
  refine ⟨db, hreachable, fun hall => ?_⟩
  have hone := hall "s"
  rw [hlength] at hone
  cases hone
  case step h => cases h

instance {db : Database} {w : Write} : Decidable (RetriesAlone db w) :=
  match w with
  | .claimRetry sessionId _ => inferInstanceAs (Decidable (db.activeRun sessionId = false))
  | .save .. | .history .. | .admitted .. | .executor .. | .claimCancellation .. | .finishCancellation .. | .reconcile
  | .applyTerminal .. => isTrue trivial

-- A run fails and is retried.
def aloneSteps : List (Moment × Write) :=
  [(sampleMoment "1", .save (fun _ => true) "c1" "s" "g" [] 0),
    (sampleMoment "2", .admitted (sampleExecution "op1" "r1") []),
    (sampleMoment "3", .executor "r1" (.start [])),
    (sampleMoment "4", .executor "r1" (.fail [] "" "error")),
    (sampleMoment "5", .claimRetry "s" "r1")]

theorem lifecycle_holds_sample : ∃ db : Database, (db.activeRuns "s").length = 1 ∧
    (∀ sessionId, (db.activeRuns sessionId).length ≤ 1) ∧ Completed db ∧
      ∀ m w db', perform sampleRules m db w = some db' → Lawful sampleRules.text db db' := by
  have h : ((aloneSteps.foldlM (fun db e => if RetriesAlone db e.2 then perform sampleRules e.1 db e.2 else none)
      .empty).map fun db => (db.activeRuns "s").length) = some 1 := by decide +kernel
  obtain ⟨db, hdb, hlength⟩ := Option.map_eq_some_iff.mp h
  have hreachable : (carefulTransactions sampleRules).Reachable db := by
    apply Transition.Reachable.foldlM _ (.init rfl) hdb
    intro db e db' hstep
    split at hstep
    case isTrue ha => exact ⟨hstep, ha⟩
    case isFalse   => cases hstep
  exact ⟨db, hlength, lifecycle_holds sampleRules db hreachable⟩

end Sample

end Canvas
