import V8AgentOs.Canvas.Runs
import V8AgentOs.Canvas.Undo

-- What a transaction does to the runs and to the graphs.
namespace Canvas

open Python (Dict Json Text)

-- What becomes of a run
inductive Turn (text : Text) (now : String) (run : GraphRun) : GraphRun → Prop
  | same : Turn text now run run
  | executor (w : ExecutorWrite) : (w.write run.graphRunId).expected.contains run.status →
    Turn text now run ((w.write run.graphRunId).over now run)
  | cancelling (reason : String) : [Status.queued, .running].contains run.status →
    Turn text now run (run.cancelling now reason)
  | cancelled (reason : String) (lifecycle : Dict) : [Status.cancelling, .cancelled].contains run.status →
    Turn text now run (run.cancelled text now reason lifecycle)
  | retried : run.status.retryable → retryBlocked (retryState text run.toRunRow) = false →
    Turn text now run (run.retried now)
  | interrupted : run.status.active → Turn text now run (run.interrupted text now)
  | reconciled (report : TerminalReport) : [Status.failed, .interrupted, .cancelled].contains run.status →
    Turn text now run (run.reconciled text now report)

namespace Database

variable {db db' : Database} {run : GraphRun} {row : RunRow} {id sessionId : String} {ids : String × String}
  {transition : Shift} {retryOf : Option String}

theorem graphRunId_of_get? (h : db.runs.get? id = some run) : run.graphRunId = id :=
  Table.key_of_get? (t := db.runs) h

@[simp] theorem get?_putRun : (db.putRun run).runs.get? id =
    if id = run.graphRunId then (db.runs.get? id).map fun _ => run else db.runs.get? id := by
  rw [putRun, Table.get?_update]
  cases h : db.runs.get? id
  case none => simp
  case some old =>
    have hid : old.graphRunId = id := graphRunId_of_get? h
    by_cases hrun : id = run.graphRunId
    case pos => simp [hid, hrun]
    case neg => simp [hid, hrun]

-- An intent is written, or it was written before and is the same.
theorem enqueued (h : db.enqueue ids row transition retryOf = some db') :
    (∃ i ∈ db.outbox, i.isFor row transition ∧ i.runRow = row ∧ db' = db) ∨
      (∀ i ∈ db.outbox, i.isFor row transition = false) ∧
      (∀ i ∈ db.outbox, i.outboxId ≠ ids.1 ∧ i.eventId ≠ ids.2) ∧
      db' = { db with outbox := db.outbox ++ [row.intent ids transition retryOf] } := by
  simp only [enqueue, Option.bind_eq_bind, Option.bind_eq_some_iff] at h
  obtain ⟨committed, -, h⟩ := h
  split at h
  case isTrue => cases h
  case isFalse =>
    split at h
    case isTrue => cases h
    case isFalse =>
      split at h
      case h_1 existing he =>
        split at h
        case isFalse => cases h
        case isTrue hsame =>
          cases h
          exact .inl ⟨existing, List.mem_of_find?_eq_some he, by simpa using List.find?_some he, hsame.left, rfl⟩
      case h_2 hn =>
        split at h
        case isTrue => cases h
        case isFalse hids =>
          cases h
          refine .inr ⟨fun i hi => by simpa using List.find?_eq_none.mp hn i hi, fun i hi => ?_, rfl⟩
          simp only [List.any_eq_true, Bool.or_eq_true, decide_eq_true_eq, not_exists, not_and, not_or] at hids
          exact hids i hi

theorem enqueue_keeps (h : db.enqueue ids row transition retryOf = some db') :
    db'.runs = db.runs ∧ db'.stores = db.stores ∧ db'.receipts = db.receipts ∧ db'.events = db.events ∧
      db'.sequenceHeads = db.sequenceHeads := by
  cases enqueued h
  case inl h => obtain ⟨i, -, -, -, h⟩ := h; subst h; exact ⟨rfl, rfl, rfl, rfl, rfl⟩
  case inr h => obtain ⟨-, -, h⟩ := h; subst h; exact ⟨rfl, rfl, rfl, rfl, rfl⟩

theorem runOf_eq (h : db.runOf sessionId id = some run) : db.runs.get? id = some run ∧ run.sessionId = sessionId := by
  simpa [runOf, Option.filter_eq_some_iff] using h

end Database

-- One run is written over.
def Changes (db db' : Database) (next : GraphRun) : Prop :=
  ∀ id, db'.runs.get? id = if id = next.graphRunId then some next else db.runs.get? id

section Changes

variable {text : Text} {m : Moment} {db db' : Database} {run next : GraphRun} {ids : String × String}
  {transition : Shift} {retryOf : Option String} {w : StateWrite} {sessionId graphRunId reason : String}
  {lifecycle : Dict} {report : TerminalReport}

theorem changes_putRun (h : db.runs.get? next.graphRunId = some run) : Changes db (db.putRun next) next := by
  intro id
  rw [Database.get?_putRun]
  by_cases hid : id = next.graphRunId
  case pos => simp [hid, h]
  case neg => simp [hid]

-- A run is written over, and its intent with it if its status changes.
structure Rewrites (m : Moment) (db db' : Database) (run next : GraphRun) : Prop where
  found   : db.runs.get? next.graphRunId = some run
  changes : Changes db db' next
  stores  : db'.stores = db.stores
  events  : db'.events = db.events
  told    : (db'.outbox = db.outbox ∧ run.status.publicText = next.status.publicText) ∨
    ∃ transition retryOf, ∃ db₁ : Database, db₁.outbox = db.outbox ∧
      db₁.enqueue (m.ids 0) next.toRunRow transition retryOf = some db'

theorem Rewrites.of_enqueue {db₁ : Database} (hf : db.runs.get? next.graphRunId = some run)
    (hr : db₁.runs = (db.putRun next).runs) (hs : db₁.stores = db.stores) (he : db₁.events = db.events)
    (ho : db₁.outbox = db.outbox) (h : db₁.enqueue (m.ids 0) next.toRunRow transition retryOf = some db') :
    Rewrites m db db' run next := by
  have hkeeps := Database.enqueue_keeps h
  constructor
  case found => exact hf
  case changes =>
    intro id
    rw [hkeeps.left, hr]
    exact changes_putRun hf id
  case stores => exact hkeeps.right.left.trans hs
  case events => exact hkeeps.right.right.right.left.trans he
  case told => exact .inr ⟨transition, retryOf, db₁, ho, h⟩

theorem wroteRunState (h : writeRunState m w db = some db') : ∃ run, db.runs.get? w.graphRunId = some run ∧
    w.expected.contains run.status ∧ Rewrites m db db' run (w.over m.now run) := by
  simp only [writeRunState, Option.bind_eq_bind, Option.bind_eq_some_iff] at h
  obtain ⟨run, hrun, h⟩ := h
  have hid : run.graphRunId = w.graphRunId := Database.graphRunId_of_get? hrun
  split at h
  case isTrue => cases h
  case isFalse hexpected =>
    refine ⟨run, hrun, by simpa using hexpected, ?_⟩
    have hfound : db.runs.get? (w.over m.now run).graphRunId = some run := by rw [← hrun, ← hid]; rfl
    split at h
    case isFalse => exact .of_enqueue hfound rfl rfl rfl rfl h
    case isTrue hsame =>
      cases h
      exact ⟨hfound, changes_putRun hfound, rfl, rfl, .inl ⟨rfl, hsame⟩⟩

theorem claimedRunCancellation (h : claimRunCancellation m sessionId graphRunId reason db = some db') :
    db' = db ∨ ∃ run, db.runs.get? graphRunId = some run ∧ [Status.queued, .running].contains run.status ∧
      Rewrites m db db' run (run.cancelling m.now reason) := by
  simp only [claimRunCancellation, Option.bind_eq_bind, Option.bind_eq_some_iff] at h
  obtain ⟨run, hrun, h⟩ := h
  obtain ⟨hrun, -⟩ := Database.runOf_eq hrun
  have hid : run.graphRunId = graphRunId := Database.graphRunId_of_get? hrun
  split at h
  case isTrue => cases h
  case isFalse =>
    split at h
    case isTrue => cases h; exact .inl rfl
    case isFalse =>
      split at h
      case isTrue => cases h
      case isFalse hstatus =>
        have hfound : db.runs.get? (run.cancelling m.now reason).graphRunId = some run := by rw [← hrun, ← hid]; rfl
        have hstatus : [Status.queued, .running].contains run.status := by
          simpa only [Bool.not_eq_true', Bool.not_eq_false] using hstatus
        exact .inr ⟨run, hrun, hstatus, .of_enqueue hfound rfl rfl rfl rfl h⟩

theorem finishedRunCancellation (h : finishRunCancellation text m sessionId graphRunId reason lifecycle db = some db') :
    ∃ run, db.runs.get? graphRunId = some run ∧ [Status.cancelling, .cancelled].contains run.status ∧
      Rewrites m db db' run (run.cancelled text m.now reason lifecycle) := by
  simp only [finishRunCancellation, Option.bind_eq_bind, Option.bind_eq_some_iff] at h
  obtain ⟨run, hrun, h⟩ := h
  obtain ⟨hrun, -⟩ := Database.runOf_eq hrun
  have hid : run.graphRunId = graphRunId := Database.graphRunId_of_get? hrun
  have hfound : db.runs.get? (run.cancelled text m.now reason lifecycle).graphRunId = some run := by
    rw [← hrun, ← hid]; rfl
  split at h
  case isTrue => cases h
  case isFalse hstatus =>
    refine ⟨run, hrun, by simpa only [Bool.not_eq_true', Bool.not_eq_false] using hstatus, ?_⟩
    split at h
    case isFalse => exact .of_enqueue hfound rfl rfl rfl rfl h
    case isTrue hsame =>
      cases h
      exact ⟨hfound, changes_putRun hfound, rfl, rfl, .inl ⟨rfl, hsame⟩⟩

theorem claimedFailedRetry (h : claimFailedRetry text m sessionId graphRunId db = some db') :
    ∃ run, db.runs.get? graphRunId = some run ∧ run.sessionId = sessionId ∧ run.status.retryable ∧
      retryBlocked (retryState text run.toRunRow) = false ∧ Rewrites m db db' run (run.retried m.now) := by
  simp only [claimFailedRetry, Option.bind_eq_bind, Option.bind_eq_some_iff] at h
  obtain ⟨run, hrun, graph, -, h⟩ := h
  obtain ⟨hrun, hsession⟩ := Database.runOf_eq hrun
  have hid : run.graphRunId = graphRunId := Database.graphRunId_of_get? hrun
  split at h
  case isTrue => cases h
  case isFalse hok =>
    simp only [not_or, Bool.not_eq_true, Bool.not_eq_false'] at hok
    have hfound : db.runs.get? (run.retried m.now).graphRunId = some run := by rw [← hrun, ← hid]; rfl
    exact ⟨run, hrun, hsession, hok.right.left, hok.right.right.right, .of_enqueue hfound rfl rfl rfl rfl h⟩

theorem appliedTerminal (h : applyRemoteTerminalReconciliation text m report db = some db') :
    db' = db ∨ ∃ run, db.runs.get? report.graphRunId = some run ∧
      [Status.failed, .interrupted, .cancelled].contains run.status ∧
      Rewrites m db db' run (run.reconciled text m.now report) := by
  simp only [applyRemoteTerminalReconciliation, Option.bind_eq_bind, Option.bind_eq_some_iff] at h
  obtain ⟨run, hrun, graph, -, h⟩ := h
  obtain ⟨hrun, -⟩ := Database.runOf_eq hrun
  have hid : run.graphRunId = report.graphRunId := Database.graphRunId_of_get? hrun
  have hfound : db.runs.get? (run.reconciled text m.now report).graphRunId = some run := by rw [← hrun, ← hid]; rfl
  split at h
  case isTrue => cases h
  case isFalse =>
    split at h
    case h_1 =>
      split at h
      case isTrue  => cases h; exact .inl rfl
      case isFalse => cases h
    case h_2 =>
      split at h
      case isTrue => cases h
      case isFalse hok =>
        split at h
        case isTrue => cases h; exact .inl rfl
        case isFalse =>
          split at h
          case isTrue => cases h
          case isFalse =>
            right
            have hstatus : [Status.failed, .interrupted, .cancelled].contains run.status := by
              simpa only [Bool.not_eq_true', Bool.not_eq_false] using (not_or.mp hok).left
            refine ⟨run, hrun, hstatus, .of_enqueue hfound ?_ ?_ ?_ ?_ h⟩
            all_goals rfl

theorem admitted {request : Execution} {actions : List PlanEntry} (h : admitRun m request actions db = some db') :
    db' = db ∨ (db.runs.get? request.graphRunId = none ∧ db.activeRun request.sessionId = false ∧
      Changes db db' (request.run m.now actions) ∧ db'.stores = db.stores ∧ db'.events = db.events ∧
      ∃ db₁ : Database, db₁.outbox = db.outbox ∧
        db₁.enqueue (m.ids 0) (request.run m.now actions).toRunRow .none none = some db') := by
  simp only [admitRun, Option.bind_eq_bind, Option.bind_eq_some_iff] at h
  obtain ⟨graph, -, h⟩ := h
  split at h
  case isTrue => cases h
  case isFalse =>
    split at h
    case h_1 =>
      split at h
      case isTrue  => cases h
      case isFalse => cases h; exact .inl rfl
    case h_2 =>
      split at h
      case isTrue => cases h
      case isFalse hfree =>
        right
        obtain ⟨runs, hruns, h⟩ := Option.bind_eq_some_iff.mp h
        have hkeeps := Database.enqueue_keeps h
        refine ⟨Table.get?_none_of_insert hruns, by simpa using (not_or.mp hfree).right, fun id => ?_, ?_, ?_, ?_⟩
        case refine_1 =>
          rw [hkeeps.left]
          show runs.get? id = _
          rw [Table.get?_insert hruns]
          by_cases hid : id = request.graphRunId
          case pos => subst hid; rfl
          case neg =>
            have hid' : ¬ (request.run m.now actions).graphRunId = id := fun h => hid h.symm
            rw [if_neg hid', if_neg fun h => hid' h.symm]
        case refine_2 => exact hkeeps.right.left
        case refine_3 => exact hkeeps.right.right.right.left
        case refine_4 => exact ⟨{ db with runs }, rfl, h⟩

-- What the loop of the reconciliation does
structure Interrupts (text : Text) (m : Moment) (runs : List GraphRun) (db db' : Database) : Prop where
  stores : db'.stores = db.stores
  events : db'.events = db.events
  runs   : ∀ id, db'.runs.get? id =
    ((runs.find? (·.graphRunId = id)).map (·.interrupted text m.now)).or (db.runs.get? id)

theorem interrupted {runs : List GraphRun} {index : ℕ} (hn : (runs.map (·.graphRunId)).Nodup)
    (hruns : ∀ run ∈ runs, db.runs.get? run.graphRunId = some run) (h : interruptRuns text m runs index db = some db') :
    Interrupts text m runs db db' := by
  induction runs generalizing index db
  case nil =>
    cases h
    exact ⟨rfl, rfl, fun id => by simp⟩
  case cons run runs hi =>
    rw [List.map_cons, List.nodup_cons] at hn
    simp only [interruptRuns, Option.bind_eq_bind, Option.bind_eq_some_iff] at h
    obtain ⟨db₁, h₁, h⟩ := h
    have hkeeps := Database.enqueue_keeps h₁
    have hchanges : Changes db db₁ (run.interrupted text m.now) := by
      intro id
      rw [hkeeps.left]
      have hfound : db.runs.get? (run.interrupted text m.now).graphRunId = some run := hruns run List.mem_cons_self
      exact changes_putRun hfound id
    have hne : ∀ other ∈ runs, other.graphRunId ≠ run.graphRunId :=
      fun other ho he => hn.left (he ▸ List.mem_map.mpr ⟨other, ho, rfl⟩)
    have hrest : ∀ other ∈ runs, db₁.runs.get? other.graphRunId = some other := by
      intro other ho
      have hother : ¬ other.graphRunId = (run.interrupted text m.now).graphRunId := hne other ho
      rw [hchanges, if_neg hother]
      exact hruns other (List.mem_cons_of_mem _ ho)
    have hi := hi hn.right hrest h
    constructor
    case stores => exact hi.stores.trans hkeeps.right.left
    case events => exact hi.events.trans hkeeps.right.right.right.left
    case runs =>
      intro id
      rw [hi.runs, hchanges, List.find?_cons]
      by_cases hid : run.graphRunId = id
      case pos =>
        subst hid
        have hnone : runs.find? (·.graphRunId = run.graphRunId) = none :=
          List.find?_eq_none.mpr fun other ho => by simpa using hne other ho
        simp [hnone, GraphRun.interrupted]
      case neg =>
        have hid' : ¬ id = (run.interrupted text m.now).graphRunId := fun h => hid h.symm
        simp [hid, if_neg hid']

theorem reconciledStartup (h : reconcileStartup text m db = some db') :
    Interrupts text m (db.runs.rows.filter (·.status.active)) db db' := by
  apply interrupted _ _ h
  case _ => exact db.runs.unique.sublist (List.filter_sublist.map _)
  case _ => exact fun run hrun => Table.get?_of_mem (List.mem_of_mem_filter hrun)

theorem Interrupts.get? (h : Interrupts text m (db.runs.rows.filter (·.status.active)) db db') {id : String} :
    db'.runs.get? id =
      (db.runs.get? id).map fun run => if run.status.active then run.interrupted text m.now else run := by
  rw [h.runs]
  cases hf : (db.runs.rows.filter (·.status.active)).find? (·.graphRunId = id)
  case some run =>
    have hmem := List.mem_of_find?_eq_some hf
    have hid : run.graphRunId = id := by simpa using List.find?_some hf
    have hrun : db.runs.get? id = some run := hid ▸ Table.get?_of_mem (List.mem_of_mem_filter hmem)
    have hactive : run.status.active := (List.mem_filter.mp hmem).right
    simp [hrun, hactive]
  case none =>
    cases hrun : db.runs.get? id
    case none => rfl
    case some run =>
      have hactive : run.status.active = false := by
        cases hactive : run.status.active
        case false => rfl
        case true =>
          have hmem : run ∈ db.runs.rows.filter (·.status.active) :=
            List.mem_filter.mpr ⟨Table.mem_of_get? hrun, hactive⟩
          have hid := Database.graphRunId_of_get? hrun
          simpa [hid] using List.find?_eq_none.mp hf run hmem
      simp [hactive]

end Changes

namespace Turn

variable {text : Text} {now : String} {run next : GraphRun}

theorem ids (h : Turn text now run next) : next.graphRunId = run.graphRunId ∧ next.sessionId = run.sessionId := by
  cases h
  all_goals exact ⟨rfl, rfl⟩

-- A run that succeeded or was cancelled stays so.
theorem final (h : Turn text now run next) (hf : [Status.succeeded, .cancelled].contains run.status) :
    next.status = run.status := by
  have hstatus : run.status = .succeeded ∨ run.status = .cancelled := by simpa using hf
  cases h
  case same => rfl
  case executor w hw =>
    cases w
    all_goals
      exfalso
      cases hstatus
      case inl hs => simp [ExecutorWrite.write, hs] at hw
      case inr hs => simp [ExecutorWrite.write, hs] at hw
  case cancelling reason hw =>
    exfalso
    cases hstatus
    case inl hs => simp [hs] at hw
    case inr hs => simp [hs] at hw
  case cancelled reason lifecycle hw =>
    cases hstatus
    case inl hs => simp [hs] at hw
    case inr hs => exact hs.symm
  case retried hr _ =>
    exfalso
    cases hstatus
    case inl hs => simp [hs, Status.retryable] at hr
    case inr hs => simp [hs, Status.retryable] at hr
  case interrupted ha =>
    exfalso
    cases hstatus
    case inl hs => simp [hs, Status.active] at ha
    case inr hs => simp [hs, Status.active] at ha
  case reconciled => rfl

-- A run starts to run for the first time, or it is retried and no task of it may go on.
theorem running (h : Turn text now run next) (hn : next.status = .running) (hr : run.status ≠ .running) :
    run.status = .queued ∨ run.status.retryable ∧ mayContinue (retryState text run.toRunRow) = false := by
  cases h
  case same => exact absurd hn hr
  case executor w hw =>
    cases w
    case start    => left; simpa [ExecutorWrite.write] using hw
    case progress => exact absurd (by simpa [ExecutorWrite.write] using hw) hr
    all_goals cases hn
  case retried hs hblocked =>
    right
    exact ⟨hs, (Bool.or_eq_false_iff.mp hblocked).right⟩
  case reconciled => exact absurd hn hr
  all_goals cases hn

theorem queued (h : Turn text now run next) (hn : next.status = .queued) : run.status = .queued := by
  cases h
  case same => exact hn
  case executor w _ =>
    cases w
    all_goals cases hn
  case reconciled => exact hn
  all_goals cases hn

-- A run has a time of completion exactly if it is not active.
theorem completed (h : Turn text now run next) (hc : run.completedAt.isSome = !run.status.active) :
    next.completedAt.isSome = !next.status.active := by
  cases h
  case same => exact hc
  case executor w _ =>
    cases w
    all_goals rfl
  case reconciled => exact hc
  all_goals rfl

theorem active (h : Turn text now run next) (ha : next.status.active) :
    run.status.active ∨ run.status.retryable ∧ next = run.retried now := by
  cases h
  case same => exact .inl ha
  case executor w hw =>
    left
    cases w
    case start    => have hs : run.status = .queued := by simpa [ExecutorWrite.write] using hw
                     simp [hs, Status.active]
    case progress => have hs : run.status = .running := by simpa [ExecutorWrite.write] using hw
                     simp [hs, Status.active]
    all_goals cases ha
  case cancelling reason hw =>
    left
    cases (by simpa using hw : run.status = .queued ∨ run.status = .running)
    case inl hs => simp [hs, Status.active]
    case inr hs => simp [hs, Status.active]
  case retried hs _ => exact .inr ⟨hs, rfl⟩
  case reconciled => exact .inl ha
  all_goals cases ha

end Turn

-- What a transaction may do
inductive Effect (r : Rules) (m : Moment) (db : Database) (w : Write) (db' : Database) : Prop
  | same : db' = db → Effect r m db w db'
  | stored (sessionId : String) (store : Store) : db.activeRun sessionId = false →
    db' = db.putStore sessionId store → Effect r m db w db'
  | rewrote (run next : GraphRun) : Turn r.text m.now run next → Rewrites m db db' run next →
    (next = run.retried m.now → run.status.retryable → w = .claimRetry run.sessionId run.graphRunId) →
    Effect r m db w db'
  | inserted (request : Execution) (actions : List PlanEntry) : w = .admitted request actions →
    db.runs.get? request.graphRunId = none → db.activeRun request.sessionId = false →
    Changes db db' (request.run m.now actions) → db'.stores = db.stores → db'.events = db.events →
    (∃ db₁ : Database, db₁.outbox = db.outbox ∧
      db₁.enqueue (m.ids 0) (request.run m.now actions).toRunRow .none none = some db') → Effect r m db w db'
  | interrupted : reconcileStartup r.text m db = some db' →
    Interrupts r.text m (db.runs.rows.filter (·.status.active)) db db' → Effect r m db w db'

section Perform

variable {r : Rules} {m : Moment} {db db' : Database} {w : Write} {run next : GraphRun} {id sessionId : String}

theorem not_retried {status : Status} (h : next.status = status) (hs : status ≠ .running) {P : Prop} :
    next = run.retried m.now → P :=
  fun hnext => absurd (h.symm.trans (hnext ▸ rfl)) hs

theorem effect (h : perform r m db w = some db') : Effect r m db w db' := by
  cases w
  case save available commandId sessionId graphId graph expectedRevision =>
    simp only [perform] at h
    split at h
    case isTrue => cases h
    case isFalse =>
      obtain ⟨store, hstore, h⟩ := Option.map_eq_some_iff.mp h
      obtain ⟨-, -, -, hactive, -, -⟩ := saved hstore
      exact .stored sessionId store hactive h.symm
  case history available commandId sessionId way expectedRevision =>
    simp only [perform] at h
    split at h
    case isTrue => cases h
    case isFalse =>
      obtain ⟨store, hstore, h⟩ := Option.map_eq_some_iff.mp h
      obtain ⟨-, -, -, -, -, hactive, -⟩ := applied hstore
      exact .stored sessionId store hactive h.symm
  case admitted request actions =>
    cases admitted h
    case inl hsame => exact .same hsame
    case inr hnew =>
      obtain ⟨hn, hfree, hchanges, hstores, hevents, henqueue⟩ := hnew
      exact .inserted request actions rfl hn hfree hchanges hstores hevents henqueue
  case executor graphRunId write =>
    obtain ⟨run, hrun, hexpected, hrewrites⟩ := wroteRunState h
    have hid : (write.write graphRunId).graphRunId = graphRunId := by cases write <;> rfl
    have hrunId : run.graphRunId = graphRunId := (Database.graphRunId_of_get? hrun).trans hid
    subst hrunId
    apply Effect.rewrote run _ (.executor write hexpected) hrewrites
    intro hnext hretry
    exfalso
    cases write
    case start => simp [ExecutorWrite.write] at hexpected; simp [hexpected, Status.retryable] at hretry
    case progress => simp [ExecutorWrite.write] at hexpected; simp [hexpected, Status.retryable] at hretry
    all_goals exact not_retried rfl (fun hs => by cases hs) hnext
  case claimCancellation sessionId graphRunId reason =>
    cases claimedRunCancellation h
    case inl hsame => exact .same hsame
    case inr hrun =>
      obtain ⟨run, -, hstatus, hrewrites⟩ := hrun
      exact .rewrote run _ (.cancelling reason hstatus) hrewrites (not_retried rfl fun hs => by cases hs)
  case finishCancellation sessionId graphRunId reason lifecycle =>
    obtain ⟨run, -, hstatus, hrewrites⟩ := finishedRunCancellation h
    exact .rewrote run _ (.cancelled reason lifecycle hstatus) hrewrites (not_retried rfl fun hs => by cases hs)
  case claimRetry sessionId graphRunId =>
    obtain ⟨run, hrun, hsession, hretry, hblocked, hrewrites⟩ := claimedFailedRetry h
    have hid : run.graphRunId = graphRunId := Database.graphRunId_of_get? hrun
    exact .rewrote run _ (.retried hretry hblocked) hrewrites fun _ _ => by rw [hid, hsession]
  case reconcile => exact .interrupted h (reconciledStartup h)
  case applyTerminal report =>
    cases appliedTerminal h
    case inl hsame => exact .same hsame
    case inr hrun =>
      obtain ⟨run, -, hstatus, hrewrites⟩ := hrun
      apply Effect.rewrote run _ (.reconciled report hstatus) hrewrites
      intro hnext hretry
      have hrunning : run.status = .running := congrArg (·.status) hnext
      simp [hrunning] at hstatus

-- A run takes a turn. It becomes active only by a retry.
theorem turned (h : perform r m db w = some db') (hrun : db.runs.get? id = some run) :
    ∃ next, db'.runs.get? id = some next ∧ Turn r.text m.now run next ∧
      (next.status.active → run.status.active ∨ w = .claimRetry run.sessionId id) := by
  have hid : run.graphRunId = id := Database.graphRunId_of_get? hrun
  cases effect h
  case same hsame =>
    subst hsame
    exact ⟨run, hrun, .same, .inl⟩
  case stored sessionId store _ hstore =>
    subst hstore
    exact ⟨run, hrun, .same, .inl⟩
  case rewrote old next hturn hrewrites hretry =>
    by_cases hother : id = next.graphRunId
    case neg => exact ⟨run, by rw [hrewrites.changes, if_neg hother, hrun], .same, .inl⟩
    case pos =>
      have hold : old = run := by
        have hf := hrewrites.found
        rw [← hother, hrun] at hf
        exact (Option.some.inj hf).symm
      subst hold
      refine ⟨next, by rw [hrewrites.changes, if_pos hother], hturn, fun ha => ?_⟩
      cases hturn.active ha
      case inl ha => exact .inl ha
      case inr hr =>
        have hw := hretry hr.right hr.left
        rw [hid] at hw
        exact .inr hw
  case inserted request actions _ hn _ hchanges _ _ _ =>
    have hother : ¬ id = (request.run m.now actions).graphRunId := by
      intro heq
      have hn : db.runs.get? (request.run m.now actions).graphRunId = none := hn
      rw [← heq, hrun] at hn
      cases hn
    exact ⟨run, by rw [hchanges, if_neg hother, hrun], .same, .inl⟩
  case interrupted hi =>
    rw [hi.get?, hrun]
    cases ha : run.status.active
    case false => exact ⟨run, by simp [ha], .same, fun h => by simp [ha] at h⟩
    case true  => exact ⟨run.interrupted r.text m.now, by simp [ha], .interrupted ha, fun _ => .inl rfl⟩

-- A new run is queued while no run of its session is active.
theorem inserted (h : perform r m db w = some db') (hn : db.runs.get? id = none)
    (hnext : db'.runs.get? id = some next) :
    ∃ request actions, w = .admitted request actions ∧ next = request.run m.now actions ∧
      db.activeRun next.sessionId = false := by
  cases effect h
  case same hsame => subst hsame; simp [hn] at hnext
  case stored sessionId store _ hstore =>
    subst hstore
    have hnext : db.runs.get? id = some next := hnext
    simp [hn] at hnext
  case rewrote old new _ hrewrites _ =>
    rw [hrewrites.changes] at hnext
    split at hnext
    case isFalse => simp [hn] at hnext
    case isTrue heq =>
      have hf := hrewrites.found
      rw [← heq, hn] at hf
      cases hf
  case inserted request actions hw _ hfree hchanges _ _ _ =>
    rw [hchanges] at hnext
    split at hnext
    case isFalse => simp [hn] at hnext
    case isTrue  => cases hnext; exact ⟨request, actions, hw, rfl, hfree⟩
  case interrupted hi =>
    rw [hi.get?, hn] at hnext
    cases hnext

-- The graph of a session stays while a run of it is active.
theorem locked (h : perform r m db w = some db') (ha : db.activeRun sessionId) :
    db'.stores sessionId = db.stores sessionId := by
  cases effect h
  case same hsame => rw [hsame]
  case stored other store hfree hstore =>
    have hother : sessionId ≠ other := by
      intro heq
      rw [heq, hfree] at ha
      cases ha
    rw [hstore]
    exact Function.update_of_ne hother _ _
  case rewrote hrewrites _ => rw [hrewrites.stores]
  case inserted hs _ _ => rw [hs]
  case interrupted hi => rw [hi.stores]

end Perform

end Canvas
