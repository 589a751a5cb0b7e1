import V8AgentOs.Canvas.Steps

-- What a transaction adds to the outbox.
namespace Canvas

open Python (Text)

-- A transaction enqueues one intent with the row of a run. It may find that the same one is there already.
def Told (db : Database) (new : List Intent) (row : RunRow) : Prop :=
  (∃ i, new.filter (·.graphRunId = row.graphRunId) = [i] ∧ i.runRow = row) ∨
    new.filter (·.graphRunId = row.graphRunId) = [] ∧ ∃ i ∈ db.outbox, i.graphRunId = row.graphRunId ∧ i.runRow = row

structure Adds (db db' : Database) (new : List Intent) : Prop where
  outbox    : db'.outbox = db.outbox ++ new
  pending   : ∀ i ∈ new, i.projectedAt = none
  outboxIds : (db.outbox.map (·.outboxId)).Nodup → (db'.outbox.map (·.outboxId)).Nodup
  eventIds  : (db.outbox.map (·.eventId)).Nodup → (db'.outbox.map (·.eventId)).Nodup

section Adds

variable {text : Text} {m : Moment} {db db₁ db' : Database} {new new' : List Intent} {row : RunRow} {run : GraphRun}
  {ids : String × String} {transition : Shift} {retryOf : Option String}

theorem Adds.none (h : db'.outbox = db.outbox) : Adds db db' [] where
  outbox    := by rw [h, List.append_nil]
  pending   := fun i hi => absurd hi List.not_mem_nil
  outboxIds := by rw [h]; exact id
  eventIds  := by rw [h]; exact id

theorem Adds.trans (h : Adds db db₁ new) (h' : Adds db₁ db' new') : Adds db db' (new ++ new') where
  outbox    := by rw [h'.outbox, h.outbox, List.append_assoc]
  pending   := fun i hi => (List.mem_append.mp hi).elim (h.pending i) (h'.pending i)
  outboxIds := h'.outboxIds ∘ h.outboxIds
  eventIds  := h'.eventIds ∘ h.eventIds

theorem adds_of_enqueue (ho : db₁.outbox = db.outbox) (h : db₁.enqueue ids row transition retryOf = some db') :
    ∃ new, Adds db db' new ∧ Told db new row ∧ ∀ i ∈ new, i.graphRunId = row.graphRunId := by
  cases Database.enqueued h
  case inl hsame =>
    obtain ⟨i, hi, hfor, hrow, hdb⟩ := hsame
    subst hdb
    rw [ho] at hi
    refine ⟨[], .none ho, .inr ⟨rfl, i, hi, ?_, hrow⟩, fun i hi => absurd hi List.not_mem_nil⟩
    simp only [Intent.isFor, Bool.and_eq_true, decide_eq_true_eq] at hfor
    exact hfor.left.left.left
  case inr hnew =>
    obtain ⟨-, hids, hdb⟩ := hnew
    rw [ho] at hids
    subst hdb
    have htold : Told db [row.intent ids transition retryOf] row :=
      .inl ⟨row.intent ids transition retryOf, by simp [RunRow.intent], rfl⟩
    refine ⟨[row.intent ids transition retryOf], ⟨?_, ?_, ?_, ?_⟩, htold, ?_⟩
    case refine_1 => show db₁.outbox ++ _ = _; rw [ho]
    case refine_2 =>
      intro i hi
      cases List.mem_singleton.mp hi
      rfl
    case refine_3 =>
      intro hn
      show ((db₁.outbox ++ _).map _).Nodup
      rw [ho, List.map_append, List.map_singleton, List.nodup_append]
      refine ⟨hn, List.nodup_singleton _, fun a ha b hb => ?_⟩
      obtain ⟨i, hi, hia⟩ := List.mem_map.mp ha
      cases List.mem_singleton.mp hb
      exact hia ▸ (hids i hi).left
    case refine_4 =>
      intro hn
      show ((db₁.outbox ++ _).map _).Nodup
      rw [ho, List.map_append, List.map_singleton, List.nodup_append]
      refine ⟨hn, List.nodup_singleton _, fun a ha b hb => ?_⟩
      obtain ⟨i, hi, hia⟩ := List.mem_map.mp ha
      cases List.mem_singleton.mp hb
      exact hia ▸ (hids i hi).right
    case refine_5 =>
      intro i hi
      cases List.mem_singleton.mp hi
      rfl

theorem adds_of_interrupts {runs : List GraphRun} {index : ℕ} (hn : (runs.map (·.graphRunId)).Nodup)
    (h : interruptRuns text m runs index db = some db') :
    ∃ new, Adds db db' new ∧ (∀ i ∈ new, i.graphRunId ∈ runs.map (·.graphRunId)) ∧
      ∀ run ∈ runs, Told db new (run.interrupted text m.now).toRunRow := by
  induction runs generalizing index db
  case nil =>
    cases h
    exact ⟨[], .none rfl, fun i hi => absurd hi List.not_mem_nil, fun run hrun => absurd hrun List.not_mem_nil⟩
  case cons run runs hi =>
    rw [List.map_cons, List.nodup_cons] at hn
    simp only [interruptRuns, Option.bind_eq_bind, Option.bind_eq_some_iff] at h
    obtain ⟨db₁, h₁, h⟩ := h
    have ho : (db.putRun (run.interrupted text m.now)).outbox = db.outbox := rfl
    obtain ⟨first, hfirst, htold, hfirstId⟩ := adds_of_enqueue ho h₁
    obtain ⟨rest, hrest, hids, hall⟩ := hi hn.right h
    have hrestNone : rest.filter (·.graphRunId = run.graphRunId) = [] := by
      apply List.filter_eq_nil_iff.mpr
      intro i hi hid
      exact hn.left (of_decide_eq_true hid ▸ hids i hi)
    refine ⟨first ++ rest, hfirst.trans hrest, fun i hi => ?_, fun other ho => ?_⟩
    case refine_1 =>
      rw [List.map_cons, List.mem_cons]
      cases List.mem_append.mp hi
      case inl hi => exact .inl (hfirstId i hi)
      case inr hi => exact .inr (hids i hi)
    case refine_2 =>
      cases List.mem_cons.mp ho
      case inl ho =>
        subst ho
        have hsame : (first ++ rest).filter (·.graphRunId = other.graphRunId) =
            first.filter (·.graphRunId = other.graphRunId) := by
          rw [List.filter_append, hrestNone, List.append_nil]
        cases htold
        case inl hone =>
          obtain ⟨i, hi, hi'⟩ := hone
          exact .inl ⟨i, hsame.trans hi, hi'⟩
        case inr hnone =>
          exact .inr ⟨hsame.trans hnone.left, hnone.right⟩
      case inr ho =>
        have hne : other.graphRunId ≠ run.graphRunId := fun heq => hn.left (heq ▸ List.mem_map_of_mem ho)
        have hfirstNone : first.filter (·.graphRunId = other.graphRunId) = [] := by
          apply List.filter_eq_nil_iff.mpr
          intro i hi hid
          exact hne ((of_decide_eq_true hid).symm.trans (hfirstId i hi))
        have hsame : (first ++ rest).filter (·.graphRunId = other.graphRunId) =
            rest.filter (·.graphRunId = other.graphRunId) := by
          rw [List.filter_append, hfirstNone, List.nil_append]
        cases hall other ho
        case inl hone =>
          obtain ⟨i, hi, hrow⟩ := hone
          exact .inl ⟨i, hsame.trans hi, hrow⟩
        case inr hnone =>
          obtain ⟨hnone, i, hi, hid, hrow⟩ := hnone
          refine .inr ⟨hsame.trans hnone, i, ?_, hid, hrow⟩
          rw [hfirst.outbox] at hi
          cases List.mem_append.mp hi
          case inl hi => exact hi
          case inr hi => exact absurd (hid.symm.trans (hfirstId i hi)) hne

end Adds

-- The public status of a run is another one.
def StatusChanged (db : Database) (next : GraphRun) : Prop :=
  (db.runs.get? next.graphRunId).map (·.status.publicText) ≠ some next.status.publicText

instance {db : Database} {next : GraphRun} : Decidable (StatusChanged db next) :=
  inferInstanceAs (Decidable (_ ≠ _))

-- A transaction appends intents, and every run whose public status it changes is told of.
theorem adds {r : Rules} {m : Moment} {db db' : Database} {w : Write} (h : perform r m db w = some db') :
    ∃ new, Adds db db' new ∧ ∀ next ∈ db'.runs.rows, StatusChanged db next → Told db new next.toRunRow := by
  have hget : ∀ next ∈ db'.runs.rows, db'.runs.get? next.graphRunId = some next := fun next hnext =>
    Table.get?_of_mem hnext
  cases effect h
  case same hsame =>
    subst hsame
    refine ⟨[], .none rfl, fun next hnext hchanged => ?_⟩
    rw [StatusChanged, hget next hnext] at hchanged
    exact absurd rfl hchanged
  case stored sessionId store _ hstore =>
    subst hstore
    refine ⟨[], .none rfl, fun next hnext hchanged => ?_⟩
    have hnext : db.runs.get? next.graphRunId = some next := hget next hnext
    rw [StatusChanged, hnext] at hchanged
    exact absurd rfl hchanged
  case rewrote run new _ hrewrites _ =>
    have hother : ∀ next ∈ db'.runs.rows, StatusChanged db next → next = new := by
      intro next hnext hchanged
      have hn := hget next hnext
      rw [hrewrites.changes] at hn
      split at hn
      case isTrue  => exact (Option.some.inj hn).symm
      case isFalse =>
        rw [StatusChanged, hn] at hchanged
        exact absurd rfl hchanged
    cases hrewrites.told
    case inl hquiet =>
      refine ⟨[], .none hquiet.left, fun next hnext hchanged => ?_⟩
      have hnew := hother next hnext hchanged
      subst hnew
      rw [StatusChanged, hrewrites.found] at hchanged
      exact absurd (congrArg some hquiet.right) hchanged
    case inr htold =>
      obtain ⟨transition, retryOf, db₁, ho, henqueue⟩ := htold
      obtain ⟨added, hadds, htold, -⟩ := adds_of_enqueue ho henqueue
      exact ⟨added, hadds, fun next hnext hchanged => hother next hnext hchanged ▸ htold⟩
  case inserted request actions _ _ _ hchanges _ _ henqueue =>
    obtain ⟨db₁, ho, henqueue⟩ := henqueue
    obtain ⟨added, hadds, htold, -⟩ := adds_of_enqueue ho henqueue
    refine ⟨added, hadds, fun next hnext hchanged => ?_⟩
    have hn := hget next hnext
    rw [hchanges] at hn
    split at hn
    case isTrue  => cases hn; exact htold
    case isFalse =>
      rw [StatusChanged, hn] at hchanged
      exact absurd rfl hchanged
  case interrupted hreconcile hi =>
    have hn : ((db.runs.rows.filter (·.status.active)).map (·.graphRunId)).Nodup :=
      db.runs.unique.sublist (List.filter_sublist.map _)
    obtain ⟨added, hadds, -, hall⟩ := adds_of_interrupts hn hreconcile
    refine ⟨added, hadds, fun next hnext hchanged => ?_⟩
    have hnext := hget next hnext
    rw [hi.get?] at hnext
    obtain ⟨run, hrun, hnext⟩ := Option.map_eq_some_iff.mp hnext
    cases ha : run.status.active
    case false =>
      rw [ha, if_neg Bool.false_ne_true] at hnext
      rw [StatusChanged, hrun, hnext] at hchanged
      exact absurd rfl hchanged
    case true =>
      rw [ha, if_pos rfl] at hnext
      subst hnext
      exact hall run (List.mem_filter.mpr ⟨Table.mem_of_get? hrun, ha⟩)

theorem events_kept {r : Rules} {m : Moment} {db db' : Database} {w : Write} (h : perform r m db w = some db') :
    db'.events = db.events := by
  cases effect h
  case same hsame                => rw [hsame]
  case stored hstore             => rw [hstore]; rfl
  case rewrote hrewrites _       => exact hrewrites.events
  case inserted he _             => exact he
  case interrupted hi            => exact hi.events

end Canvas
