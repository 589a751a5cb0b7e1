import V8AgentOs.Canvas.Intents
import V8AgentOs.Canvas.Lifecycle
import V8AgentOs.Canvas.Runs
import V8AgentOs.Lib.Outbox

-- core/database.py and core/creative_canvas_graph.py: how the intents of run events become runtime events.
namespace Canvas

open Python (Dict Json Text)

def stateTopic : String := "canvas.graph.run.state"

section Projection

-- What `project_canvas_graph_run_event_outbox` does: it raises, returns nothing, or returns a sequence number.
inductive Projected
  | raised
  | refused
  | present (seq : ℕ)
  | appended (seq : ℕ)

-- The event is the one that the intent is for.
def Intent.fits (text : Text) (i : Intent) (e : Emitted) : Bool :=
  e.eventId = i.eventId && e.sessionId = i.sessionId && e.topic = stateTopic &&
  text.orEmpty (e.payload.get "graphRunId") = i.graphRunId &&
  text.orEmpty (e.payload.get "status") = i.expectedStatus.publicText &&
  text.orEmpty (e.payload.get "transition") = i.transition.text &&
  text.orEmpty (e.payload.get "retryOfGraphRunId") = i.retryOf.getD "" &&
  e.ts = i.expectedUpdatedAt && i.runRow.graphRunId = i.graphRunId && i.runRow.sessionId = i.sessionId &&
  i.runRow.status = i.expectedStatus && i.runRow.updatedAt = i.expectedUpdatedAt

-- An event that is stored already is the same event.
def Emitted.sameAs (e stored : Emitted) : Bool :=
  stored.sessionId = e.sessionId && stored.runId.getD "" = e.runId.getD "" && stored.kind = e.kind &&
  stored.topic = e.topic && stored.ts = e.ts && stored.source.eq e.source &&
  (Json.dict stored.payload).eq (.dict e.payload)

-- A projected intent. A time that it was projected at before stays.
def Intent.marked (i : Intent) (now : String) : Intent :=
  { i with
    runtimeEventId := some i.eventId
    projectedAt    := some (i.projectedAt.getD now)
    nextAttemptAt  := none }

namespace Database

-- `_runtime_event_sequence_floor`
def sequenceFloor (db : Database) (sessionId : String) : ℕ :=
  ((db.events.filter (·.sessionId = sessionId)).map (·.seq)).foldl max (db.sequenceHeads sessionId)

-- Another intent of the session waits before this one.
def earlierPending (db : Database) (i : Intent) : Bool :=
  (db.outbox.takeWhile (·.outboxId ≠ i.outboxId)).any fun j => j.sessionId = i.sessionId && j.projectedAt.isNone

def markProjected (db : Database) (i : Intent) (now : String) : Database :=
  { db with outbox := db.outbox.map fun j => if j.outboxId = i.outboxId then j.marked now else j }

-- `_allocate_runtime_event_seq` and the insertion
def appendEvent (db : Database) (e : Emitted) : Database :=
  let seq := db.sequenceFloor e.sessionId + 1
  { db with
    sequenceHeads := Function.update db.sequenceHeads e.sessionId seq
    events        := db.events ++ [{ e with seq }] }

-- `project_canvas_graph_run_event_outbox`
def project (text : Text) (db : Database) (e : Emitted) (outboxId now : String) : Projected × Database :=
  match db.outbox.find? (·.outboxId = outboxId) with
  | none   => (.refused, db)
  | some i =>
    if !i.fits text e then (.raised, db)
    else if i.projectedAt.isNone && db.earlierPending i then (.refused, db)
    else match db.events.find? (·.eventId = i.eventId) with
      | some stored =>
        if !e.sameAs stored.toEmitted then (.raised, db) else (.present stored.seq, db.markProjected i now)
      | none        => (.appended (db.sequenceFloor i.sessionId + 1), (db.appendEvent e).markProjected i now)

-- The update of `record_canvas_graph_run_event_outbox_failure`, after the number of attempts was read
def recordFailure (db : Database) (outboxId : String) (attemptCount now : ℕ) : Database :=
  { db with outbox := db.outbox.map fun i => if i.outboxId = outboxId && i.projectedAt.isNone then
      { i with
        attemptCount  := attemptCount + 1
        nextAttemptAt := some (now + 1000 * min 300 (5 * 2 ^ min attemptCount 6)) }
    else i }

-- `list_pending_canvas_graph_run_event_outbox`
def listPending (db : Database) (limit : ℕ) : List Intent :=
  (db.outbox.filter (·.projectedAt.isNone)).take (max 1 (min (if limit = 0 then 256 else limit) 2048))

end Database
end Projection

section Repair

-- What a pass of `repair_graph_run_state_outbox` finds for an intent: the workspace of the session, unless it is not
-- to be had, the source of the events and the epoch of the conversation.
structure Surroundings where
  workspaceId  : Option String
  source       : Json
  contextEpoch : ℤ

-- `_graph_run_state_event_payload`
def statePayload (text : Text) (i : Intent) (workspaceId : String) : Dict :=
  let row := i.runRow
  let state := retryState text row
  let canRetry := !retryBlocked state
  [("schema", .str "v8.creative_canvas_graph_run_state.v1"), ("sessionId", .str row.sessionId),
    ("workspaceId", .str workspaceId), ("graphId", .str row.graphId), ("graphRunId", .str row.graphRunId),
    ("canvasOperationId", .str row.canvasOperationId), ("runId", (row.chatRunId.filter (· ≠ "")).elim .null .str),
    ("status", .str i.expectedStatus.publicText)] ++
  (if i.expectedStatus.retryable then [("recovery", .dict [("canRetry", .bool canRetry),
    ("mode", if canRetry then .str "failed_branch" else .null)])] else []) ++
  (if i.transition = .none then [] else [("transition", .str i.transition.text)]) ++
  (i.retryOf.filter (· ≠ "")).elim [] fun retryOf => [("retryOfGraphRunId", .str retryOf)]

-- What is emitted for an intent, unless that fails
def Intent.emitted (text : Text) (i : Intent) (s : Surroundings) : Option Emitted :=
  (s.workspaceId.filter (· ≠ "")).map fun workspaceId => {
    eventId   := i.eventId
    sessionId := i.sessionId
    runId     := i.runRow.chatRunId.filter (· ≠ "")
    kind      := "event"
    topic     := stateTopic
    ts        := i.expectedUpdatedAt
    source    := s.source
    payload   := (statePayload text i workspaceId).set "contextEpoch" (.int s.contextEpoch) }

-- A pass: the intents that are left of its page, the sessions that it leaves out, the time of its start, and the
-- intent whose failure it still has to record
structure Pass where
  left    : List Intent
  blocked : List String
  started : ℕ
  failed  : Option String

def beginPass (db : Database) (limit now : ℕ) : Pass where
  left    := db.listPending limit
  blocked := []
  started := now
  failed  := none

-- A turn of the loop, up to the record of a failure
def Pass.advance (text : Text) (p : Pass) (s : Surroundings) (now : String) (db : Database) : Pass × Database :=
  match p.left with
  | []        => (p, db)
  | i :: left =>
    if p.blocked.contains i.sessionId then ({ p with left }, db)
    else if i.nextAttemptAt.any (p.started < ·) then ({ p with left, blocked := i.sessionId :: p.blocked }, db)
    else
      let failure := { p with left, blocked := i.sessionId :: p.blocked, failed := some i.outboxId }
      match i.emitted text s with
      | none   => (failure, db)
      | some e => match db.project text e i.outboxId now with
        | (.raised, db) | (.refused, db)       => (failure, db)
        | (.present _, db) | (.appended _, db) => ({ p with left }, db)

end Repair

-- The database and the passes over it that are under way
structure Engine where
  db     : Database
  passes : List Pass

inductive EngineStep
  | write (m : Moment) (w : Write)
  -- A write that is rolled back
  | refuse (m : Moment) (w : Write)
  | beginPass (limit now : ℕ)
  | advance (index : ℕ) (s : Surroundings) (now : String)
  | recordFailure (index attemptCount now : ℕ)
  -- A pass that ends, or that a crash ends
  | endPass (index : ℕ)
  -- An event of another topic
  | otherEvent (e : RuntimeEvent)
  -- Other sequence numbers, and those of snapshots
  | sequence (sessionId : String) (seq : ℕ)

-- A pass records a failure before it goes on.
def step (r : Rules) (s : Engine) : EngineStep → Option Engine
  | .write m w                            => (perform r m s.db w).map fun db => { s with db }
  | .refuse m w                           => if (perform r m s.db w).isNone then some s else none
  | .beginPass limit now                  => some { s with passes := s.passes ++ [Canvas.beginPass s.db limit now] }
  | .advance index environment now        => do
    let p ← s.passes[index]?
    if p.failed.isSome then none
    else
      let (p, db) := p.advance r.text environment now s.db
      some ⟨db, s.passes.set index p⟩
  | .recordFailure index attemptCount now => do
    let p ← s.passes[index]?
    let outboxId ← p.failed
    some ⟨s.db.recordFailure outboxId attemptCount now, s.passes.set index { p with failed := none }⟩
  | .endPass index                        => some { s with passes := s.passes.eraseIdx index }
  | .otherEvent e                         =>
    if e.topic = stateTopic || s.db.events.any (·.eventId = e.eventId) then none
    else some { s with db.events := s.db.events ++ [e] }
  | .sequence sessionId seq               =>
    some { s with db.sequenceHeads := Function.update s.db.sequenceHeads sessionId seq }

end Canvas

-- The runtime events of a session are the first of its intents.
namespace Canvas

open Python (Dict Json Text)
open Outbox (InOrder sentOf groupOf)

def Intent.sent (i : Intent) : Bool :=
  i.projectedAt.isSome

-- The events that tell of the runs of a session
def Database.stateEvents (db : Database) (sessionId : String) : List RuntimeEvent :=
  db.events.filter fun e => e.sessionId = sessionId && e.topic = stateTopic

def Database.intentsOf (db : Database) (sessionId : String) : List Intent :=
  groupOf (·.sessionId) sessionId db.outbox

-- An event is the one of an intent.
def Tells (text : Text) (i : Intent) (e : RuntimeEvent) : Prop :=
  i.fits text e.toEmitted

-- What holds of the outbox and the events
structure Sound (text : Text) (db : Database) : Prop where
  outboxIds : (db.outbox.map (·.outboxId)).Nodup
  eventIds  : (db.outbox.map (·.eventId)).Nodup
  inOrder   : InOrder (·.sessionId) Intent.sent db.outbox
  told      : ∀ sessionId, List.Forall₂ (Tells text) (sentOf (·.sessionId) Intent.sent sessionId db.outbox)
    (db.stateEvents sessionId)
  sequence  : ∀ sessionId, (db.stateEvents sessionId).Pairwise (·.seq < ·.seq)

section Fits

variable {text : Text} {i j : Intent} {e : Emitted} {db : Database} {sessionId now : String}

@[simp] theorem outboxId_marked : (i.marked now).outboxId = i.outboxId := rfl

@[simp] theorem eventId_marked : (i.marked now).eventId = i.eventId := rfl

@[simp] theorem sessionId_marked : (i.marked now).sessionId = i.sessionId := rfl

theorem fits_facts (h : i.fits text e) : e.eventId = i.eventId ∧ e.sessionId = i.sessionId ∧ e.topic = stateTopic := by
  simp only [Intent.fits, Bool.and_eq_true, decide_eq_true_eq] at h
  obtain ⟨⟨⟨⟨⟨⟨⟨⟨⟨⟨⟨hid, hsession⟩, htopic⟩, _⟩, _⟩, _⟩, _⟩, _⟩, _⟩, _⟩, _⟩, _⟩ := h
  exact ⟨hid, hsession, htopic⟩

theorem le_sequenceFloor {e : RuntimeEvent} (he : e ∈ db.events) : e.seq ≤ db.sequenceFloor e.sessionId := by
  have hle : ∀ (seqs : List ℕ) (start n : ℕ), n ∈ seqs ∨ n ≤ start → n ≤ seqs.foldl max start := by
    intro seqs
    induction seqs
    case nil => intro start n hn; exact hn.resolve_left List.not_mem_nil
    case cons seq seqs hi =>
      intro start n hn
      apply hi
      cases hn
      case inr hn => exact .inr (le_max_of_le_left hn)
      case inl hn =>
        cases List.mem_cons.mp hn
        case inl hn => exact .inr (hn ▸ le_max_right _ _)
        case inr hn => exact .inl hn
  apply hle
  exact .inl (List.mem_map_of_mem (List.mem_filter.mpr ⟨he, by simp⟩))

-- Where an intent stands
theorem split_outbox (h : (db.outbox.map (·.outboxId)).Nodup) (hi : i ∈ db.outbox) :
    ∃ before after, db.outbox = before ++ i :: after ∧ db.outbox.takeWhile (·.outboxId ≠ i.outboxId) = before := by
  obtain ⟨before, after, hsplit⟩ := List.append_of_mem hi
  refine ⟨before, after, hsplit, ?_⟩
  rw [hsplit, List.map_append, List.map_cons, List.nodup_middle, List.nodup_cons] at h
  have hbefore : ∀ j ∈ before, decide (j.outboxId ≠ i.outboxId) = true := by
    intro j hj
    apply decide_eq_true
    intro heq
    exact h.left (List.mem_append_left _ (heq ▸ List.mem_map_of_mem hj))
  rw [hsplit, List.takeWhile_append_of_pos hbefore]
  simp

theorem eventIds_of_told {told : List Intent} {events : List RuntimeEvent} (h : List.Forall₂ (Tells text) told events) :
    events.map (·.eventId) = told.map (·.eventId) := by
  induction h
  case nil => rfl
  case cons ht _ hi => rw [List.map_cons, List.map_cons, hi, (fits_facts ht).left]

end Fits

namespace Sound

variable {text : Text} {db db' : Database} {i : Intent} {e : RuntimeEvent} {new : List Intent} {f : Intent → Intent}
  {sessionId : String}

theorem empty : Sound text .empty where
  outboxIds := List.nodup_nil
  eventIds  := List.nodup_nil
  inOrder   := .nil
  told _    := .nil
  sequence _ := .nil

theorem write (h : Sound text db) (hadds : Adds db db' new) (he : db'.events = db.events) : Sound text db' where
  outboxIds := hadds.outboxIds h.outboxIds
  eventIds  := hadds.eventIds h.eventIds
  inOrder   := by
    rw [hadds.outbox]
    apply h.inOrder.append
    intro i hi
    rw [Intent.sent, hadds.pending i hi]
    rfl
  told sessionId := by
    have hnone : sentOf (·.sessionId) Intent.sent sessionId new = [] := by
      apply Outbox.sentOf_pending
      intro i hi _
      rw [Intent.sent, hadds.pending i hi]
      rfl
    rw [Database.stateEvents, he, hadds.outbox, Outbox.sentOf_append, hnone, List.append_nil]
    exact h.told sessionId
  sequence sessionId := by
    rw [Database.stateEvents, he]
    exact h.sequence sessionId

-- Intents that are rewritten without sending any
theorem rewrite (h : Sound text db) (hids : ∀ i, (f i).outboxId = i.outboxId ∧ (f i).eventId = i.eventId)
    (hg : ∀ i, (f i).sessionId = i.sessionId) (hs : ∀ i ∈ db.outbox, (f i).sent = i.sent)
    (hf : ∀ i e, (f i).fits text e = i.fits text e) : Sound text { db with outbox := db.outbox.map f } where
  outboxIds := by
    rw [List.map_map]
    exact (List.map_congr_left fun i _ => (hids i).left) ▸ h.outboxIds
  eventIds := by
    rw [List.map_map]
    exact (List.map_congr_left fun i _ => (hids i).right) ▸ h.eventIds
  inOrder := h.inOrder.map hg hs
  told sessionId := by
    rw [Outbox.sentOf_map hg hs, List.forall₂_map_left_iff]
    exact (h.told sessionId).imp fun i e ht => by rwa [Tells, hf]
  sequence := h.sequence

-- An intent is sent exactly if its event is stored.
theorem sent_iff (h : Sound text db) (hi : i ∈ db.outbox) :
    i.sent ↔ ∃ e ∈ db.events, e.eventId = i.eventId ∧ e.sessionId = i.sessionId ∧ e.topic = stateTopic := by
  constructor
  case mp =>
    intro hs
    have hmem : i ∈ sentOf (·.sessionId) Intent.sent i.sessionId db.outbox :=
      List.mem_filter.mpr ⟨hi, by simp [hs]⟩
    obtain ⟨e, he, ht⟩ := Rows.paired_right (h.told i.sessionId) hmem
    exact ⟨e, List.mem_of_mem_filter he, fits_facts ht⟩
  case mpr =>
    intro ⟨e, he, hid, hsession, htopic⟩
    have hmem : e ∈ db.stateEvents i.sessionId := List.mem_filter.mpr ⟨he, by simp [hsession, htopic]⟩
    obtain ⟨j, hj, ht⟩ := Rows.paired_left (h.told i.sessionId) hmem
    obtain ⟨hj, hsent⟩ := List.mem_filter.mp hj
    have hsame : j = i := List.inj_on_of_nodup_map h.eventIds hj hi ((fits_facts ht).left.symm.trans hid)
    exact hsame ▸ (Bool.and_eq_true_iff.mp hsent).right

-- An intent that was sent is marked again.
theorem mark (h : Sound text db) (hi : i ∈ db.outbox) (hs : i.sent) {now : String} :
    Sound text (db.markProjected i now) := by
  apply h.rewrite
  case hids =>
    intro j
    by_cases hj : j.outboxId = i.outboxId
    case pos => simp [hj]
    case neg => simp [hj]
  case hg =>
    intro j
    by_cases hj : j.outboxId = i.outboxId
    case pos => simp [hj]
    case neg => simp [hj]
  case hs =>
    intro j hmem
    by_cases hj : j.outboxId = i.outboxId
    case pos =>
      have hsame : j = i := List.inj_on_of_nodup_map h.outboxIds hmem hi hj
      subst hsame
      rw [if_pos rfl, hs]
      rfl
    case neg => rw [if_neg hj]
  case hf =>
    intro j e
    by_cases hj : j.outboxId = i.outboxId
    case pos => rw [if_pos hj]; rfl
    case neg => rw [if_neg hj]

-- The first intent of its session that is not sent is sent.
theorem append (h : Sound text db) {e : Emitted} (hi : i ∈ db.outbox) (hfits : i.fits text e)
    (hs : i.projectedAt = none) (hfirst : db.earlierPending i = false) {now : String} :
    Sound text ((db.appendEvent e).markProjected i now) := by
  obtain ⟨before, after, hsplit, htake⟩ := split_outbox h.outboxIds hi
  obtain ⟨hid, hsession, htopic⟩ := fits_facts hfits
  have hn := h.outboxIds
  have horder := h.inOrder
  rw [hsplit] at hn horder
  have hmark : (db.appendEvent e |>.markProjected i now).outbox = before ++ i.marked now :: after := by
    show db.outbox.map _ = _
    rw [hsplit]
    exact Outbox.map_key hn
  have hbefore : ∀ j ∈ before, j.sessionId = i.sessionId → j.sent := by
    intro j hj hjs
    rw [Database.earlierPending, htake, List.any_eq_false] at hfirst
    have := hfirst j hj
    cases hp : j.projectedAt
    case none   => simp [hjs, hp] at this
    case some t => rw [Intent.sent, hp]; rfl
  have hpending : i.sent = false := by rw [Intent.sent, hs]; rfl
  have hevents : ∀ sessionId, (db.appendEvent e |>.markProjected i now).stateEvents sessionId =
      db.stateEvents sessionId ++
        if i.sessionId = sessionId then [{ e with seq := db.sequenceFloor e.sessionId + 1 }] else [] := by
    intro sessionId
    show (db.events ++ _).filter _ = _
    rw [List.filter_append, Database.stateEvents]
    congr 1
    by_cases hk : i.sessionId = sessionId
    case pos => simp [hsession, htopic, hk]
    case neg => simp [hsession, hk]
  constructor
  case outboxIds =>
    rw [hmark]
    simpa using hn
  case eventIds =>
    have hn := h.eventIds
    rw [hsplit] at hn
    rw [hmark]
    simpa using hn
  case inOrder =>
    rw [hmark]
    have hg : (i.marked now).sessionId = i.sessionId := rfl
    exact horder.send hg rfl hbefore
  case told =>
    intro sessionId
    have htold := h.told sessionId
    rw [hsplit] at htold
    have hg : (i.marked now).sessionId = i.sessionId := rfl
    rw [hmark, Outbox.sentOf_send horder hg rfl hpending, hevents]
    apply List.rel_append htold
    by_cases hk : i.sessionId = sessionId
    case pos =>
      rw [if_pos hk, if_pos hk]
      exact .cons hfits .nil
    case neg =>
      rw [if_neg hk, if_neg hk]
      exact .nil
  case sequence =>
    intro sessionId
    rw [hevents]
    apply List.pairwise_append.mpr
    refine ⟨h.sequence sessionId, ?_, fun a ha b hb => ?_⟩
    case refine_1 =>
      split
      case isTrue  => exact List.pairwise_singleton _ _
      case isFalse => exact .nil
    case refine_2 =>
      split at hb
      case isFalse => exact absurd hb List.not_mem_nil
      case isTrue hk =>
        cases List.mem_singleton.mp hb
        obtain ⟨ha, hp⟩ := List.mem_filter.mp ha
        have has : a.sessionId = e.sessionId := by
          rw [hsession, hk]
          exact of_decide_eq_true (Bool.and_eq_true_iff.mp hp).left
        have hle := le_sequenceFloor ha
        rw [has] at hle
        exact Nat.lt_succ_of_le hle

theorem project (h : Sound text db) {e : Emitted} {outboxId now : String} :
    Sound text (db.project text e outboxId now).2 := by
  simp only [Database.project]
  split
  case h_1 => exact h
  case h_2 i hfind =>
    have hi : i ∈ db.outbox := List.mem_of_find?_eq_some hfind
    split
    case isTrue => exact h
    case isFalse hfits =>
      have hfits : i.fits text e := by simpa using hfits
      obtain ⟨hid, hsession, htopic⟩ := fits_facts hfits
      split
      case isTrue => exact h
      case isFalse hfirst =>
        split
        case h_1 stored hstored =>
          split
          case isTrue => exact h
          case isFalse hsame =>
            have hsame : e.sameAs stored.toEmitted := by simpa using hsame
            simp only [Emitted.sameAs, Bool.and_eq_true, decide_eq_true_eq] at hsame
            have hstoredId : stored.eventId = i.eventId := by simpa using List.find?_some hstored
            have hsent := (h.sent_iff hi).mpr ⟨stored, List.mem_of_find?_eq_some hstored, hstoredId,
              hsame.left.left.left.left.left.left.trans hsession, hsame.left.left.left.right.trans htopic⟩
            exact h.mark hi hsent
        case h_2 hnone =>
          have hpending : i.projectedAt = none := by
            cases hp : i.projectedAt
            case none => rfl
            case some t =>
              exfalso
              have hs : i.sent := by rw [Intent.sent, hp]; rfl
              obtain ⟨stored, hstored, hid, -, -⟩ := (h.sent_iff hi).mp hs
              simpa [hid] using List.find?_eq_none.mp hnone stored hstored
          exact h.append hi hfits hpending (by simpa [hpending] using hfirst)

theorem failure (h : Sound text db) {outboxId : String} {attemptCount now : ℕ} :
    Sound text (db.recordFailure outboxId attemptCount now) := by
  apply h.rewrite
  case hids =>
    intro j
    split
    case isTrue  => exact ⟨rfl, rfl⟩
    case isFalse => exact ⟨rfl, rfl⟩
  case hg =>
    intro j
    split
    case isTrue  => rfl
    case isFalse => rfl
  case hs =>
    intro j _
    split
    case isTrue  => rfl
    case isFalse => rfl
  case hf =>
    intro j e
    split
    case isTrue  => rfl
    case isFalse => rfl

theorem otherEvent (h : Sound text db) (he : e.topic ≠ stateTopic) :
    Sound text { db with events := db.events ++ [e] } := by
  have hevents : ∀ sessionId, Database.stateEvents { db with events := db.events ++ [e] } sessionId =
      db.stateEvents sessionId := by
    intro sessionId
    show (db.events ++ [e]).filter _ = _
    rw [List.filter_append, Database.stateEvents]
    simp [he]
  exact ⟨h.outboxIds, h.eventIds, h.inOrder, fun sessionId => by rw [hevents]; exact h.told sessionId,
    fun sessionId => by rw [hevents]; exact h.sequence sessionId⟩

theorem advance (h : Sound text db) {p : Pass} {s : Surroundings} {now : String} :
    Sound text (p.advance text s now db).2 := by
  simp only [Pass.advance]
  split
  case h_1 => exact h
  case h_2 i left hleft =>
    split
    case isTrue => exact h
    case isFalse =>
      split
      case isTrue => exact h
      case isFalse =>
        split
        case h_1 => exact h
        case h_2 e he =>
          have hproject : Sound text (db.project text e i.outboxId now).2 := h.project
          generalize db.project text e i.outboxId now = result at hproject
          obtain ⟨outcome, db'⟩ := result
          cases outcome
          all_goals exact hproject

end Sound

def engine (r : Rules) : Transition Engine EngineStep where
  init s     := s.db = .empty ∧ s.passes = []
  step s e t := step r s e = some t

section Runs

variable {r : Rules} {s t : Engine} {e : EngineStep} {sessionId : String} {db : Database}

theorem Sound.step (h : Sound r.text s.db) (hstep : step r s e = some t) : Sound r.text t.db := by
  cases e
  case write m w =>
    obtain ⟨db, hdb, ht⟩ := Option.map_eq_some_iff.mp hstep
    obtain ⟨new, hadds, -⟩ := adds hdb
    subst ht
    exact h.write hadds (events_kept hdb)
  case refuse m w =>
    simp only [Canvas.step] at hstep
    split at hstep
    case isTrue  => cases hstep; exact h
    case isFalse => cases hstep
  case beginPass limit now => cases hstep; exact h
  case advance index environment now =>
    simp only [Canvas.step, Option.bind_eq_bind, Option.bind_eq_some_iff] at hstep
    obtain ⟨p, -, hstep⟩ := hstep
    split at hstep
    case isTrue  => cases hstep
    case isFalse => cases hstep; exact h.advance
  case recordFailure index attemptCount now =>
    simp only [Canvas.step, Option.bind_eq_bind, Option.bind_eq_some_iff] at hstep
    obtain ⟨p, -, outboxId, -, hstep⟩ := hstep
    cases hstep
    exact h.failure
  case endPass index => cases hstep; exact h
  case otherEvent e =>
    simp only [Canvas.step] at hstep
    split at hstep
    case isTrue  => cases hstep
    case isFalse hother =>
      cases hstep
      apply h.otherEvent
      intro htopic
      exact hother (by simp [htopic])
  case sequence sessionId seq =>
    cases hstep
    exact ⟨h.outboxIds, h.eventIds, h.inOrder, h.told, h.sequence⟩

theorem sound_of_reachable (h : (engine r).Reachable s) : Sound r.text s.db := by
  apply Transition.Reachable.invariant _ _ h
  case _ =>
    intro s hs
    rw [hs.left]
    exact .empty
  case _ => exact fun s e t hs hstep => hs.step hstep

theorem eventIds_project {text : Text} {e : Emitted} {outboxId now : String} :
    (db.project text e outboxId now).2.outbox.map (·.eventId) = db.outbox.map (·.eventId) := by
  have hmark : ∀ (i : Intent) (events : List RuntimeEvent) (heads : String → ℕ),
      (Database.markProjected { db with events := events, sequenceHeads := heads } i now).outbox.map (·.eventId) =
        db.outbox.map (·.eventId) := by
    intro i events heads
    simp only [Database.markProjected, List.map_map]
    apply List.map_congr_left
    intro j _
    by_cases hj : j.outboxId = i.outboxId
    case pos => simp [hj]
    case neg => simp [hj]
  simp only [Database.project]
  split
  case h_1 => rfl
  case h_2 i _ =>
    split
    case isTrue => rfl
    case isFalse =>
      split
      case isTrue => rfl
      case isFalse =>
        split
        case h_1 =>
          split
          case isTrue  => rfl
          case isFalse => exact hmark i db.events db.sequenceHeads
        case h_2 => exact hmark i _ _

-- Only a write that is committed adds intents.
theorem eventIds_step (hstep : step r s e = some t) (he : ∀ m w, e ≠ .write m w) :
    t.db.outbox.map (·.eventId) = s.db.outbox.map (·.eventId) := by
  cases e
  case write m w => exact absurd rfl (he m w)
  case refuse m w =>
    simp only [Canvas.step] at hstep
    split at hstep
    case isTrue  => cases hstep; rfl
    case isFalse => cases hstep
  case beginPass limit now => cases hstep; rfl
  case advance index environment now =>
    simp only [Canvas.step, Option.bind_eq_bind, Option.bind_eq_some_iff] at hstep
    obtain ⟨p, -, hstep⟩ := hstep
    split at hstep
    case isTrue => cases hstep
    case isFalse =>
      cases hstep
      simp only [Pass.advance]
      split
      case h_1 => rfl
      case h_2 i left _ =>
        split
        case isTrue => rfl
        case isFalse =>
          split
          case isTrue => rfl
          case isFalse =>
            split
            case h_1 => rfl
            case h_2 e _ =>
              have hproject : (s.db.project r.text e i.outboxId now).2.outbox.map (·.eventId) =
                  s.db.outbox.map (·.eventId) := eventIds_project
              generalize s.db.project r.text e i.outboxId now = result at hproject
              obtain ⟨outcome, db'⟩ := result
              cases outcome
              all_goals exact hproject
  case recordFailure index attemptCount now =>
    simp only [Canvas.step, Option.bind_eq_bind, Option.bind_eq_some_iff] at hstep
    obtain ⟨p, -, outboxId, -, hstep⟩ := hstep
    cases hstep
    simp only [Database.recordFailure, List.map_map]
    apply List.map_congr_left
    intro i _
    simp only [Function.comp_apply]
    split
    case isTrue  => rfl
    case isFalse => rfl
  case endPass index => cases hstep; rfl
  case otherEvent e =>
    simp only [Canvas.step] at hstep
    split at hstep
    case isTrue  => cases hstep
    case isFalse => cases hstep; rfl
  case sequence sessionId seq => cases hstep; rfl

-- At every moment the events of a session tell of the first of its intents, in their order and each once. A write that
-- is committed adds an intent for every run whose public status it changes, unless the same row was told of already,
-- and nothing else adds any.
theorem outbox_holds (r : Rules) (s : Engine) (h : (engine r).Reachable s) :
    (∀ sessionId, ∃ told, told <+: s.db.intentsOf sessionId ∧
      List.Forall₂ (Tells r.text) told (s.db.stateEvents sessionId) ∧
      ((s.db.stateEvents sessionId).map (·.eventId)).Nodup ∧
      (s.db.stateEvents sessionId).Pairwise (·.seq < ·.seq)) ∧
    (∀ m w t, step r s (.write m w) = some t → ∃ new, t.db.outbox = s.db.outbox ++ new ∧
      ∀ next ∈ t.db.runs.rows, StatusChanged s.db next → Told s.db new next.toRunRow) ∧
    ∀ e t, step r s e = some t → (∀ m w, e ≠ .write m w) →
      t.db.outbox.map (·.eventId) = s.db.outbox.map (·.eventId) := by
  have hsound := sound_of_reachable h
  refine ⟨fun sessionId => ?_, fun m w t hstep => ?_, fun e t hstep he => eventIds_step hstep he⟩
  case refine_1 =>
    refine ⟨_, Outbox.sentOf_prefix hsound.inOrder, hsound.told sessionId, ?_, hsound.sequence sessionId⟩
    rw [eventIds_of_told (hsound.told sessionId)]
    exact hsound.eventIds.sublist (List.filter_sublist.map _)
  case refine_2 =>
    obtain ⟨db, hdb, ht⟩ := Option.map_eq_some_iff.mp hstep
    obtain ⟨new, hadds, htold⟩ := adds hdb
    subst ht
    exact ⟨new, hadds.outbox, htold⟩

end Runs

section Sample

-- A run is interrupted, retried and fails, and is retried again at the same moment.
def sharedSteps : List (Moment × Write) :=
  [(sampleMoment "1", .save (fun _ => true) "c1" "s" "g" [] 0),
    (sampleMoment "2", .admitted (sampleExecution "op1" "r1") []),
    (sampleMoment "3", .executor "r1" (.start [])),
    (sampleMoment "4", .reconcile),
    (sampleMoment "5" "5", .claimRetry "s" "r1"),
    (sampleMoment "5" "6", .executor "r1" (.fail [] "" "error"))]

-- The second claim finds the intent of the first one, and adds none.
theorem retries_share_intent : ∃ db db' next, (transactions sampleRules).Reachable db ∧
    perform sampleRules (sampleMoment "5" "7") db (.claimRetry "s" "r1") = some db' ∧ next ∈ db'.runs.rows ∧
    StatusChanged db next ∧ db'.outbox.length = db.outbox.length := by
  have h : ((sharedSteps.foldlM (fun db e => perform sampleRules e.1 db e.2) .empty).bind fun db =>
      (perform sampleRules (sampleMoment "5" "7") db (.claimRetry "s" "r1")).bind fun db' =>
        (db'.runs.get? "r1").map fun next =>
          (decide (StatusChanged db next), decide (db'.outbox.length = db.outbox.length))) = some (true, true) := by
    decide +kernel
  obtain ⟨db, hdb, h⟩ := Option.bind_eq_some_iff.mp h
  obtain ⟨db', hdb', h⟩ := Option.bind_eq_some_iff.mp h
  obtain ⟨next, hnext, h⟩ := Option.map_eq_some_iff.mp h
  obtain ⟨hchanged, hlength⟩ := Prod.mk.inj h
  have hreachable : (transactions sampleRules).Reachable db :=
    Transition.Reachable.foldlM (fun _ _ _ hstep => hstep) (.init rfl) hdb
  exact ⟨db, db', next, hreachable, hdb', Table.mem_of_get? hnext, of_decide_eq_true hchanged,
    of_decide_eq_true hlength⟩

-- A run is queued, and a pass projects its intent.
def projectionSteps : List EngineStep :=
  [.write (sampleMoment "1") (.save (fun _ => true) "c1" "s" "g" [] 0),
    .write (sampleMoment "2") (.admitted (sampleExecution "op1" "r1") []), .beginPass 256 0,
    .advance 0 ⟨some "w", .dict [], 0⟩ "3"]

theorem outbox_holds_sample : ∃ s : Engine, (s.db.stateEvents "s").length = 1 ∧
    (∀ sessionId, ∃ told, told <+: s.db.intentsOf sessionId ∧
      List.Forall₂ (Tells sampleRules.text) told (s.db.stateEvents sessionId) ∧
      ((s.db.stateEvents sessionId).map (·.eventId)).Nodup ∧
      (s.db.stateEvents sessionId).Pairwise (·.seq < ·.seq)) ∧
    (∀ m w t, step sampleRules s (.write m w) = some t → ∃ new, t.db.outbox = s.db.outbox ++ new ∧
      ∀ next ∈ t.db.runs.rows, StatusChanged s.db next → Told s.db new next.toRunRow) ∧
    ∀ e t, step sampleRules s e = some t → (∀ m w, e ≠ .write m w) →
      t.db.outbox.map (·.eventId) = s.db.outbox.map (·.eventId) := by
  have h : ((projectionSteps.foldlM (step sampleRules) ⟨.empty, []⟩).map fun s => (s.db.stateEvents "s").length) =
      some 1 := by decide +kernel
  obtain ⟨s, hs, hlength⟩ := Option.map_eq_some_iff.mp h
  have hreachable : (engine sampleRules).Reachable s :=
    Transition.Reachable.foldlM (fun _ _ _ hstep => hstep) (.init ⟨rfl, rfl⟩) hs
  exact ⟨s, hlength, outbox_holds sampleRules s hreachable⟩

end Sample

end Canvas
