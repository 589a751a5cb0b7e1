import V8AgentOs.Runs.Schedule
import V8AgentOs.Runs.Signals

-- A waiting run is scheduled once for every generation of its wait, and only where nothing speaks against it.
namespace Runs

open Python (Dict Json Text strip)

variable {text : Text} {db : Database} {row : RunRecord} {c : Resume} {run key : String}

section Claims

theorem lower_plain (text : Text) {s : String} (h : s.toList.all fun c => c.toNat < 128 && c.toLower = c) :
    text.lower s = s := by
  have h := List.all_eq_true.mp h
  have hlow : s.toList.map Char.toLower = s.toList := by
    conv_rhs => rw [← List.map_id s.toList]
    apply List.map_congr_left
    intro c hc
    exact of_decide_eq_true (Bool.and_eq_true_iff.mp (h c hc)).right
  rw [text.ascii s (List.all_eq_true.mpr fun c hc => (Bool.and_eq_true_iff.mp (h c hc)).left), hlow,
    String.ofList_toList]

-- The states that the service passes are in their normal form.
def plain (states : List String) : Bool :=
  states.all fun s => strip s = s && s ≠ "" && s.toList.all fun c => c.toNat < 128 && c.toLower = c

theorem normalizedStates_plain {states : List String} (h : plain states) : normalizedStates text states = states := by
  induction states
  case nil => rfl
  case cons s states hi =>
    have ⟨hs, hrest⟩ := Bool.and_eq_true_iff.mp h
    have ⟨hs, hlow⟩ := Bool.and_eq_true_iff.mp hs
    have ⟨hstrip, hne⟩ := Bool.and_eq_true_iff.mp hs
    have hstrip : strip s = s := of_decide_eq_true hstrip
    have hne : s ≠ "" := of_decide_eq_true hne
    have hi := hi hrest
    unfold normalizedStates at hi ⊢
    rw [List.filter_cons_of_pos (by simpa [hstrip] using hne), List.map_cons, hi, hstrip, lower_plain text hlow]

-- What the decision of the service looks at
def Resume.refusal (text : Text) (db : Database) (c : Resume) (row : RunRecord) : Option Refusal :=
  scheduleRefusal text db row markerKey c.nextMarker "waiting" "running" terminalEpisodeStates activeEpisodeStates

-- The metadata after the schedule
def Resume.metadata (db : Database) (c : Resume) (row : RunRecord) : Dict :=
  row.metadata.set markerKey (.dict (scheduledMarker c.now (attention db.events c.run) c.nextMarker))

theorem Resume.claim_cases (text : Text) (db : Database) (c : Resume) :
    ((c.claim text db).1.granted = false ∧ (c.claim text db).2 = db.runs) ∨
    ∃ row, db.runs.get? c.run = some row ∧ c.refusal text db row = none ∧ (c.claim text db).1.granted = true ∧
      (c.claim text db).2 = setMetadata db.runs c.run (c.metadata db row) := by
  have hkey : strip markerKey = markerKey := by decide
  have hwaiting : text.lower (strip "waiting") = "waiting" := lower_plain text (by decide)
  have hrunning : strip "running" = "running" := by decide
  have hkeyed : ¬markerKey = "" := by decide
  unfold Resume.claim claimRuntimeEpisodeResumeSchedule
  rw [hkey, hwaiting, hrunning, normalizedStates_plain (by decide +kernel),
    normalizedStates_plain (by decide +kernel), if_neg hkeyed]
  cases hr : db.runs.get? c.run
  case none => exact .inl ⟨rfl, rfl⟩
  case some row =>
    cases hf : c.refusal text db row
    case none =>
      have hf' := hf
      unfold Resume.refusal at hf'
      simp only [hf']
      exact .inr ⟨row, rfl, hf, rfl, rfl⟩
    case some r =>
      unfold Resume.refusal at hf
      simp only [hf]
      exact .inl ⟨rfl, trivial⟩

end Claims

section Guards

-- What a schedule needs of the tables
structure Permits (text : Text) (db : Database) (c : Resume) (row : RunRecord) : Prop where
  running  : strip row.status = "running"
  control  : ¬Commanded stoppingCommands row.metadata
  lane     : ∀ lane, db.lanes.get? row.sessionId = some lane → lane.activeRunId.getD "" = ""
  episodes : (∀ e ∈ db.episodes, e.topLevel c.run →
      waitsFor ((markerOf row.metadata markerKey).getD []) e.id = some true →
      text.lower (strip e.state) ∉ activeEpisodeStates) ∨
    ∃ e ∈ db.events, e.calls c.run

theorem running_of_statusRefusal (h : statusRefusal "running" row = none) : strip row.status = "running" := by
  by_contra hn
  simp [statusRefusal, hn] at h

theorem free_of_laneRefusal {lanes : Table Lane.sessionId} {sessionId : String} (h : laneRefusal lanes sessionId = none)
    (lane : Lane) (hl : lanes.get? sessionId = some lane) : lane.activeRunId.getD "" = "" := by
  by_contra hn
  simp [laneRefusal, hl, hn] at h

theorem ended_of_episodesRefusal {terminal active : List String} {marker : Dict} {episodes : List Episode}
    (h : episodesRefusal text terminal active marker episodes = none) (e : Episode) (he : e ∈ episodes)
    (hw : waitsFor marker e.id = some true) : stillActive terminal active (text.lower (strip e.state)) = false := by
  induction episodes
  case nil => cases he
  case cons e' episodes hi =>
    unfold episodesRefusal at h
    split at h
    case h_1 => cases h
    case h_2 hn =>
      cases List.mem_cons.mp he
      case inl he => rw [he, hn] at hw; cases hw
      case inr he => exact hi h he
    case h_3 =>
      split at h
      case isTrue => cases h
      case isFalse hs =>
        cases List.mem_cons.mp he
        case inl he => exact he ▸ Bool.eq_false_iff.mpr hs
        case inr he => exact hi h he

-- Attention comes from a pending message.
theorem message_of_attention {events : List EpisodeEvent} (h : (attention events run).getD 0 ≠ 0) :
    ∃ e ∈ events, e.calls run := by
  unfold attention at h
  cases hm : events.filter (·.calls run)
  case nil => simp [hm] at h
  case cons e rest =>
    have he : e ∈ events.filter (·.calls run) := by simp [hm]
    have ⟨he, hc⟩ := List.mem_filter.mp he
    exact ⟨e, he, hc⟩

theorem permits_of_refusal (hr : db.runs.get? c.run = some row) (h : c.refusal text db row = none) :
    Permits text db c row := by
  have ⟨hstatus, h⟩ := Option.or_eq_none_iff.mp h
  have ⟨hcontrol, h⟩ := Option.or_eq_none_iff.mp h
  have ⟨_, h⟩ := Option.or_eq_none_iff.mp h
  have ⟨hlane, h⟩ := Option.or_eq_none_iff.mp h
  refine ⟨running_of_statusRefusal hstatus, not_commanded hcontrol, free_of_laneRefusal hlane, ?_⟩
  rw [Table.key_of_get? hr] at h
  unfold activeRefusal at h
  split at h
  case isTrue ha  => exact .inr (message_of_attention ha)
  case isFalse ha =>
    left
    intro e he ht hw hactive
    have hs := ended_of_episodesRefusal h e (List.mem_filter.mpr ⟨he, ht⟩) hw
    simp [stillActive, hactive] at hs

end Guards

section Once

-- The event writes the marker of a run only to park the run for a newer generation.
def Parks (s : Runs.State) (e : Runs.Event) : Prop :=
  match e.action with
  | .commit t _ _ => ∀ run v, t.gives run markerKey = some v →
    ∃ marker n, v = some (.dict marker) ∧ Dict.get marker "waitGeneration" = .int n ∧
      ∀ old m, valueOf s.runs run markerKey = some (.dict old) → Dict.get old "waitGeneration" = .int m → m < n
  | _ => True

def Schedule.Lawful (s : Schedule.State) : Schedule.Event → Prop
  | .run e => Fresh s.base e ∧ Parks s.base e
  | _      => True

-- The wait of a generation is over: a newer one is recorded, or the marker of this one does not wait.
def Spent (text : Text) (runs : RunTable) (k : String × ℤ) : Prop :=
  ∃ marker n, valueOf runs k.1 markerKey = some (.dict marker) ∧ Dict.get marker "waitGeneration" = .int n ∧
    k.2 ≤ n ∧ (n = k.2 → text.lowered (Dict.get marker "state") ≠ "waiting")

theorem eq_of_eq {m n : ℤ} (h : (Json.int m).eq (.int n) = true) : m = n := by
  simpa [Json.eq, Json.number?, Json.sameNumber] using h

variable {s t : Schedule.State} {e : Schedule.Event} {es : List Schedule.Event} {k : String × ℤ}

theorem nextMarker_generation : c.nextMarker.get "waitGeneration" = .int c.generation := by
  have := c.waits
  simp only [Dict.get] at this
  simp [Dict.get, Resume.nextMarker, Dict.lookup_merge, Dict.lookup_cons, this]

theorem scheduledMarker_get {seq : Option ℤ} {now : String} {m : Dict} (ha : key ≠ "attentionSeq")
    (hs : key ≠ "scheduledAt") : (scheduledMarker now seq m).get key = m.get key := by
  simp [Dict.get, scheduledMarker, Dict.lookup_merge, Dict.lookup_cons, ha, hs]

-- A granted claim finds the run waiting for its generation.
theorem waiting_of_refusal (h : c.refusal text db row = none) :
    let marker := (markerOf row.metadata markerKey).getD []
    (marker.get "waitGeneration").eq (.int c.generation) ∧ text.lowered (marker.get "state") = "waiting" := by
  have ⟨_, h⟩ := Option.or_eq_none_iff.mp h
  have ⟨_, h⟩ := Option.or_eq_none_iff.mp h
  have ⟨h, _⟩ := Option.or_eq_none_iff.mp h
  rw [← nextMarker_generation]
  unfold markerRefusal at h
  split at h
  case isTrue => cases h
  case isFalse hg =>
    split at h
    case isTrue => cases h
    case isFalse =>
      split at h
      case isTrue => cases h
      case isFalse hw => exact ⟨by simpa using hg, by simpa using hw⟩

theorem markerOf_of_valueOf {marker : Dict} (hr : db.runs.get? run = some row)
    (hv : valueOf db.runs run key = some (.dict marker)) : markerOf row.metadata key = some marker := by
  rw [valueOf_of_get? hr] at hv
  simp [markerOf, hv]

theorem not_spent_of_refusal (db : Database) (hr : db.runs.get? c.run = some row) (h : c.refusal text db row = none) :
    ¬Spent text db.runs (c.run, c.generation) := by
  intro ⟨marker, n, hv, hg, _, hn⟩
  have hm : markerOf row.metadata markerKey = some marker := markerOf_of_valueOf hr hv
  have ⟨he, hw⟩ := waiting_of_refusal h
  rw [hm] at he hw
  have he : (Dict.get marker "waitGeneration").eq (.int c.generation) = true := he
  rw [hg] at he
  exact hn (eq_of_eq he) hw

theorem lowered_scheduled : text.lowered (.str "scheduled") = "scheduled" := by
  have hs : text.stripped (.str "scheduled") = "scheduled" := by
    show strip "scheduled" = "scheduled"
    decide
  rw [Text.lowered, hs]
  exact lower_plain text (by decide)

theorem valueOf_schedule (hr : db.runs.get? c.run = some row) :
    valueOf (setMetadata db.runs c.run (c.metadata db row)) run markerKey =
      if c.run = run then some (.dict (scheduledMarker c.now (attention db.events c.run) c.nextMarker))
      else valueOf db.runs run markerKey := by
  rw [setMetadata, valueOf_update hr]
  split
  case isTrue  => exact Dict.lookup_set_self
  case isFalse => rfl

theorem nextMarker_state : c.nextMarker.get "state" = .str "scheduled" := by
  simp [Dict.get, Resume.nextMarker, Dict.lookup_merge]

-- After a schedule, the generation and those before it are spent.
theorem spent_of_schedule (db : Database) (hr : db.runs.get? c.run = some row) {g : ℤ} (hg : g ≤ c.generation) :
    Spent text (setMetadata db.runs c.run (c.metadata db row)) (c.run, g) := by
  refine ⟨_, c.generation, (valueOf_schedule hr).trans (if_pos rfl), ?_, hg, fun _ => ?_⟩
  · rw [scheduledMarker_get (by decide) (by decide), nextMarker_generation]
  · rw [scheduledMarker_get (by decide) (by decide), nextMarker_state, lowered_scheduled]
    decide

theorem spent_of_claim (db : Database) (h : Spent text db.runs k) : Spent text (c.claim text db).2 k := by
  cases c.claim_cases text db
  case inl hc => exact hc.right ▸ h
  case inr hc =>
    have ⟨row, hr, hf, _, hw⟩ := hc
    rw [hw]
    by_cases hid : c.run = k.1
    case neg =>
      have ⟨marker, n, hv, hrest⟩ := h
      exact ⟨marker, n, (valueOf_schedule hr).trans ((if_neg hid).trans hv), hrest⟩
    case pos =>
      have ⟨marker, n, hv, hg, hle, _⟩ := h
      have hm : markerOf row.metadata markerKey = some marker := markerOf_of_valueOf hr (hid ▸ hv)
      have he := (waiting_of_refusal hf).left
      rw [hm] at he
      have he : (Dict.get marker "waitGeneration").eq (.int c.generation) = true := he
      rw [hg] at he
      have hk : k = (c.run, k.2) := by rw [hid]
      rw [hk]
      exact spent_of_schedule db hr (eq_of_eq he ▸ hle)

-- A status change, a control signal or a parking leaves what is spent.
theorem spent_of_run {s t : Runs.State} {e : Runs.Event} (hs : (Runs.system text).step s e t) (hf : Fresh s e)
    (hp : Parks s e) (h : Spent text s.runs k) : Spent text t.runs k := by
  have ⟨marker, n, hv, hg, hle, hn⟩ := h
  have hstep : valueOf t.runs k.1 markerKey = (e.gives k.1 markerKey).getD (valueOf s.runs k.1 markerKey) :=
    valueOf_step hs hf
  cases hgive : e.gives k.1 markerKey
  case none =>
    rw [hgive] at hstep
    exact ⟨marker, n, hstep.trans hv, hg, hle, hn⟩
  case some v =>
    rw [hgive] at hstep
    cases hs
    case call    => cases hgive
    case recheck => cases hgive
    case stop    => cases hgive
    case commit i tr w _ =>
      rw [gives_commit] at hgive
      split at hgive
      case isFalse => cases hgive
      case isTrue =>
        have ⟨marker', n', hv', hg', hnew⟩ := hp k.1 v hgive
        have hlt := hnew marker n hv hg
        rw [hv'] at hstep
        refine ⟨marker', n', hstep, hg', by omega, fun he => ?_⟩
        omega

theorem schedules_step (hs : (Schedule.system text).step s e t) (hk : k ∈ e.schedules) :
    ∃ c row, e = .claim c true ∧ k = (c.run, c.generation) ∧ s.base.runs.get? c.run = some row ∧
      c.refusal text s.db row = none ∧ t.base.runs = setMetadata s.base.runs c.run (c.metadata s.db row) := by
  cases hs
  case run       => cases hk
  case elsewhere => cases hk
  case claim c =>
    cases c.claim_cases text s.db
    case inl hc =>
      rw [hc.left] at hk
      cases hk
    case inr hc =>
      have ⟨row, hr, hf, hg, hw⟩ := hc
      rw [hg] at hk
      exact ⟨c, row, by rw [hg], List.mem_singleton.mp hk, hr, hf, hw⟩

theorem spent_step (hs : ((Schedule.system text).restrict Schedule.Lawful).step s e t)
    (h : Spent text s.base.runs k) : Spent text t.base.runs k := by
  have ⟨hl, hs⟩ := hs
  cases hs
  case run hstep => exact spent_of_run hstep hl.left hl.right h
  case claim     => exact spent_of_claim s.db h
  case elsewhere => exact h

theorem schedules_nodup (r : ((Schedule.system text).restrict Schedule.Lawful).Run s es t) :
    (es.flatMap Schedule.Event.schedules).Nodup := by
  apply r.nodup_emitted (I := fun _ => True) (S := fun s k => Spent text s.base.runs k)
  case hI => exact fun _ _ _ _ _ => trivial
  case nodup =>
    intro s e t _ _
    unfold Schedule.Event.schedules
    split
    case h_1 => exact List.nodup_singleton _
    case h_2 => exact .nil
  case fresh =>
    intro s e t _ hs k hk
    have ⟨c, row, _, hkey, hr, hf, _⟩ := schedules_step hs.right hk
    exact hkey ▸ not_spent_of_refusal s.db hr hf
  case spends =>
    intro s e t _ hs k hk
    have ⟨c, row, _, hkey, hr, _, hw⟩ := schedules_step hs.right hk
    rw [hw, hkey]
    exact spent_of_schedule s.db hr (le_refl _)
  case mono => exact fun _ _ _ _ hs _ h => spent_step hs h
  case h    => trivial

-- In a run that writes no metadata over newer metadata and parks a run only for a newer generation, a generation of
-- a run's wait is scheduled once. A schedule needs a run that is running, carries no signal that stops it, has
-- no other writer in its lane and waits for no active episode, unless its attention is asked for. A refusal
-- changes nothing.
theorem schedule_once (r : ((Schedule.system text).restrict Schedule.Lawful).Run s es t) :
    (es.flatMap Schedule.Event.schedules).Nodup ∧
    (∀ (db : Database) (c : Resume), (c.claim text db).1.granted = false → (c.claim text db).2 = db.runs) ∧
    ∀ (db : Database) (c : Resume), (c.claim text db).1.granted = true →
      ∃ row, db.runs.get? c.run = some row ∧ Permits text db c row := by
  refine ⟨schedules_nodup r, fun db c h => ?_, fun db c h => ?_⟩
  · cases c.claim_cases text db
    case inl hc => exact hc.right
    case inr hc =>
      have ⟨_, _, _, hg, _⟩ := hc
      rw [h] at hg
      cases hg
  · cases c.claim_cases text db
    case inl hc => rw [h] at hc; cases hc.left
    case inr hc =>
      have ⟨row, hr, hf, _⟩ := hc
      exact ⟨row, hr, permits_of_refusal hr hf⟩

end Once

section Sample

def sampleMarker : Dict :=
  [("state", .str "waiting"), ("waitGeneration", .int 1)]

def sampleResume : Resume where
  run          := "run"
  marker       := sampleMarker
  generation   := 1
  waits        := rfl
  episodeId    := "episode"
  episodeState := "completed"
  now          := "2026-01-01T00:00:00+00:00"

def sampleWaiting : Schedule.State where
  base     := ⟨⟨[{ sampleRow with metadata := [(markerKey, .dict sampleMarker)] }], by simp⟩, fun _ => none⟩
  lanes    := .empty
  episodes := [⟨"episode", "run", none, "completed"⟩]
  events   := []

-- A thread that activates the run retires an old wait of the coordination.
def sampleRetired : Dict :=
  [("sessionResultWait", .dict [("state", .str "superseded")])]

def sampleActivate : Call :=
  .transitionRunIfStatus "run" ["running"] "running" none (some sampleRetired)

def sampleActivation : Transaction :=
  .updateRunRecordIfStatus "run" ["running"] "running" none (some ⟨[(markerKey, .dict sampleMarker)], sampleRetired⟩)

def sampleRead : Schedule.State :=
  { sampleWaiting with base :=
    ⟨sampleWaiting.base.runs, Function.update sampleWaiting.base.work 0 (some (.transaction sampleActivation))⟩ }

def Schedule.State.claimed (s : Schedule.State) (c : Resume) : Schedule.State :=
  { s with base := { s.base with runs := (c.claim Python.asciiText s.db).2 } }

def sampleScheduled : Schedule.State :=
  sampleRead.claimed sampleResume

def sampleRestored : Schedule.State :=
  { sampleScheduled with base :=
    ⟨(sampleActivation.apply Python.asciiText sampleWorld sampleScheduled.base.runs).2,
      Function.update sampleScheduled.base.work 0 none⟩ }

theorem claim_step {s : Schedule.State} (h : (c.claim Python.asciiText s.db).1.granted = true) :
    (Schedule.system Python.asciiText).step s (.claim c true) (s.claimed c) :=
  h ▸ .claim

-- The activation read the marker before the first schedule and writes it back after this, so that the generation is
-- scheduled again.
def sampleTwice : List Schedule.Event :=
  [.run ⟨0, .call sampleActivate⟩, .claim sampleResume true, .run ⟨0, .commit sampleActivation sampleWorld true⟩,
    .claim sampleResume true]

theorem commit_step {s : Runs.State} {i : ℕ} {t : Transaction} (hw : s.work i = some (.transaction t))
    (h : (t.apply Python.asciiText sampleWorld s.runs).1 = true) :
    Runs.Step Python.asciiText s ⟨i, .commit t sampleWorld true⟩
      ⟨(t.apply Python.asciiText sampleWorld s.runs).2, Function.update s.work i none⟩ :=
  h ▸ .commit hw

theorem sampleResume_granted : (sampleResume.claim Python.asciiText sampleRead.db).1.granted = true := by
  decide +kernel

theorem sampleTwice_run :
    (Schedule.system Python.asciiText).Run sampleWaiting sampleTwice (sampleRestored.claimed sampleResume) := by
  have hread : (Schedule.system Python.asciiText).step sampleWaiting (.run ⟨0, .call sampleActivate⟩) sampleRead :=
    .run (.call rfl)
  have hwrite : (Schedule.system Python.asciiText).step sampleScheduled
      (.run ⟨0, .commit sampleActivation sampleWorld true⟩) sampleRestored :=
    .run (commit_step rfl (by decide +kernel))
  have hagain : (sampleResume.claim Python.asciiText sampleRestored.db).1.granted = true := by decide +kernel
  exact .trans hread (.trans (claim_step sampleResume_granted) (.trans hwrite (.single (claim_step hagain))))

theorem scheduled_twice :
    ¬∀ (text : Text) (s t : Schedule.State) (es : List Schedule.Event), (Schedule.system text).init s →
      (Schedule.system text).Run s es t → (es.flatMap Schedule.Event.schedules).Nodup := by
  intro h
  have hn := h Python.asciiText _ _ _ (fun _ => rfl) sampleTwice_run
  exact absurd hn (by decide)

theorem schedule_once_sample :
    ([Schedule.Event.claim sampleResume true].flatMap Schedule.Event.schedules).Nodup ∧
      ∃ row, Permits Python.asciiText sampleRead.db sampleResume row := by
  have r : ((Schedule.system Python.asciiText).restrict Schedule.Lawful).Run sampleRead
      [.claim sampleResume true] (sampleRead.claimed sampleResume) :=
    .single ⟨trivial, claim_step sampleResume_granted⟩
  have ⟨hnodup, _, hpermits⟩ := schedule_once r
  have ⟨row, _, h⟩ := hpermits sampleRead.db sampleResume sampleResume_granted
  exact ⟨hnodup, row, h⟩

end Sample
end Runs
