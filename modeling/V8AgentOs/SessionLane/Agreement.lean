import V8AgentOs.Lib.Transition
import V8AgentOs.SessionLane.Admission

-- When the record of a lane agrees with the lane
namespace SessionLane

open Python (Text asciiText)

variable {text : Text} {s t : State} {a : Admission} {d : Decision} {c : Call} {p : Persist} {record : Option Record}
  {pid : ℕ} {now : String} {action : Action} {call : Option Call} {lane : Lane}

-- The run that holds the lane, as the record has it
def recorded (record : Option Record) : Lane :=
  (currentView record).activeRunId

def Persist.releases (p : Persist) : Bool :=
  p.action = "idle"

-- What a call has left to persist
def Call.work : Call → List Persist
  | .waiting _ _          => []
  | .releasing _          => []
  | .reading p rest       => p :: rest
  | .writing p _ _ rest   => p :: rest
  | .appending _ rest     => rest

-- The call writes the record before it ends. A release does so if the record that it reads names its run.
def Call.MustWrite (record : Option Record) : Call → Prop
  | .releasing r => (currentView record).names r.runId
  | c            => c.work ≠ []

-- What a call persists last says who held the lane when it decided, or that the lane is free.
def Sound (s : State) : Prop :=
  ∀ pid c p, s.calls pid = some c → c.work.getLast? = some p →
    p.activeRunId = if p.releases then none else s.found pid

-- The record agrees with the lane, or a call is still to write it.
def Settling (s : State) : Prop :=
  recorded s.record = s.lane ∨ ∃ pid c, s.calls pid = some c ∧ c.MustWrite s.record

-- When a call writes the record for the last time, the lane is free if it is a release, and held as the call found it
-- otherwise. Or some other call is still to write the record.
def Timely (text : Text) (s : State) : Action → Prop
  | .proceed pid _ => ∀ p current now, s.calls pid = some (.writing p current now []) →
    (s.lane = if p.releases then none else s.found pid) ∨
      ∃ other c, other ≠ pid ∧ s.calls other = some c ∧ c.MustWrite (some (p.row text current now))
  | _              => True

def initial (record : Option Record) : State where
  lane    := none
  record  := record
  history := []
  calls _ := none
  found _ := none

def system (text : Text) : Transition State Action where
  init s       := ∃ record, recorded record = none ∧ s = initial record
  step s action t := s.step text action = some t

@[simp]
theorem recorded_row {current : Record} : recorded (some (p.row text current now)) = p.activeRunId := rfl

theorem work_resume {rest : List Persist} (h : Call.resume rest = some c) : c.work = rest := by
  cases rest
  case nil  => cases h
  case cons => cases h; rfl

theorem mustWrite_of_work (h : c.work ≠ []) : c.MustWrite record := by
  cases c
  case releasing => exact absurd rfl h
  case waiting   => exact absurd rfl h
  case reading   => exact h
  case writing   => exact h
  case appending => exact h

theorem mustWrite_resume {rest : List Persist} (h : rest ≠ []) :
    ∃ c, Call.resume rest = some c ∧ c.MustWrite record := by
  cases rest
  case nil         => exact absurd rfl h
  case cons p rest => exact ⟨_, rfl, List.cons_ne_nil _ _⟩

theorem acquired_ne_nil : a.acquired d ≠ [] := by
  unfold Admission.acquired
  split
  case isTrue  => exact List.cons_ne_nil _ _
  case isFalse => exact List.cons_ne_nil _ _

theorem getLast_acquired (h : (a.acquired d).getLast? = some p) : p = a.settled d := by
  unfold Admission.acquired at h
  split at h
  case isTrue  => cases h; rfl
  case isFalse => cases h; rfl

theorem tried_active : (a.tried d).activeRunId = if d.acquired then some a.runId else d.activeRunId := by
  unfold Admission.tried
  split
  case isTrue => rfl
  case isFalse =>
    split
    case isTrue  => rfl
    case isFalse => rfl

theorem tried_releases : (a.tried d).releases = false := by
  unfold Admission.tried
  split
  case isTrue => rfl
  case isFalse =>
    split
    case isTrue  => rfl
    case isFalse => rfl

theorem settled_releases : (a.settled d).releases = false := by
  unfold Admission.settled Persist.releases
  cases d.acquired
  case true  => rfl
  case false => rfl

theorem lane_of_awake {lane' : Lane} {d' : Decision} (h : awake d lane a.runId = some (d', lane')) :
    d'.acquired ∧ lane' = some a.runId := by
  cases lane
  case some => cases h
  case none => cases h; exact ⟨rfl, rfl⟩

-- The decision of a call, after which the call has some work
theorem sound_decide (h : Sound s) (hc : ∀ c p, call = some c → c.work.getLast? = some p →
    p.activeRunId = if p.releases then none else lane) : Sound (s.decide pid lane call) := by
  intro other c p hcall hp
  by_cases ho : other = pid
  case pos =>
    subst ho
    simp only [State.decide, Function.update_self] at hcall ⊢
    exact hc c p hcall hp
  case neg =>
    simp only [State.decide, Function.update_of_ne ho] at hcall ⊢
    exact h other c p hcall hp

-- The work of a call gets less.
theorem sound_setCall (h : Sound s) (hc : ∀ c p, call = some c → c.work.getLast? = some p →
    p.activeRunId = if p.releases then none else s.found pid) : Sound (s.setCall pid call) := by
  intro other c p hcall hp
  by_cases ho : other = pid
  case pos =>
    subst ho
    simp only [State.setCall, Function.update_self] at hcall
    exact hc c p hcall hp
  case neg =>
    simp only [State.setCall, Function.update_of_ne ho] at hcall
    exact h other c p hcall hp

theorem start_eq {s' : State} (h : s.start pid s' = some t) : s.calls pid = none ∧ t = s' := by
  unfold State.start at h
  split at h
  case h_1 hn => cases h; exact ⟨hn, rfl⟩
  case h_2    => cases h

theorem getLast_cons {p' : Persist} {rest : List Persist} (h : rest.getLast? = some p) :
    (p' :: rest).getLast? = some p := by
  rw [List.getLast?_cons, h]
  rfl

theorem sound_proceed (h : Sound s) (hc : s.calls pid = some c) (hs : s.proceed text pid now c = some t) : Sound t := by
  have hwork := fun p hp => h pid c p hc hp
  cases c
  case waiting a d =>
    obtain ⟨⟨d', lane'⟩, hawake, ht⟩ := Option.map_eq_some_iff.mp hs
    have ⟨hacquired, hlane⟩ := lane_of_awake hawake
    subst ht
    refine sound_decide h fun c p hc hp => ?_
    rw [work_resume hc] at hp
    rw [getLast_acquired hp, settled_releases, hlane]
    simp [Admission.settled, hacquired]
  case releasing r =>
    cases hs
    refine sound_setCall h fun c p hc hp => ?_
    split at hc
    case isTrue  => cases hc; cases hp; rfl
    case isFalse => cases hc
  case reading p rest =>
    cases hs
    refine sound_setCall h fun c p' hc hp => ?_
    cases hc
    exact hwork p' hp
  case writing p current now' rest =>
    cases hs
    refine sound_setCall h fun c p' hc hp => ?_
    split at hc
    case isTrue  => cases hc; exact hwork p' (getLast_cons hp)
    case isFalse => exact hwork p' (getLast_cons (work_resume hc ▸ hp))
  case appending entry rest =>
    cases hs
    refine sound_setCall h fun c p' hc hp => ?_
    exact hwork p' (work_resume hc ▸ hp)

theorem sound_step (h : Sound s) (hs : s.step text action = some t) : Sound t := by
  cases action
  case tryAcquire pid a =>
    have ⟨_, ht⟩ := start_eq hs
    subst ht
    refine sound_decide h fun c p hc hp => ?_
    rw [work_resume hc, List.getLast?_singleton] at hp
    have hp : a.tried _ = p := Option.some.inj hp
    rw [← hp, tried_active, tried_releases, lane_of_tryAcquire]
    rfl
  case acquire pid a =>
    have ⟨_, ht⟩ := start_eq hs
    subst ht
    refine sound_decide h fun c p hc hp => ?_
    split at hc
    case isTrue  => cases hc; cases hp
    case isFalse =>
      rw [work_resume hc] at hp
      rw [getLast_acquired hp, settled_releases, lane_of_tryAcquire]
      rfl
  case release pid r =>
    have ⟨_, ht⟩ := start_eq hs
    subst ht
    refine sound_decide h fun c p hc hp => ?_
    cases hc
    cases hp
  case proceed pid now =>
    obtain ⟨c, hc, hs⟩ := Option.bind_eq_some_iff.mp hs
    exact sound_proceed h hc hs

-- The call that has decided is still to write.
theorem settling_decide (hc : ∃ c, call = some c ∧ c.MustWrite s.record) : Settling (s.decide pid lane call) := by
  obtain ⟨c, hc, hw⟩ := hc
  exact .inr ⟨pid, c, by simp [State.decide, hc], hw⟩

-- A call that decides nothing about the lane
theorem settling_keep (h : Settling s) (hn : s.calls pid = none) (hl : s.lane = lane) :
    Settling (s.decide pid lane call) := by
  cases h
  case inl h => exact .inl (h.trans hl)
  case inr h =>
    obtain ⟨other, c, hc, hw⟩ := h
    have ho : other ≠ pid := by
      intro ho
      rw [ho, hn] at hc
      cases hc
    exact .inr ⟨other, c, by simp [State.decide, Function.update_of_ne ho, hc], hw⟩

-- A step of a call that still has to write if it had to
theorem settling_setCall (h : Settling s) (hc : s.calls pid = some c)
    (hw : c.MustWrite s.record → ∃ c', call = some c' ∧ c'.MustWrite s.record) : Settling (s.setCall pid call) := by
  cases h
  case inl h => exact .inl h
  case inr h =>
    obtain ⟨other, c', hc', hw'⟩ := h
    by_cases ho : other = pid
    case pos =>
      subst ho
      cases hc.symm.trans hc'
      obtain ⟨c', hcall, hw'⟩ := hw hw'
      exact .inr ⟨other, c', by simp [State.setCall, hcall], hw'⟩
    case neg =>
      exact .inr ⟨other, c', by simp [State.setCall, Function.update_of_ne ho, hc'], hw'⟩

theorem names_of_recorded {runId : String} (h : recorded record = some runId) : (currentView record).names runId := by
  have h : (currentView record).activeRunId = some runId := h
  simp [Record.names, h]

theorem settling_proceed (hsound : Sound s) (h : Settling s) (hok : Timely text s (.proceed pid now))
    (hc : s.calls pid = some c) (hs : s.proceed text pid now c = some t) : Settling t := by
  cases c
  case waiting a d =>
    obtain ⟨⟨d', lane'⟩, _, ht⟩ := Option.map_eq_some_iff.mp hs
    subst ht
    exact settling_decide (mustWrite_resume acquired_ne_nil)
  case releasing r =>
    cases hs
    refine settling_setCall h hc fun hw => ?_
    have hw : (currentView s.record).names r.runId := hw
    rw [if_pos hw]
    exact ⟨_, rfl, List.cons_ne_nil _ _⟩
  case reading p rest =>
    cases hs
    exact settling_setCall h hc fun _ => ⟨_, rfl, List.cons_ne_nil _ _⟩
  case appending entry rest =>
    cases hs
    exact settling_setCall h hc fun hw => mustWrite_resume hw
  case writing p current now' rest =>
    cases hs
    cases rest
    case cons p' rest =>
      have hnext : ∃ c', (if p.changed current then some (.appending (p.entry text current now') (p' :: rest))
          else Call.resume (p' :: rest)) = some c' ∧ c'.MustWrite (some (p.row text current now')) := by
        split
        case isTrue  => exact ⟨_, rfl, List.cons_ne_nil _ _⟩
        case isFalse => exact ⟨_, rfl, List.cons_ne_nil _ _⟩
      obtain ⟨c', hc', hw⟩ := hnext
      exact .inr ⟨pid, c', by simp [State.setCall, hc'], hw⟩
    case nil =>
      cases hok p current now' hc
      case inl hl =>
        have hactive := hsound pid _ p hc rfl
        exact .inl (hactive.trans hl.symm)
      case inr ho =>
        obtain ⟨other, c', ho, hc', hw⟩ := ho
        exact .inr ⟨other, c', by simp [State.setCall, Function.update_of_ne ho, hc'], hw⟩

theorem settling_step (hsound : Sound s) (h : Settling s) (hok : Timely text s action)
    (hs : s.step text action = some t) : Settling t := by
  cases action
  case tryAcquire pid a =>
    have ⟨_, ht⟩ := start_eq hs
    subst ht
    exact settling_decide ⟨_, rfl, List.cons_ne_nil _ _⟩
  case acquire pid a =>
    have ⟨hn, ht⟩ := start_eq hs
    subst ht
    split
    case isFalse => exact settling_decide (mustWrite_resume acquired_ne_nil)
    case isTrue hwaited =>
      refine settling_keep h hn ?_
      unfold tryAcquire at hwaited ⊢
      cases hl : s.lane
      case none => simp [hl] at hwaited
      case some =>
        simp only
        split
        case isTrue  => rfl
        case isFalse => rfl
  case release pid r =>
    have ⟨hn, ht⟩ := start_eq hs
    subst ht
    by_cases hl : s.lane = some r.runId
    case neg => exact settling_keep h hn (by simp [release, hl])
    case pos =>
      cases h
      case inl h => exact settling_decide ⟨_, rfl, names_of_recorded (h.trans hl)⟩
      case inr h =>
        obtain ⟨other, c, hc, hw⟩ := h
        have ho : other ≠ pid := by
          intro ho
          rw [ho, hn] at hc
          cases hc
        exact .inr ⟨other, c, by simp [State.decide, Function.update_of_ne ho, hc], hw⟩
  case proceed pid now =>
    obtain ⟨c, hc, hs⟩ := Option.bind_eq_some_iff.mp hs
    exact settling_proceed hsound h hok hc hs

theorem settling_reachable (h : ((system text).restrict (Timely text)).Reachable s) : Sound s ∧ Settling s := by
  apply Transition.Reachable.invariant (I := fun s => Sound s ∧ Settling s) ?init ?step h
  case init =>
    intro s hs
    obtain ⟨record, hr, hs⟩ := hs
    subst hs
    exact ⟨fun _ _ _ hc => (by cases hc), .inl hr⟩
  case step =>
    intro s action t h hs
    exact ⟨sound_step h.left hs.right, settling_step h.left h.right hs.left hs.right⟩

-- In a run in which no call writes the record for the last time when the lane is not as it says, the record names the
-- run that holds the lane whenever no call is in progress.
theorem record_names_holder (h : ((system text).restrict (Timely text)).Reachable s) (hq : ∀ pid, s.calls pid = none) :
    recorded s.record = s.lane := by
  cases (settling_reachable h).right
  case inl h => exact h
  case inr h =>
    obtain ⟨pid, c, hc, _⟩ := h
    rw [hq pid] at hc
    cases hc

section Sample

-- The last write of a call, at a time at which the lane is as it says
def prompt (s : State) : Action → Bool
  | .proceed pid _ => match s.calls pid with
    | some (.writing p _ _ []) => s.lane = if p.releases then none else s.found pid
    | _                        => true
  | _              => true

theorem timely_of_prompt (h : prompt s action) : Timely text s action := by
  cases action
  case proceed pid now =>
    intro p current now' hc
    simp only [prompt, hc, decide_eq_true_eq] at h
    exact .inl h
  case tryAcquire => trivial
  case acquire    => trivial
  case release    => trivial

def promptStep (s : State) (action : Action) : Option State :=
  if prompt s action then s.step asciiText action else none

theorem reachable_prompt {actions : List Action} (h : actions.foldlM promptStep (initial none) = some s) :
    ((system asciiText).restrict (Timely asciiText)).Reachable s := by
  refine Transition.Reachable.foldlM ?_ (.init ⟨none, rfl, rfl⟩) h
  intro s action t hs
  unfold promptStep at hs
  split at hs
  case isTrue hp => exact ⟨timely_of_prompt hp, hs⟩
  case isFalse   => cases hs

def admission (runId : String) : Admission where
  runId       := runId
  policy      := "queue"
  runtimeKind := "chat"

-- `run-a` has the lane, and `run-b` waits until it is released.
def sampleTurn : List Action :=
  [.tryAcquire 0 (admission "run-a"), .proceed 0 "1", .proceed 0 "1", .proceed 0 "1", .acquire 1 (admission "run-b"),
    .release 0 { runId := "run-a" }, .proceed 0 "2", .proceed 0 "2", .proceed 0 "2", .proceed 0 "2", .proceed 1 "3",
    .proceed 1 "3", .proceed 1 "3", .proceed 1 "3", .proceed 1 "4", .proceed 1 "4", .proceed 1 "4"]

def sampleTaken : State :=
  (sampleTurn.foldlM promptStep (initial none)).getD (initial none)

theorem record_names_holder_taken : recorded sampleTaken.record = some "run-b" := by
  have hrun : sampleTurn.foldlM promptStep (initial none) = some sampleTaken := rfl
  have hlane : sampleTaken.lane = some "run-b" := rfl
  refine (record_names_holder (reachable_prompt hrun) fun pid => ?_).trans hlane
  match pid with
  | 0     => rfl
  | 1     => rfl
  | _ + 2 => rfl

-- `run-b` finds the lane taken and is released.
def sampleWaited : List Action :=
  [.tryAcquire 0 (admission "run-a"), .proceed 0 "1", .proceed 0 "1", .proceed 0 "1",
    .tryAcquire 0 (admission "run-b"), .proceed 0 "2", .proceed 0 "2", .proceed 0 "2",
    .release 0 { runId := "run-b" }, .proceed 0 "3", .proceed 0 "3", .proceed 0 "3", .proceed 0 "3"]

def sampleCleared : State :=
  (sampleWaited.foldlM (State.step · asciiText) (initial none)).getD (initial none)

-- The record does not name `run-a` any more, which holds the lane.
theorem released_waiter_clears :
    ¬∀ (text : Text) (s : State), (system text).Reachable s → (∀ pid, s.calls pid = none) →
      recorded s.record = s.lane := by
  intro h
  have hrun : sampleWaited.foldlM (State.step · asciiText) (initial none) = some sampleCleared := rfl
  have hreachable : (system asciiText).Reachable sampleCleared :=
    Transition.Reachable.foldlM (fun _ _ _ h => h) (.init ⟨none, rfl, rfl⟩) hrun
  have hcalls : ∀ pid, sampleCleared.calls pid = none := by
    intro pid
    match pid with
    | 0     => rfl
    | _ + 1 => rfl
  have hagree := h asciiText sampleCleared hreachable hcalls
  exact absurd hagree (by decide +kernel)

end Sample
end SessionLane
