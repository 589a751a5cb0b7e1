import V8AgentOs.Automation.Recovery

namespace Automation

variable {lower : String → String} {s₀ s t u : State} {e : Event} {es es' : List Event} {id : String}
  {ok : State → Event → Prop}

-- The step does not block a delivery that is executing, and does not settle a cancelled one without a proof.
def Lawful (s : State) (e : Event) : Prop :=
  ¬e.call.Blocks s.db ∧ ¬e.call.Reopens s.db

theorem phaseOf_step {p : Phase} (hs : (system lower).step s e t) (hp : phaseOf s id = some p) :
    ∃ d d', s.db.deliveries.get? id = some d ∧ d.phase = p ∧ t.db.deliveries.get? id = some d' ∧
      phaseOf t id = some d'.phase ∧ d.Moves e s.db d' := by
  have ⟨d, hd, hphase⟩ := Option.map_eq_some_iff.mp hp
  have ⟨d', hd', hm⟩ := (step_moves hs).kept id d hd
  exact ⟨d, d', hd, hphase, hd', by simp [phaseOf, hd'], hm⟩

-- A delivery whose action may have been started stays so, and is not handed to an owner again.
theorem started_stays {p : Phase} (hok : ∀ s e, ok s e → ¬e.call.Blocks s.db)
    (r : ((system lower).restrict ok).Run s es u) (hp : phaseOf s id = some p) (hs : p.started) :
    (∃ q, phaseOf u id = some q ∧ q.started) ∧ ∀ e ∈ es, e.grantee id = none := by
  induction r generalizing p
  case refl => exact ⟨⟨p, hp, hs⟩, by simp⟩
  case trans e es hstep _ hi =>
    have ⟨d, d', hd, hphase, _, hp', hm⟩ := phaseOf_step hstep.right hp
    subst hphase
    have ⟨hq, hall⟩ := hi hp' (hm.started (hok _ _ hstep.left) hs)
    refine ⟨hq, fun e' he => ?_⟩
    cases List.mem_cons.mp he
    case inr he => exact hall e' he
    case inl he =>
      subst he
      cases hg : Event.grantee id e'
      case none => rfl
      case some o =>
        have hpending := hm.granted (by rw [Table.key_of_get? hd, hg]; rfl)
        rw [hpending] at hs
        cases hs

theorem settled_stays {p : Phase} (hok : ∀ s e, ok s e → ¬e.call.Reopens s.db)
    (r : ((system lower).restrict ok).Run s es u) (hp : phaseOf s id = some p) (hs : p.settled) :
    phaseOf u id = some p := by
  induction r
  case refl => exact hp
  case trans hstep _ hi =>
    have ⟨d, d', _, hphase, _, hp', hm⟩ := phaseOf_step hstep.right hp
    subst hphase
    exact hi (by rw [hp', hm.settled (hok _ _ hstep.left) hs])

-- The owner of a delivery is the one of its latest claim, or it has none.
def Owned (es : List Event) (s : State) : Prop :=
  ∀ id d, s.db.deliveries.get? id = some d → d.ownerId = none ∨ d.ownerId = latestOwner id es

theorem Owned.step (h : Owned es s) (hs : (system lower).step s e t) : Owned (es ++ [e]) t := by
  intro id d' hd'
  have hm := step_moves hs
  cases hd : s.db.deliveries.get? id
  case none => exact .inl (hm.made id d' hd hd')
  case some d =>
    have ⟨c, hc, hmoves⟩ := hm.kept id d hd
    cases hc.symm.trans hd'
    rw [latestOwner, Transition.latest_concat]
    have ho := hmoves.owner
    rw [Table.key_of_get? hd] at ho
    cases ho
    case inl ho => exact .inl ho
    case inr ho =>
      rw [ho]
      cases hg : e.grantee id
      case some o => exact .inr rfl
      case none   => exact h id d hd

theorem owned_of_run (h₀ : (system lower).init s₀) (r : (system lower).Run s₀ es s) : Owned es s := by
  have h : Owned [] s₀ := by
    intro id d hd
    have hm := Table.mem_of_get? hd
    rw [h₀.right] at hm
    cases hm
  exact r.from_start h fun _ _ _ _ h hs => h.step hs

-- In a run whose steps are lawful, a delivery that entered the phase executing is never pending or claimed
-- again and is handed to nobody, a final phase never changes, and a call that is made in an owner's name
-- changes the phase only if the latest claim recorded this owner.
theorem runs_action_once (h₀ : (system lower).init s₀) (r : ((system lower).restrict Lawful).Run s₀ es s)
    (r' : ((system lower).restrict Lawful).Run s es' u) (id : String) :
    (phaseOf s id = some .executing →
      phaseOf u id ≠ some .pending ∧ phaseOf u id ≠ some .claimed ∧ ∀ e ∈ es', e.grantee id = none) ∧
    (∀ p, p.settled → phaseOf s id = some p → phaseOf u id = some p) ∧
    ∀ e t p o, (system lower).step s e t → e.call.caller = some o → phaseOf s id = some p →
      phaseOf t id ≠ some p → latestOwner id es = some o := by
  refine ⟨fun hp => ?_, fun p hs hp => ?_, fun e t p o hs hc hp hne => ?_⟩
  · have ⟨⟨q, hq, hstarted⟩, hall⟩ := started_stays (fun _ _ h => h.left) r' hp rfl
    refine ⟨?_, ?_, hall⟩
    all_goals
      intro h
      cases hq.symm.trans h
      cases hstarted
  · exact settled_stays (fun _ _ h => h.right) r' hp hs
  · have ⟨d, d', hd, hphase, _, hp', hm⟩ := phaseOf_step hs hp
    subst hphase
    have ho := hm.fenced o hc fun h => hne (by rw [hp', h])
    cases owned_of_run h₀ r.of_restrict id d hd
    case inl hn => rw [ho] at hn; cases hn
    case inr hl => exact hl ▸ ho

section Sample

def sampleSource : SourceEvent where
  eventId     := "event"
  sessionId   := "session"
  runId       := none
  topic       := "automation.source.received"
  sourceRunId := none

def sampleEntry : Entry where
  deliveryId         := "delivery"
  definitionKind     := "hook"
  definitionId       := "hook-1"
  definitionRevision := "1"
  executionRunId     := "automation-1"
  envelope           := ⟨.str "agent", .str "memory_agent", .null, .bool true, [], none⟩

def sampleState : State where
  db    := ⟨.empty, .empty, .empty, .empty, ["session"]⟩
  clock := 0

def moment (now : Runs.Time) : Clock := ⟨now, "", now⟩

-- The texts of the sample are in lower case.
def sampleLower (text : String) : String := text

-- The delivery is claimed and its action is started.
def sampleStart : List Call :=
  [.enqueue sampleSource [sampleEntry] 0, .claim "delivery" "worker" 30 "" (moment 1),
    .admitted "delivery" "worker" (moment 2), .executing "delivery" "worker" true "key" (moment 3)]

def sampleExecuting : State :=
  sampleState.performAll sampleLower sampleStart

-- The action needs an approval, and its worker ends.
def sampleReview : Finished where
  ownerId   := "worker"
  status    := "review_required"
  error     := none
  item      := (sampleExecuting.db.deliveries.get? "delivery").getD (sampleEntry.row sampleSource 0)
  runStatus := none
  receipt   := none

-- After the approval, the delivery is admitted again, and the Engine stops.
def sampleResume : List Call :=
  [.finished sampleReview (moment 4), .admitted "delivery" "worker" (moment 5), .reconcileDeliveries 40000 100]

theorem sampleStart_onTime : onTime sampleState.clock sampleStart := by decide

theorem sampleResume_onTime : onTime sampleExecuting.clock sampleResume := by decide +kernel

-- A delivery that was executing is pending again.
theorem executing_pending :
    ¬∀ (lower : String → String) (s₀ s u : State) (es es' : List Event) (id : String), (system lower).init s₀ →
      (system lower).Run s₀ es s → (system lower).Run s es' u → phaseOf s id = some .executing →
      phaseOf u id ≠ some .pending ∧ phaseOf u id ≠ some .claimed := by
  intro h
  have r : (system sampleLower).Run sampleState _ sampleExecuting :=
    (performAll_run (fun _ _ => True) sampleStart_onTime fun _ _ _ _ => trivial).of_restrict
  have r' : (system sampleLower).Run sampleExecuting _ (sampleExecuting.performAll sampleLower sampleResume) :=
    (performAll_run (fun _ _ => True) sampleResume_onTime fun _ _ _ _ => trivial).of_restrict
  have hp := (h sampleLower _ _ _ _ _ "delivery" ⟨rfl, rfl⟩ r r' (by decide +kernel)).left
  exact hp (by decide +kernel)

theorem runs_action_once_recovered :
    phaseOf (sampleExecuting.performAll sampleLower [.reconcileDeliveries 40000 100]) "delivery" ≠ some .pending := by
  have hok : ∀ c ∈ sampleStart, ∀ s b, Lawful s ⟨c, b⟩ :=
    List.forall_iff_forall_mem.mp ⟨fun _ _ => ⟨id, id⟩, fun _ _ => ⟨id, id⟩, fun _ _ => ⟨id, id⟩, fun _ _ => ⟨id, id⟩⟩
  have r : ((system sampleLower).restrict Lawful).Run sampleState _ sampleExecuting :=
    performAll_run Lawful sampleStart_onTime hok
  have r' : ((system sampleLower).restrict Lawful).Run sampleExecuting _
      (sampleExecuting.performAll sampleLower [.reconcileDeliveries 40000 100]) :=
    performAll_run Lawful (by decide +kernel) (List.forall_iff_forall_mem.mp fun _ _ => ⟨id, id⟩)
  exact ((runs_action_once ⟨rfl, rfl⟩ r r' "delivery").left (by decide +kernel)).left

end Sample
end Automation
