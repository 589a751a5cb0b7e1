import V8AgentOs.Relay.Valid

-- What becomes of the items of the outbox
namespace Relay

open Automation (Clock)
open Runs (Time)

variable {s : State} {i : OutboxItem} {action : Action}

-- Every late enough claim may hand out the item, and hands out none that is younger.
def Pending (outbox : Outbox) (i : OutboxItem) : Prop :=
  ∃ time, ∀ now, time ≤ now → i.claimable now ∧
    ∃ next, nextItem outbox now = some next ∧ next.createdAt ≤ i.createdAt

-- A worker that is still there is about to report the item, or to add its dead letter.
def InHand (s : State) (i : OutboxItem) : Prop :=
  Holds s.workers i ∨ ∃ pid, Buries s.workers pid i.id

-- The item is accounted for.
structure Accounted (s : State) (i : OutboxItem) : Prop where
  kept      : i.state = .published ∨ (i.state = .deadLetter ∧ lettersOf s.deadLetters i.id = 1) ∨ Pending s.outbox i ∨
    InHand s i
  published : i.state = .published → lettersOf s.deadLetters i.id = 0

theorem pending_of_claimable {id : String} (hi : s.outbox.get? id = some i)
    (h : ∃ time, ∀ now, time ≤ now → i.claimable now) : Pending s.outbox i := by
  obtain ⟨time, h⟩ := h
  exact ⟨time, fun now hnow => ⟨h now hnow, nextItem_of_claimable hi (h now hnow)⟩⟩

theorem accounted_of_itemOk {id : String} (hi : s.outbox.get? id = some i) (h : ItemOk s.deadLetters s.workers i) : Accounted s i := by
  refine ⟨?_, fun hs => h.unburied (by simp [hs])⟩
  cases hs : i.state
  case queued     => exact .inr (.inr (.inl (pending_of_claimable hi (claimable_of_available (h.waiting (.inl hs)) (.inl hs)))))
  case retry      => exact .inr (.inr (.inl (pending_of_claimable hi (claimable_of_available (h.waiting (.inr hs)) (.inr hs)))))
  case published  => exact .inl rfl
  case leased =>
    have ⟨hlease, hleft⟩ := h.leased hs
    cases hleft
    case inl hleft => exact .inr (.inr (.inl (pending_of_claimable hi (claimable_of_expired hleft hs hlease))))
    case inr hheld => exact .inr (.inr (.inr (.inl hheld)))
  case deadLetter =>
    cases h.buried hs
    case inl hone => exact .inr (.inl ⟨rfl, hone.left⟩)
    case inr hnone =>
      obtain ⟨_, pid, hb, _⟩ := hnone
      exact .inr (.inr (.inr (.inr ⟨pid, hb⟩)))

-- A report of a worker whose lease was taken over by a later claim: it leaves the item as it is.
def Fenced (s : State) : Prop :=
  (∀ pid item i relayMessageId now t, s.workers pid = some (.publishing item) → s.outbox.get? item.id = some i →
    i.attemptCount ≠ item.attemptCount → Orderly s (.complete pid relayMessageId now) →
    s.step (.complete pid relayMessageId now) = some t → t.outbox.get? item.id = some i) ∧
  ∀ pid item existing error now availableAt i t, s.workers pid = some (.writing item existing error now availableAt) →
    s.outbox.get? item.id = some i → i.attemptCount ≠ item.attemptCount → Orderly s (.write pid) →
    s.step (.write pid) = some t → t.outbox.get? item.id = some i

theorem fenced (s : State) : Fenced s := by
  constructor
  case left =>
    intro pid item i relayMessageId now t hw hi hne hok hs
    have hl : i.state ≠ .leased := fun hl => hne (hok item i hw hi hl)
    simp only [State.step, hw, Option.bind_some, State.complete, Option.some.injEq] at hs
    subst hs
    show (completeItem s.outbox item.id relayMessageId now).get? item.id = some i
    rw [get?_completeItem, hi]
    simp [hl]
  case right =>
    intro pid item existing error now availableAt i t hw hi hne hok hs
    have hl : i.state ≠ .leased := fun hl => hne ((hok item existing error now availableAt i hw hi).left hl)
    simp only [State.step, hw, Option.bind_some, State.write, Option.some.injEq] at hs
    subst hs
    show (failItem s.outbox item.id existing.exhausted error now availableAt).get? item.id = some i
    rw [get?_failItem, hi]
    simp [hl]

-- In a run whose steps are orderly, every item is accounted for, and late reports change nothing.
theorem outbox_accounted (h : (system.restrict Orderly).Reachable s) :
    (∀ id i, s.outbox.get? id = some i → Accounted s i) ∧ Fenced s :=
  ⟨fun id i hi => accounted_of_itemOk hi ((valid_reachable h).items id i hi), fenced s⟩

section Sample

def sampleItem : Enqueued where
  id           := "nrout_1"
  named        := by decide
  targetPeerId := "peer"
  maxAttempts  := 1

def sampleTime (now : Time) : Clock := ⟨now, "", now⟩

-- Whether a step is orderly, of those that lose no worker
def prompt (s : State) : Action → Bool
  | .complete pid _ _ => match s.workers pid with
    | some (.publishing item) =>
      (s.outbox.get? item.id).all fun i => i.state ≠ .leased || i.attemptCount = item.attemptCount
    | _                       => true
  | .write pid        => match s.workers pid with
    | some (.writing item existing _ _ _) => (s.outbox.get? item.id).all fun i =>
      (i.state ≠ .leased || i.attemptCount = item.attemptCount) && (!existing.exhausted || i.state = .leased)
    | _                                   => true
  | .crash _          => false
  | _                 => true

theorem orderly_of_prompt (h : prompt s action) : Orderly s action := by
  cases action
  case complete pid relayMessageId now =>
    intro item i hw hi hl
    simpa [prompt, hw, hi, hl] using h
  case write pid =>
    intro item existing error now availableAt i hw hi
    simp only [prompt, hw, hi, Option.all_some, Bool.and_eq_true, Bool.or_eq_true, decide_eq_true_eq] at h
    refine ⟨fun hl => h.left.resolve_left (fun hn => hn hl), fun he => ?_⟩
    simpa [he] using h.right
  case crash => cases h
  all_goals trivial

def promptStep (s : State) (action : Action) : Option State :=
  if prompt s action then s.step action else none

theorem reachable_prompt {actions : List Action} (h : actions.foldlM promptStep initial = some s) :
    (system.restrict Orderly).Reachable s := by
  refine Transition.Reachable.foldlM ?_ (.init rfl) h
  intro s action t hs
  unfold promptStep at hs
  split at hs
  case isTrue hp => exact ⟨orderly_of_prompt hp, hs⟩
  case isFalse   => cases hs

-- The only attempt to publish the item fails.
def sampleFailure : List Action :=
  [.add sampleItem 0, .claim 0 "worker" 180 (sampleTime 1), .take 0, .raise 0 "relay", .read 0 30 (sampleTime 2),
    .write 0, .bury 0 3]

def sampleBuried : State :=
  (sampleFailure.foldlM promptStep initial).getD initial

theorem outbox_accounted_buried : ∃ i, sampleBuried.outbox.get? "nrout_1" = some i ∧ Accounted sampleBuried i := by
  have hrun : sampleFailure.foldlM promptStep initial = some sampleBuried := rfl
  have hsome : (sampleBuried.outbox.get? "nrout_1").isSome := rfl
  obtain ⟨i, hi⟩ := Option.isSome_iff_exists.mp hsome
  exact ⟨i, hi, (outbox_accounted (reachable_prompt hrun)).left "nrout_1" i hi⟩

-- The worker is lost with the only attempt in its hands.
def sampleCrash : List Action :=
  [.add sampleItem 0, .claim 0 "worker" 180 (sampleTime 1), .take 0, .crash 0]

def sampleLost : State :=
  (sampleCrash.foldlM State.step initial).getD initial

-- The item is leased for ever.
theorem lost_item_stuck : ¬∀ s, system.Reachable s → ∀ id i, s.outbox.get? id = some i → Accounted s i := by
  intro h
  have hrun : sampleCrash.foldlM State.step initial = some sampleLost := rfl
  have hreachable : system.Reachable sampleLost := Transition.Reachable.foldlM (fun _ _ _ h => h) (.init rfl) hrun
  have hworkers : ∀ pid, sampleLost.workers pid = none := by
    intro pid
    match pid with
    | 0     => rfl
    | _ + 1 => rfl
  have hitem : (sampleLost.outbox.get? "nrout_1").map (fun i => (i.state, i.attemptCount, i.maxAttempts)) =
      some (.leased, 1, 1) := rfl
  obtain ⟨i, hi, hcolumns⟩ := Option.map_eq_some_iff.mp hitem
  have ⟨hs, hattempts, hmax⟩ : i.state = .leased ∧ i.attemptCount = 1 ∧ i.maxAttempts = 1 := by simpa using hcolumns
  rcases (h sampleLost hreachable _ i hi).kept with hp | ⟨hd, _⟩ | ⟨time, hc⟩ | ⟨pid, w, hw, _⟩ | ⟨pid, w, hw, _⟩
  case inl => rw [hs] at hp; cases hp
  case inr.inl => rw [hs] at hd; cases hd
  case inr.inr.inl =>
    have hleft := attempts_of_claimable (hc time le_rfl).left
    omega
  case inr.inr.inr.inl => rw [hworkers pid] at hw; cases hw
  case inr.inr.inr.inr => rw [hworkers pid] at hw; cases hw

end Sample
end Relay
