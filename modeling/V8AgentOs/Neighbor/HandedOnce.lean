import V8AgentOs.Neighbor.WakeSteps

-- What the wake queue hands out, and how often
namespace Neighbor.WakeQueue

open Rows (Kept)

variable {s t u : State} {e e' : Event} {es es' : List Event} {i j : Item} {id now worker later : String}
  {w w' w'' : Work}

-- Every late enough claim may hand out the item, and hands out none that is younger.
def Pending (queue : Queue) (i : Item) : Prop :=
  ∃ time, ∀ now, time ≤ now → i.claimable now ∧ ∃ next, nextItem queue now = some next ∧ next.createdAt ≤ i.createdAt

def Finished (a : Assignment) : Prop :=
  a.status ∈ Database.finalStatuses

-- Assignments that have a result stay as they are, and a task changes only when all its assignments are finished.
structure Careful (w w' : Work) : Prop where
  assignments : Kept (fun a a' => a.resultId ≠ none → a' = a) w.assignments w'.assignments
  tasks       : Kept (fun t t' => t' = t ∨ ∀ a ∈ w'.assignments, a.taskId = t.id → Finished a) w.tasks w'.tasks

-- Besides, assignments that are finished stay so.
structure Sweeps (w w' : Work) : Prop where
  assignments : Kept (fun a a' => (a.resultId ≠ none → a' = a) ∧ a'.taskId = a.taskId ∧ (Finished a → Finished a'))
    w.assignments w'.assignments
  tasks       : Kept (fun t t' => t'.id = t.id ∧ (t' = t ∨ ∀ a ∈ w'.assignments, a.taskId = t.id → Finished a))
    w.tasks w'.tasks

theorem Sweeps.careful (h : Sweeps w w') : Careful w w' :=
  ⟨h.assignments.imp fun _ _ h => h.left, h.tasks.imp fun _ _ h => h.right⟩

theorem Sweeps.refl : Sweeps w w :=
  ⟨.refl (fun _ => ⟨fun _ => rfl, rfl, fun h => h⟩) _, .refl (fun _ => ⟨rfl, .inl rfl⟩) _⟩

theorem Sweeps.trans (h : Sweeps w w') (h' : Sweeps w' w'') : Sweeps w w'' := by
  constructor
  case assignments =>
    apply Kept.trans _ h.assignments h'.assignments
    intro a b c hab hbc
    refine ⟨fun hr => ?_, hbc.right.left.trans hab.right.left, fun hf => hbc.right.right (hab.right.right hf)⟩
    have hb := hab.left hr
    rw [hb] at hbc
    exact hbc.left hr
  case tasks =>
    -- The assignments that were finished after the first part are so after the second.
    have hfinished : ∀ taskId, (∀ a ∈ w'.assignments, a.taskId = taskId → Finished a) →
        ∀ a ∈ w''.assignments, a.taskId = taskId → Finished a := by
      intro taskId hall c hc htask
      obtain ⟨b, hb, hbc⟩ := h'.assignments.mem_left hc
      exact hbc.right.right (hall b hb (hbc.right.left.symm.trans htask))
    have htasks : Kept (fun t t' => t'.id = t.id ∧ (t' = t ∨ ∀ a ∈ w''.assignments, a.taskId = t.id → Finished a))
        w.tasks w'.tasks := h.tasks.imp fun t t' ht => ⟨ht.left, ht.right.imp_right (hfinished t.id)⟩
    apply Kept.trans _ htasks h'.tasks
    intro a b c hab hbc
    refine ⟨hbc.left.trans hab.left, ?_⟩
    cases hbc.right
    case inl hc => exact hc ▸ hab.right
    case inr hc => exact .inr (hab.left ▸ hc)

theorem sweeps_interruptAssignment : Sweeps w (w.interruptAssignment id now) := by
  refine ⟨.map fun a _ => ?_, .refl (fun _ => ⟨rfl, .inl rfl⟩) _⟩
  split
  case isTrue hn =>
    refine ⟨fun hr => absurd hn.right hr, rfl, fun _ => ?_⟩
    show "failed" ∈ Database.finalStatuses
    decide
  case isFalse => exact ⟨fun _ => rfl, rfl, fun h => h⟩

theorem finished_of_finished (h : w.finished id) : ∀ a ∈ w.assignments, a.taskId = id → Finished a := by
  intro a ha hid
  have hall := (Bool.and_eq_true_iff.mp h).right
  have hmem : a.status ∈ w.statuses id :=
    List.mem_map.mpr ⟨a, List.mem_filter.mpr ⟨ha, decide_eq_true hid⟩, rfl⟩
  exact List.contains_iff_mem.mp (List.all_eq_true.mp hall _ hmem)

theorem sweeps_finishTask : Sweeps w (w.finishTask id now) := by
  unfold Work.finishTask
  split
  case isFalse => exact .refl
  case isTrue hf =>
    refine ⟨.refl (fun _ => ⟨fun _ => rfl, rfl, fun h => h⟩) _, .map fun t _ => ?_⟩
    split
    case isFalse => exact ⟨rfl, .inl rfl⟩
    case isTrue hid =>
      have hall : ∀ a ∈ w.assignments, a.taskId = t.id → Finished a := hid ▸ finished_of_finished hf
      exact ⟨rfl, .inr hall⟩

theorem sweeps_interrupt : Sweeps w (w.interrupt now i) := by
  unfold Work.interrupt
  split
  case isTrue  => exact sweeps_interruptAssignment.trans sweeps_finishTask
  case isFalse => exact .refl

theorem sweeps_sweep {expired : List Item} : Sweeps w (w.sweep now expired) := by
  induction expired generalizing w
  case nil            => exact .refl
  case cons i items hi => exact sweeps_interrupt.trans hi

theorem work_claim : (s.claim worker later now).work = s.work.sweep now (s.queue.rows.filter (·.expired now)) := by
  unfold State.claim
  split
  case h_1 => rfl
  case h_2 => rfl

theorem careful_claim (hs : system.step s e t) (hcall : e.call = .claim worker later) : Careful s.work t.work := by
  obtain ⟨_, _, _, t', hrun, ht⟩ := hs
  rw [hcall] at hrun
  cases hrun
  rw [ht]
  show Careful s.work (s.claim worker later e.now).work
  rw [work_claim]
  exact sweeps_sweep.careful

theorem pending_of_itemOk (hi : s.queue.get? id = some i) (h : ItemOk i) (hs : i.state = .queued ∨ i.state = .retry) :
    Pending s.queue i := by
  refine ⟨i.availableAt.getD "", fun now hnow => ?_⟩
  have hc : i.claimable now := by
    refine claimable_iff.mpr ⟨h.waiting hs, hs, ?_⟩
    cases ha : i.availableAt
    case none      => rfl
    case some time => rw [ha] at hnow; exact decide_eq_true hnow
  exact ⟨hc, nextItem_of_claimable hi hc⟩

-- The item that a claim hands out is held with the lease of the claim.
theorem held_of_handed (hs : system.step s e t) (hcall : e.call = .claim worker later) (hh : e.handed = some id) :
    ∃ i, t.queue.get? id = some i ∧ Held later i := by
  cases hi : s.queue.get? id
  case none => exact absurd hh (made_of_step hs hi).left
  case some i =>
    have hid : i.id = id := Table.key_of_get? hi
    obtain ⟨_, hhanded, _, t', hrun, ht⟩ := hs
    rw [hcall] at hrun hhanded
    cases hrun
    have hhanded : e.handed = (nextItem (s.swept e.now).queue e.now).map (·.id) := hhanded
    rw [hh] at hhanded
    obtain ⟨next, hnext, hnid⟩ := Option.map_eq_some_iff.mp hhanded.symm
    have ⟨hget, hc⟩ := claimable_of_nextItem hnext
    refine ⟨next.lease worker e.now later, ?_, .inl ⟨rfl, rfl⟩⟩
    rw [ht]
    show (s.claim worker later e.now).queue.get? id = _
    simp only [State.claim, hnext]
    rw [get?_leaseItem, ← hnid, hget]
    simp [hc]

-- In a run whose steps are orderly,
-- an item whose lease has expired is not handed out again;
-- between two claims of an item its failure was recorded, and that before the lease of the first one expired;
-- no item is claimed more often than its attempts allow;
-- an item that waits is handed out in time;
-- and the sweep of the claims is careful.
theorem wakes_handed_once (h₀ : system.init t) (r : (system.restrict Orderly).Run t es s) :
    (∀ id i es' u, s.queue.get? id = some i → i.expired s.clock → (system.restrict Orderly).Run s es' u →
      ∀ e ∈ es', e.handed ≠ some id) ∧
    (∀ id es₁ e es₂ e' es₃ worker later, es = es₁ ++ e :: es₂ ++ e' :: es₃ → e.call = .claim worker later →
      e.handed = some id → e'.handed = some id → ∃ f ∈ es₂, f.failed = some id ∧ f.now < later) ∧
    (∀ id i, s.queue.get? id = some i → claims es id ≤ i.maxAttempts) ∧
    (∀ id i, s.queue.get? id = some i → i.state = .queued ∨ i.state = .retry → Pending s.queue i) ∧
    ∀ e u worker later, system.step s e u → e.call = .claim worker later → Careful s.work u.work := by
  refine ⟨?expired, ?between, ?attempts, ?pending, fun e u worker later hs hcall => careful_claim hs hcall⟩
  case expired =>
    intro id i es' u hi hexpired r' e he hh
    have hleased := expired_leased hexpired
    cases hl : i.leaseExpiresAt
    case none => simp [Item.expired, hl] at hexpired
    case some lease =>
      have hlease : lease ≤ s.clock := by simpa [Item.expired, hl, hleased] using hexpired
      obtain ⟨es₁, es₂, hes⟩ := List.append_of_mem he
      obtain ⟨f, hf, _, hnow⟩ := failed_before r' hi (.inl ⟨hleased, hl⟩) hes hh
      have hclock := clock_le r' f (hes ▸ List.mem_append_left _ hf)
      exact absurd (hlease.trans hclock) (not_le.mpr hnow)
  case between =>
    intro id es₁ e es₂ e' es₃ worker later hes hcall hh hh'
    rw [hes, List.append_assoc] at r
    obtain ⟨s₁, _, r⟩ := r.of_append
    cases r
    case trans s₂ hs r =>
      obtain ⟨i, hi, hheld⟩ := held_of_handed hs.right hcall hh
      exact failed_before r hi hheld rfl hh'
  case attempts =>
    intro id i hi
    have hcounted : Counted es s := by
      apply r.of_restrict.from_start
      case h =>
        intro id
        rw [h₀.left]
        rfl
      case hH => exact fun _ _ _ _ h hs => counted_step h hs
    rw [hcounted id, hi]
    exact (items_reachable h₀ r id i hi).attempts
  case pending => exact fun id i hi hs => pending_of_itemOk hi (items_reachable h₀ r id i hi) hs

section Sample

variable {ok : State → Event → Bool} {P : State → Event → Prop} {calls : List (String × Call)}

-- Calls at their times, as long as a condition is met
def perform (ok : State → Event → Bool) (s : State) : List (String × Call) → Option (List Event × State)
  | []                => some ([], s)
  | (now, call) :: cs =>
    let e : Event := ⟨call, now, s.handed now call, s.failed call⟩
    if s.clock ≤ now ∧ ok s e then
      (s.run now call).bind fun t => (perform ok { t with clock := now } cs).map fun r => (e :: r.1, r.2)
    else none

theorem run_of_perform (hok : ∀ s e, ok s e → P s e) (h : perform ok s calls = some (es, t)) :
    (system.restrict P).Run s es t := by
  induction calls generalizing s es
  case nil => cases h; exact .refl
  case cons c cs hi =>
    simp only [perform] at h
    split at h
    case isFalse => cases h
    case isTrue hc =>
      obtain ⟨t', ht', h⟩ := Option.bind_eq_some_iff.mp h
      obtain ⟨r, hr, h⟩ := Option.map_eq_some_iff.mp h
      cases h
      exact .trans ⟨hok _ _ hc.right, hc.left, rfl, rfl, t', ht', rfl⟩ (hi hr)

-- Whether a step is orderly
def prompt (s : State) (e : Event) : Bool :=
  match e.call with
  | .write pid => (s.fails pid).all fun f => (s.queue.get? f.id).all fun i =>
    i.state ≠ .leased || f.existing.exhausted || (i.attemptCount < i.maxAttempts && i.leaseExpiresAt.all (e.now < ·))
  | _          => true

theorem orderly_of_prompt (h : prompt s e) : Orderly s e := by
  intro pid f i hcall hf hi hl he
  simp only [prompt, hcall, hf, hi, Option.all_some, hl, he, ne_eq, not_true_eq_false, decide_false, Bool.or_self,
    Bool.false_or, Bool.and_eq_true, decide_eq_true_eq] at h
  refine ⟨h.left, fun lease hlease => ?_⟩
  rw [Option.mem_def.mp hlease] at h
  exact of_decide_eq_true h.right

def sampleWake : Added where
  id          := "nnwq_1"
  named       := by decide
  linkId      := "link"
  messageId   := "message"
  runId       := "run"
  maxAttempts := 2

def sampleQueue : State where
  queue   := .empty
  work    := ⟨[], []⟩
  fails _ := none
  clock   := "0"

-- The item fails in time, and is handed out again.
def sampleRetried : List (String × Call) :=
  [("0", .add sampleWake), ("1", .claim "worker" "5"), ("2", .read 0 "nnwq_1" "error" "3"), ("2", .write 0),
    ("4", .claim "worker" "9")]

def sampleRun : List Event × State :=
  (perform prompt sampleQueue sampleRetried).getD ([], sampleQueue)

theorem wakes_handed_once_retried : claims sampleRun.1 "nnwq_1" = 2 ∧
    ∃ i, sampleRun.2.queue.get? "nnwq_1" = some i ∧ claims sampleRun.1 "nnwq_1" ≤ i.maxAttempts := by
  have hrun : perform prompt sampleQueue sampleRetried = some (sampleRun.1, sampleRun.2) := rfl
  have r := run_of_perform (fun _ _ h => orderly_of_prompt h) hrun
  have hsome : (sampleRun.2.queue.get? "nnwq_1").isSome := rfl
  obtain ⟨i, hi⟩ := Option.isSome_iff_exists.mp hsome
  have h := wakes_handed_once ⟨rfl, fun _ => rfl⟩ r
  exact ⟨rfl, i, hi, h.right.right.left "nnwq_1" i hi⟩

-- The lease of the item expires, and then its failure is recorded before a claim sweeps it.
def sampleExpired : List (String × Call) :=
  [("0", .add sampleWake), ("1", .claim "worker" "2"), ("3", .crash 1)]

def sampleLate : List (String × Call) :=
  [("3", .read 0 "nnwq_1" "error" "4"), ("3", .write 0), ("5", .claim "worker" "9")]

def sampleAfter : List Event × State :=
  (perform (fun _ _ => true) sampleQueue sampleExpired).getD ([], sampleQueue)

def sampleAgain : List Event × State :=
  (perform (fun _ _ => true) sampleAfter.2 sampleLate).getD ([], sampleQueue)

-- The item is handed out again.
theorem expired_handed_again :
    ¬∀ (t s u : State) (es es' : List Event) (id : String) (i : Item), system.init t → system.Run t es s →
      s.queue.get? id = some i → i.expired s.clock → system.Run s es' u → ∀ e ∈ es', e.handed ≠ some id := by
  intro h
  have hrun : perform (fun _ _ => true) sampleQueue sampleExpired = some (sampleAfter.1, sampleAfter.2) := rfl
  have hagain : perform (fun _ _ => true) sampleAfter.2 sampleLate = some (sampleAgain.1, sampleAgain.2) := rfl
  have r := (run_of_perform (P := fun _ _ => True) (fun _ _ _ => trivial) hrun).of_restrict
  have r' := (run_of_perform (P := fun _ _ => True) (fun _ _ _ => trivial) hagain).of_restrict
  have hitem : (sampleAfter.2.queue.get? "nnwq_1").map (·.expired sampleAfter.2.clock) = some true := rfl
  obtain ⟨i, hi, hexpired⟩ := Option.map_eq_some_iff.mp hitem
  have hnever := h _ _ _ _ _ "nnwq_1" i ⟨rfl, fun _ => rfl⟩ r hi hexpired r'
  have hlast : ∃ e ∈ sampleAgain.1, e.handed = some "nnwq_1" := ⟨_, .tail _ (.tail _ (.head _)), rfl⟩
  obtain ⟨e, he, hh⟩ := hlast
  exact hnever e he hh

end Sample
end Neighbor.WakeQueue
