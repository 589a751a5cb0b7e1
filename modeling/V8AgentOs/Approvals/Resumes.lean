import V8AgentOs.Approvals.Invariant

-- The delivery of decisions, over every run.
namespace Approvals

open Python (Dict Json Text strip)
open Runs (Time RunRecord RunTable Commanded controlRefusal stoppingCommands)

variable {text : Text} {s₀ s t u : State} {e : Event} {es : List Event} {w : World} {a b : Approval}
  {d d' : Delivery} {id : String} {m : Move}

section Deliveries

-- A delivery that was replaced or blocked
def Delivery.retired (d : Delivery) : Prop :=
  d.phase = .superseded ∨ d.phase = .blocked

-- What steps may make of a delivery
structure Delivery.Next (d d' : Delivery) : Prop where
  attempt : d.attempt ≤ d'.attempt
  start   : d'.attempt = d.attempt → d'.phase = .scheduled → d.phase = .scheduled
  retired : d.retired → d'.retired

theorem Delivery.Next.refl : d.Next d :=
  ⟨le_refl _, fun _ h => h, id⟩

theorem Delivery.Next.trans {d'' : Delivery} (h : d.Next d') (h' : d'.Next d'') : d.Next d'' where
  attempt := h.attempt.trans h'.attempt
  start heq hph := by
    have := h.attempt
    have := h'.attempt
    exact h.start (by omega) (h'.start (by omega) hph)
  retired hr := h'.retired (h.retired hr)

theorem matches_iff : m.matches d ↔ d.phase = m.expected ∧ d.generation = m.generation ∧ d.attempt = m.attempt := by
  simp [Move.matches, and_assoc]

-- A worker moves what is under way, and does not schedule it.
theorem lawful_phase (h : m.lawful) : (m.expected = .scheduled ∨ m.expected = .executing) ∧ m.phase ≠ .scheduled ∧
    (m.phase = .executing → m.expected = .scheduled) := by
  simp only [Move.lawful, Bool.or_eq_true, Bool.and_eq_true, decide_eq_true_eq] at h
  cases h
  case inl h =>
    refine ⟨.inl h.left, ?_, fun _ => h.left⟩
    intro hph
    simp [hph] at h
  case inr h =>
    refine ⟨.inr h.left, ?_, ?_⟩
    all_goals
      intro hph
      simp [hph] at h

theorem claimable_of_refusal {now : Time} {restart : Bool} {db : Database}
    (h : claimRefusal now restart db a d = none) : d.phase = .pending ∨ d.phase = .scheduled := by
  have h := (Option.or_eq_none_iff.mp h).left
  by_contra hn
  have hn := not_or.mp hn
  simp [because, claimable, hn.left, hn.right] at h

theorem Becomes.next (h : Becomes text s e a b) (hs : a.Sound) (hd : a.delivery = some d) :
    ∃ d', b.delivery = some d' ∧ d.Next d' := by
  have happroved := (hs d hd).left
  cases h
  case same => exact ⟨d, hd, .refl⟩
  case decided hp _ _ _ _ _ => rw [happroved] at hp; cases hp
  case cancelled hp         => rw [happroved] at hp; cases hp
  case superseded d₁ by' hd₁ _ _ =>
    cases hd.symm.trans hd₁
    exact ⟨_, rfl, le_refl _, nofun, fun _ => .inl rfl⟩
  case claimed d₁ w restart _ hd₁ _ hf =>
    cases hd.symm.trans hd₁
    refine ⟨_, rfl, Nat.le_succ _, fun heq => ?_, fun hr => ?_⟩
    · exact absurd heq (Nat.succ_ne_self _)
    · cases claimable_of_refusal hf
      case inl hph => simp [Delivery.retired, hph] at hr
      case inr hph => simp [Delivery.retired, hph] at hr
  case moved d₁ w m _ _ hl hd₁ _ hm _ =>
    cases hd.symm.trans hd₁
    have ⟨hexpected, hphase, _⟩ := lawful_phase hl
    have hph := (matches_iff.mp hm).left
    refine ⟨_, rfl, le_refl _, fun _ hsch => absurd hsch hphase, fun hr => ?_⟩
    rw [Delivery.retired, hph] at hr
    cases hexpected
    case inl he => simp [he] at hr
    case inr he => simp [he] at hr
  case fenced d₁ now hd₁ hph =>
    cases hd.symm.trans hd₁
    exact ⟨_, rfl, le_refl _, nofun, fun _ => .inr rfl⟩

theorem next_run (hi : Inv s) (r : (system text).Run s es t) (ha : s.approvals.get? id = some a)
    (hd : a.delivery = some d) : ∃ b d', t.approvals.get? id = some b ∧ b.delivery = some d' ∧ d.Next d' := by
  induction r generalizing a d
  case refl => exact ⟨a, d, ha, hd, .refl⟩
  case trans hs _ ih =>
    have ⟨b, hb, hbec⟩ := (moves_step hs).kept id a ha
    have ⟨d₁, hd₁, hn⟩ := hbec.next (hi.sound id a ha) hd
    have ⟨c, d₂, hc, hd₂, hn'⟩ := ih (inv_step hi hs) hb hd₁
    exact ⟨c, d₂, hc, hd₂, hn.trans hn'⟩

end Deliveries

section Starts

-- The approval and the attempt that an event starts to execute
def Event.starts : Event → List (String × ℕ)
  | .call (.transition m) _ .done => if m.phase = .executing then [(m.approvalId, m.attempt)] else []
  | _                             => []

-- The attempt is over, or it has started.
def Spent (s : State) (k : String × ℕ) : Prop :=
  ∃ a d, s.approvals.get? k.1 = some a ∧ a.delivery = some d ∧ k.2 ≤ d.attempt ∧
    (d.attempt = k.2 → d.phase ≠ .scheduled)

theorem get?_setDelivery {approvals : Table Approval.id} (ha : approvals.get? id = some a) :
    (setDelivery approvals id d).get? id = some { a with delivery := some d } := by
  simp [setDelivery, Table.get?_update, ha, Table.key_of_get? ha]

theorem starts_step {k : String × ℕ} (hs : (system text).step s e t) (hk : k ∈ e.starts) :
    ∃ a d b d', s.approvals.get? k.1 = some a ∧ a.delivery = some d ∧ d.phase = .scheduled ∧ d.attempt = k.2 ∧
      t.approvals.get? k.1 = some b ∧ b.delivery = some d' ∧ d'.attempt = k.2 ∧ d'.phase = .executing := by
  cases hs
  case run => cases hk
  case call c w _ _ hmeets =>
    cases c
    case add              => cases hk
    case createSpecReview => cases hk
    case resolve          => cases hk
    case claim            => cases hk
    case recover          => cases hk
    case transition m =>
      cases hb : (transitionApprovalResume w m s.db).1
      case false =>
        simp only [Call.run, hb] at hk
        cases hk
      case true =>
        obtain ⟨a, d, ha, _, hd, hm, _, hw⟩ := moved_of_transition hb
        simp only [Call.run, hb, Event.starts, Answer.ofBool, if_true] at hk
        split at hk
        case isFalse => cases hk
        case isTrue hph =>
          cases List.mem_singleton.mp hk
          obtain ⟨hphase, _, hattempt⟩ := matches_iff.mp hm
          have hsch := (lawful_phase hmeets).right.right hph
          refine ⟨a, d, { a with delivery := some (d.moved w.now m) }, d.moved w.now m, ha, hd, hphase.trans hsch,
            hattempt, ?_, rfl, hattempt, hph⟩
          simp only [Call.run, hw]
          exact get?_setDelivery ha

theorem starts_nodup (hi : Inv s) (r : (system text).Run s es t) : (es.flatMap Event.starts).Nodup := by
  apply r.nodup_emitted (I := Inv) (S := Spent)
  case hI => exact fun _ _ _ => inv_step
  case h  => exact hi
  case nodup =>
    intro s e t _ _
    unfold Event.starts
    split
    case h_2 => exact .nil
    case h_1 =>
      split
      case isTrue  => exact List.nodup_singleton _
      case isFalse => exact .nil
  case fresh =>
    intro s e t _ hs k hk hsp
    have ⟨a, d, _, _, ha, hd, hph, hat, _⟩ := starts_step hs hk
    have ⟨a', d', ha', hd', _, hnot⟩ := hsp
    cases ha.symm.trans ha'
    cases hd.symm.trans hd'
    exact hnot hat hph
  case spends =>
    intro s e t _ hs k hk
    have ⟨_, _, b, d', _, _, _, _, hb, hd', hat, hph⟩ := starts_step hs hk
    exact ⟨b, d', hb, hd', hat.ge, fun _ hsch => by rw [hph] at hsch; cases hsch⟩
  case mono =>
    intro s e t hi hs k hsp
    have ⟨a, d, ha, hd, hle, hnot⟩ := hsp
    have ⟨b, hb, hbec⟩ := (moves_step hs).kept _ a ha
    have ⟨d', hd', hn⟩ := hbec.next (hi.sound _ a ha) hd
    refine ⟨b, d', hb, hd', hle.trans hn.attempt, fun heq hsch => ?_⟩
    have := hn.attempt
    exact hnot (by omega) (hn.start (by omega) hsch)

end Starts

section Fencing

theorem claim_step {restart : Bool} (hs : (system text).step s (.call (.claim id restart) w (.claimed d')) t) :
    ∃ a d b, s.approvals.get? id = some a ∧ a.delivery = some d ∧ d'.attempt = d.attempt + 1 ∧
      t.approvals.get? id = some b ∧ b.delivery = some d' := by
  generalize he : Event.call (.claim id restart) w (.claimed d') = e at hs
  cases hs
  case run => cases he
  case call c w' _ _ _ =>
    injection he with hc hw hanswer
    subst hc hw
    cases hd : (claimApprovalResume w id restart s.db).1
    case none =>
      simp only [Call.run, hd] at hanswer
      cases hanswer
    case some d₁ =>
      simp only [Call.run, hd] at hanswer
      injection hanswer with hdd
      subst hdd
      obtain ⟨a, d, ha, _, hdel, _, hd', hw⟩ := claimed_of_claim hd
      refine ⟨a, d, { a with delivery := some d' }, ha, hdel, by rw [hd']; rfl, ?_, rfl⟩
      simp only [Call.run, hw, ← hd']
      exact get?_setDelivery ha

-- A move with an attempt that is over changes nothing.
theorem stale_move (ha : s.approvals.get? m.approvalId = some a) (hd : a.delivery = some d)
    (hlt : m.attempt < d.attempt) : transitionApprovalResume w m s.db = (false, s.db) := by
  have hb : (transitionApprovalResume w m s.db).1 = false := by
    cases hb : (transitionApprovalResume w m s.db).1
    case false => rfl
    case true =>
      obtain ⟨a', d₁, ha', _, hd₁, hm, _⟩ := moved_of_transition hb
      cases ha.symm.trans ha'
      cases hd.symm.trans hd₁
      have := (matches_iff.mp hm).right.right
      omega
  exact Prod.ext hb (unchanged_of_transition hb)

theorem fenced_run {es₁ es₂ es₃ : List Event} {r₁ r₂ : Bool} {w₁ w₂ : World} {d₁ d₂ : Delivery} (hi : Inv s₀)
    (r : (system text).Run s₀
      ((es₁ ++ .call (.claim id r₁) w₁ (.claimed d₁) :: es₂) ++ .call (.claim id r₂) w₂ (.claimed d₂) :: es₃) s)
    (hm : m.approvalId = id) (hat : m.attempt = d₁.attempt) : transitionApprovalResume w m s.db = (false, s.db) := by
  have ⟨u, ru, r⟩ := r.of_append
  have ⟨p, rp, ru'⟩ := ru.of_append
  cases ru'
  case trans q hpq rq =>
    cases r
    case trans v huv rv =>
      have hip := inv_run hi rp
      have hiu := inv_run hi ru
      have ⟨_, _, b₁, _, _, _, hb₁, hd₁⟩ := claim_step hpq
      have ⟨a, d, ha, hd, hn⟩ := next_run (inv_step hip hpq) rq hb₁ hd₁
      have ⟨a', d', b₂, ha', hd', heq, hb₂, hd₂⟩ := claim_step huv
      cases ha.symm.trans ha'
      cases hd.symm.trans hd'
      have ⟨b, d₃, hb, hd₃, hn'⟩ := next_run (inv_step hiu huv) rv hb₂ hd₂
      have := hn.attempt
      have := hn'.attempt
      exact stale_move (hm ▸ hb) hd₃ (by omega)

end Fencing

section Execution

-- What the execution of an approval needs
structure Ready (s : State) (a : Approval) (row : RunRecord) : Prop where
  run     : s.base.runs.get? a.runId = some row
  session : row.sessionId = a.sessionId
  running : row.status = "running"
  signal  : ¬Commanded stoppingCommands row.metadata
  scope   : scopeChanged a.request row.metadata = false

theorem because_none {p : Bool} {reason : String} (h : because p reason = none) : p = false := by
  cases p
  case false => rfl
  case true  => cases h

theorem ready_of_refusal (h : readyRefusal a (s.db.runOf a) = none) : ∃ row, Ready s a row := by
  cases hr : s.db.runOf a
  case none => rw [hr] at h; cases h
  case some row =>
    rw [hr] at h
    have ⟨hrow, hsession⟩ := Option.filter_eq_some_iff.mp hr
    have ⟨hrunning, h⟩ := Option.or_eq_none_iff.mp h
    have ⟨hsignal, hscope⟩ := Option.or_eq_none_iff.mp h
    refine ⟨row, hrow, of_decide_eq_true hsession, ?_, Runs.not_commanded hsignal, because_none hscope⟩
    simpa using because_none hrunning

theorem executing_step (hs : (system text).step s e t) (ha : s.approvals.get? id = some a)
    (hb : t.approvals.get? id = some b) (hx : b.executing) (hn : a.executing = false) : ∃ row, Ready s a row := by
  have ⟨b', hb', hbec⟩ := (moves_step hs).kept id a ha
  cases hb.symm.trans hb'
  cases hbec
  case same => rw [hx] at hn; cases hn
  case cancelled => rw [show a.executing = true from hx] at hn; cases hn
  case superseded => cases hx
  case claimed    => cases hx
  case fenced     => cases hx
  case moved d w m _ _ _ _ _ _ hready =>
    exact ready_of_refusal (hready (of_decide_eq_true hx))
  case decided d w row resume _ _ hp _ _ _ hres _ =>
    have hx : (resume.or a.delivery).any (·.phase = .executing) := hx
    rw [hres] at hx
    split at hx
    case isTrue  => cases hx
    case isFalse =>
      rw [show a.executing = true from hx] at hn
      cases hn

-- A delivery that is not over
def Delivery.undelivered (d : Delivery) : Prop :=
  d.phase = .pending ∨ d.phase = .scheduled

theorem claimable_later {row : RunRecord} (hi : Inv s) (ha : s.approvals.get? id = some a)
    (hd : a.delivery = some d) (hu : d.undelivered) (hrun : s.base.runs.get? a.runId = some row)
    (hrunning : row.status = "running")
    (hsignal : controlRefusal stoppingCommands "run_not_ready_after_approval" row.metadata = none)
    (hscope : scopeChanged a.request row.metadata = false)
    (hpending : s.approvals.any (·.pendingFor a.runId) = false) :
    (∃ i b, s.approvals.get? i = some b ∧ b.runId = a.runId ∧ b.underway) ∨
      ∃ t₀, ∀ w : World, t₀ ≤ w.now → (claimApprovalResume w id false s.db).1.isSome := by
  cases hu
  case inr hph =>
    left
    exact ⟨id, a, ha, rfl, by simp [Approval.underway, hd, Delivery.underway, hph]⟩
  case inl hph =>
    cases hres : reserved a s.approvals
    case true =>
      left
      obtain ⟨b, hb, hp⟩ := List.any_eq_true.mp hres
      simp only [Bool.and_eq_true, decide_eq_true_eq] at hp
      exact ⟨b.id, b, Table.get?_of_mem hb, hp.left.right, hp.right⟩
    case false =>
      right
      refine ⟨d.retryAfter.getD 0, fun w hw => ?_⟩
      obtain ⟨happroved, hgen⟩ := hi.sound id a ha d hd
      have hrunOf : s.db.runOf a = some row := by
        simp [Database.runOf, hrun, Option.filter, hi.session id a row ha hrun]
      have hretry : d.retryAfter.any (w.now < ·) = false := by
        cases hra : d.retryAfter
        case none => rfl
        case some t =>
          rw [hra] at hw
          simpa using hw
      have hf : claimRefusal w.now false s.db a d = none := by
        simp [claimRefusal, claimable, hph, hgen, readyRefusal, hrunOf, hrunning, hsignal, hscope, hpending, hres,
          hretry, because]
      simp [claimApprovalResume, ha, Option.filter, happroved, hd, hf]

end Execution

-- In every run: one approval of a run is being delivered at most, an attempt starts to execute at most once, a
-- claim makes the moves of the one before it void, a replaced or blocked delivery is never executed, what starts to
-- execute is ready, and an undelivered approval of a run that is ready can be claimed from some time on, unless an
-- approval of the run is being delivered.
theorem resume_delivery (h₀ : (system text).init s₀) (r : (system text).Run s₀ es s) :
    (∀ i j a b, s.approvals.get? i = some a → s.approvals.get? j = some b → a.runId = b.runId → a.underway →
      b.underway → i = j) ∧
    (es.flatMap Event.starts).Nodup ∧
    (∀ es₁ es₂ es₃ id r₁ r₂ w₁ w₂ d₁ d₂,
      es = (es₁ ++ .call (.claim id r₁) w₁ (.claimed d₁) :: es₂) ++ .call (.claim id r₂) w₂ (.claimed d₂) :: es₃ →
      ∀ w m, m.approvalId = id → m.attempt = d₁.attempt → transitionApprovalResume w m s.db = (false, s.db)) ∧
    (∀ es' t id a b d, (system text).Run s es' t → s.approvals.get? id = some a → a.delivery = some d → d.retired →
      t.approvals.get? id = some b → b.executing = false) ∧
    (∀ e t id a b, (system text).step s e t → s.approvals.get? id = some a → t.approvals.get? id = some b →
      a.executing = false → b.executing → ∃ row, Ready s a row) ∧
    ∀ id a d row, s.approvals.get? id = some a → a.delivery = some d → d.undelivered →
      s.base.runs.get? a.runId = some row → row.status = "running" →
      controlRefusal stoppingCommands "run_not_ready_after_approval" row.metadata = none →
      scopeChanged a.request row.metadata = false → s.approvals.any (·.pendingFor a.runId) = false →
      (∃ i b, s.approvals.get? i = some b ∧ b.runId = a.runId ∧ b.underway) ∨
        ∃ t₀, ∀ w : World, t₀ ≤ w.now → (claimApprovalResume w id false s.db).1.isSome := by
  have hi₀ := inv_init h₀
  have hi := inv_run hi₀ r
  refine ⟨hi.single, starts_nodup hi₀ r, ?_, ?_, ?_, ?_⟩
  · intro es₁ es₂ es₃ id r₁ r₂ w₁ w₂ d₁ d₂ hes w m hm hat
    exact fenced_run hi₀ (hes ▸ r) hm hat
  · intro es' t id a b d r' ha hd hr hb
    have ⟨b', d', hb', hd', hn⟩ := next_run hi r' ha hd
    cases hb.symm.trans hb'
    cases hn.retired hr
    case inl hph => simp [Approval.executing, hd', hph]
    case inr hph => simp [Approval.executing, hd', hph]
  · exact fun e t id a b hs ha hb hn hx => executing_step hs ha hb hx hn
  · exact fun id a d row ha hd hu hrun hrunning hsignal hscope hpending =>
      claimable_later hi ha hd hu hrun hrunning hsignal hscope hpending

section Sample

-- A worker claims the approval and starts what was approved.
def sampleMove : Move where
  approvalId := "approval"
  runId      := "run"
  generation := "generation"
  attempt    := 1
  expected   := .scheduled
  phase      := .executing

def sampleClaimed : State := sampleApproved.after (.claim "approval" false) (moment 3)

def sampleDelivery : List Event :=
  [sampleApproved.event (.claim "approval" false) (moment 3), sampleClaimed.event (.transition sampleMove) (moment 4)]

theorem resume_delivery_sample : ((sampleAsking ++ sampleDelivery).flatMap Event.starts).Nodup ∧
    (sampleAsking ++ sampleDelivery).flatMap Event.starts = [("approval", 1)] := by
  have r : (system Python.asciiText).Run sampleApproved sampleDelivery
      (sampleClaimed.after (.transition sampleMove) (moment 4)) :=
    .trans (after_step (by decide) (by decide) trivial) (.single (after_step (by decide) (by decide) rfl))
  exact ⟨(resume_delivery sampleState_init (sampleAsking_run.append r)).right.left, by decide +kernel⟩

end Sample
end Approvals
