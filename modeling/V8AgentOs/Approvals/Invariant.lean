import V8AgentOs.Approvals.Steps
import V8AgentOs.Runs.Kept

-- What holds of the approvals in every state.
namespace Approvals

open Python (Dict Json Text strip)
open Runs (Time RunRecord RunTable SameSessions)

variable {text : Text} {s t : State} {e : Event} {w : World} {a b : Approval} {d : Delivery} {id : String}

def Approval.underway (a : Approval) : Bool :=
  a.delivery.any (·.underway)

namespace Becomes

-- What identifies an approval and what it asks for
structure Same (a b : Approval) : Prop where
  id        : b.id = a.id
  sessionId : b.sessionId = a.sessionId
  runId     : b.runId = a.runId
  kind      : b.kind = a.kind
  request   : b.request = a.request
  expiresAt : b.expiresAt = a.expiresAt

theorem same_row (h : Becomes text s e a b) : Same a b := by
  cases h
  case same       => exact ⟨rfl, rfl, rfl, rfl, rfl, rfl⟩
  case decided    => exact ⟨rfl, rfl, rfl, rfl, rfl, rfl⟩
  case cancelled  => exact ⟨rfl, rfl, rfl, rfl, rfl, rfl⟩
  case superseded => exact ⟨rfl, rfl, rfl, rfl, rfl, rfl⟩
  case claimed    => exact ⟨rfl, rfl, rfl, rfl, rfl, rfl⟩
  case moved      => exact ⟨rfl, rfl, rfl, rfl, rfl, rfl⟩
  case fenced     => exact ⟨rfl, rfl, rfl, rfl, rfl, rfl⟩

-- A decided approval keeps its decision.
theorem settled (h : Becomes text s e a b) (hs : a.status ≠ .pending) :
    b.status = a.status ∧ b.response = a.response := by
  cases h
  case same                     => exact ⟨rfl, rfl⟩
  case decided hp _ _ _ _ _     => exact absurd hp hs
  case cancelled hp             => exact absurd hp hs
  case superseded               => exact ⟨rfl, rfl⟩
  case claimed                  => exact ⟨rfl, rfl⟩
  case moved                    => exact ⟨rfl, rfl⟩
  case fenced                   => exact ⟨rfl, rfl⟩

end Becomes

-- A delivery belongs to an approval that was approved, and can be told from others.
def Approval.Sound (a : Approval) : Prop :=
  ∀ d, a.delivery = some d → a.status = .approved ∧ d.generation ≠ ""

theorem Becomes.sound (h : Becomes text s e a b) (hs : a.Sound) : b.Sound := by
  cases h
  case same => exact hs
  case decided d w row resume he hid hp hst hr hf hres hu =>
    have hnone : a.delivery = none := by
      cases hd : a.delivery
      case none    => rfl
      case some d' => rw [(hs d' hd).left] at hp; cases hp
    intro d' hd'
    have hd' : resume.or a.delivery = some d' := hd'
    rw [hnone, Option.or_none] at hd'
    rw [hd'] at hres
    split at hres
    case isFalse => cases hres
    case isTrue hresumes =>
      cases hres
      have happroved : d.status = .approved := by
        simp only [resumes, Bool.and_eq_true, decide_eq_true_eq] at hresumes
        exact hresumes.left.left.left.left.left.left.left
      exact ⟨happroved, hu⟩
  case cancelled hp =>
    intro d' hd'
    rw [(hs d' hd').left] at hp
    cases hp
  case superseded d by' hd hst _ =>
    intro d' hd'
    cases hd'
    exact ⟨hst, (hs d hd).right⟩
  case claimed d w restart _ hd hst _ =>
    intro d' hd'
    cases hd'
    exact ⟨hst, (hs d hd).right⟩
  case moved d w m _ _ _ hd hst _ _ =>
    intro d' hd'
    cases hd'
    exact ⟨hst, (hs d hd).right⟩
  case fenced d now hd _ =>
    intro d' hd'
    cases hd'
    exact hs d hd

-- A delivery is under way from its claim on.
theorem Becomes.underway (h : Becomes text s e a b) (hs : a.Sound) (hb : b.underway) :
    a.underway ∨ ∃ w restart d, e = .call (.claim a.id restart) w (.claimed d) ∧ reserved a s.approvals = false := by
  cases h
  case same => exact .inl hb
  case decided d w row resume he hid hp hst hr hf hres hu =>
    have hnone : a.delivery = none := by
      cases hd : a.delivery
      case none    => rfl
      case some d' => rw [(hs d' hd).left] at hp; cases hp
    have hb : (resume.or a.delivery).any (·.underway) := hb
    rw [hnone, Option.or_none, hres] at hb
    split at hb
    case isTrue  => cases hb
    case isFalse => cases hb
  case cancelled          => exact .inl hb
  case superseded d by' hd hst hph => cases hb
  case claimed d w restart he hd _ hf =>
    have hres : reserved a s.approvals = false := by
      have h := (Option.or_eq_none_iff.mp (Option.or_eq_none_iff.mp (Option.or_eq_none_iff.mp
        (Option.or_eq_none_iff.mp hf).right).right).right).left
      cases hr : reserved a s.approvals
      case false => rfl
      case true  => rw [State.db_approvals, hr] at h; cases h
    exact .inr ⟨w, restart, _, he, hres⟩
  case moved d w m _ _ hl hd _ hm _ =>
    left
    have hphase : d.phase = .scheduled ∨ d.phase = .executing := by
      simp only [Move.matches, Bool.and_eq_true, decide_eq_true_eq] at hm
      rw [hm.left.left]
      simp only [Move.lawful, Bool.or_eq_true, Bool.and_eq_true, decide_eq_true_eq] at hl
      cases hl
      case inl hl => exact .inl hl.left
      case inr hl => exact .inr hl.left
    simpa [Approval.underway, hd, Delivery.underway] using hphase
  case fenced d now hd hph => cases hb

theorem recover_sessions {db : Database} {now : Time} {nowText : String} (as : List Approval) (runs : RunTable) :
    SameSessions runs (as.foldl (fun runs a => match db.interrupted a with
      | some row => recoverRun now nowText runs a row
      | none     => runs) runs) := by
  induction as generalizing runs
  case nil => exact .refl
  case cons a as hi =>
    refine SameSessions.trans ?_ (hi _)
    cases hr : db.interrupted a
    case none     => simp only [hr]; exact .refl
    case some row => simp only [hr]; exact .update (by exact fun _ => rfl) fun _ => rfl

-- The runs keep their sessions.
theorem sameSessions_call (c : Call) : SameSessions s.base.runs (c.run text w s.db).2.runs := by
  cases c
  case add id sessionId runId kind status request response expiresAt =>
    cases ha : addPendingApproval id sessionId runId kind status request response expiresAt s.db
    case none => simp only [Call.run, ha]; exact .refl
    case some db =>
      simp only [Call.run, ha, runs_add ha]
      exact .refl
  case createSpecReview id sessionId runId request expiresAt =>
    cases ha : createSpecReviewApproval id sessionId runId request expiresAt s.db
    case none => simp only [Call.run, ha]; exact .refl
    case some db =>
      simp only [Call.run, ha]
      cases review_of_create ha
      case inl h => rw [h]; exact .refl
      case inr h =>
        obtain ⟨_, _, _, _, h⟩ := h
        rw [runs_review h]
        exact .update (by exact fun _ => rfl) fun _ => rfl
  case resolve d =>
    cases hb : (resolvePendingApprovalIfPending text w d s.db).1
    case false =>
      simp only [Call.run, unchanged_of_resolve hb]
      exact .refl
    case true =>
      obtain ⟨a, row, operations, _, _, _, _, _, hw⟩ := decided_of_resolve hb
      simp only [Call.run, hw]
      exact .update (by exact fun _ => rfl) fun _ => rfl
  case claim id restart =>
    cases hd : (claimApprovalResume w id restart s.db).1
    case none =>
      simp only [Call.run, unchanged_of_claim hd]
      exact .refl
    case some d =>
      obtain ⟨_, _, _, _, _, _, _, hw⟩ := claimed_of_claim hd
      simp only [Call.run, hw]
      exact .refl
  case transition m =>
    cases hb : (transitionApprovalResume w m s.db).1
    case false =>
      simp only [Call.run, unchanged_of_transition hb]
      exact .refl
    case true =>
      obtain ⟨_, _, _, _, _, _, _, hw⟩ := moved_of_transition hb
      simp only [Call.run, hw]
      exact .refl
  case recover nowText => exact recover_sessions s.db.approvals.rows s.base.runs

theorem sameSessions_step (hs : (system text).step s e t) : SameSessions s.base.runs t.base.runs := by
  cases hs
  case run hstep      => exact .step hstep
  case call c w _ _ _ => exact sameSessions_call c

structure Inv (s : State) : Prop where
  sound   : ∀ id a, s.approvals.get? id = some a → a.Sound
  single  : ∀ i j a b, s.approvals.get? i = some a → s.approvals.get? j = some b → a.runId = b.runId →
    a.underway → b.underway → i = j
  session : ∀ id a row, s.approvals.get? id = some a → s.base.runs.get? a.runId = some row →
    row.sessionId = a.sessionId

theorem inv_init (h : (system text).init s) : Inv s := by
  have hn : ∀ id a, s.approvals.get? id ≠ some a := by
    intro id a ha
    have hm := Table.mem_of_get? ha
    rw [h.left] at hm
    cases hm
  exact ⟨fun id a ha => absurd ha (hn id a), fun i _ a _ ha => absurd ha (hn i a), fun id a _ ha => absurd ha (hn id a)⟩

theorem not_reserved (h : reserved a s.approvals = false) (hb : s.approvals.get? id = some b)
    (hrun : b.runId = a.runId) (hu : b.underway) : id = a.id := by
  have hn := List.any_eq_false.mp h b (Table.mem_of_get? hb)
  by_contra hne
  apply hn
  have hid : b.id ≠ a.id := Table.key_of_get? hb ▸ hne
  simp only [Bool.and_eq_true, decide_eq_true_eq]
  exact ⟨⟨hid, hrun⟩, hu⟩

-- A row after a step, and what it was before
theorem Moves.before (h : Moves text s e t.approvals) (hb : t.approvals.get? id = some b) :
    (∃ a, s.approvals.get? id = some a ∧ Becomes text s e a b) ∨ (s.approvals.get? id = none ∧ b.delivery = none ∧
      ∀ row, s.base.runs.get? b.runId = some row → row.sessionId = b.sessionId) := by
  cases ha : s.approvals.get? id
  case none => exact .inr ⟨rfl, h.made id b ha hb⟩
  case some a =>
    have ⟨b', hb', hbec⟩ := h.kept id a ha
    cases hb.symm.trans hb'
    exact .inl ⟨a, rfl, hbec⟩

theorem inv_step (h : Inv s) (hs : (system text).step s e t) : Inv t := by
  have hm := moves_step hs
  constructor
  case sound =>
    intro id b hb
    cases hm.before hb
    case inl hbefore =>
      have ⟨a, ha, hbec⟩ := hbefore
      exact hbec.sound (h.sound id a ha)
    case inr hnew =>
      intro d hd
      rw [hnew.right.left] at hd
      cases hd
  case single =>
    intro i j b₁ b₂ hb₁ hb₂ hrun hu₁ hu₂
    cases hm.before hb₁
    case inr hnew => simp [Approval.underway, hnew.right.left] at hu₁
    case inl hbefore₁ =>
      cases hm.before hb₂
      case inr hnew => simp [Approval.underway, hnew.right.left] at hu₂
      case inl hbefore₂ =>
        have ⟨a₁, ha₁, hbec₁⟩ := hbefore₁
        have ⟨a₂, ha₂, hbec₂⟩ := hbefore₂
        have hrun : a₁.runId = a₂.runId := by rw [← hbec₁.same_row.runId, ← hbec₂.same_row.runId, hrun]
        have hid₁ := Table.key_of_get? ha₁
        have hid₂ := Table.key_of_get? ha₂
        cases hbec₁.underway (h.sound i a₁ ha₁) hu₁
        case inl hu₁ =>
          cases hbec₂.underway (h.sound j a₂ ha₂) hu₂
          case inl hu₂ => exact h.single i j a₁ a₂ ha₁ ha₂ hrun hu₁ hu₂
          case inr hc₂ =>
            have ⟨_, _, _, _, hres⟩ := hc₂
            exact (not_reserved hres ha₁ hrun hu₁).trans hid₂
        case inr hc₁ =>
          have ⟨_, _, _, he₁, hres⟩ := hc₁
          cases hbec₂.underway (h.sound j a₂ ha₂) hu₂
          case inl hu₂ => exact ((not_reserved hres ha₂ hrun.symm hu₂).trans hid₁).symm
          case inr hc₂ =>
            have ⟨_, _, _, he₂, _⟩ := hc₂
            rw [he₁] at he₂
            have hid : a₁.id = a₂.id := by
              injection he₂ with hcall
              injection hcall
            exact hid₁.symm.trans (hid.trans hid₂)
  case session =>
    intro id b row' hb hrow'
    have ⟨row, hrow, hsame⟩ := sameSessions_step hs _ _ hrow'
    rw [hsame]
    cases hm.before hb
    case inr hnew => exact hnew.right.right row hrow
    case inl hbefore =>
      have ⟨a, ha, hbec⟩ := hbefore
      rw [hbec.same_row.runId] at hrow
      rw [hbec.same_row.sessionId]
      exact h.session id a row ha hrow

theorem inv_run {es : List Event} (h : Inv s) (r : (system text).Run s es t) : Inv t :=
  r.preserves (fun _ _ _ => inv_step) h

section Sample

def State.after (s : State) (c : Call) (w : World) : State where
  base      := { s.base with runs := (c.run Python.asciiText w s.db).2.runs }
  approvals := (c.run Python.asciiText w s.db).2.approvals
  clock     := w.now

def State.event (s : State) (c : Call) (w : World) : Event :=
  .call c w (c.run Python.asciiText w s.db).1

theorem after_step {c : Call} (ht : s.clock ≤ w.now) (hu : w.uuid ≠ "") (hm : c.Meets s.db) :
    (system Python.asciiText).step s (s.event c w) (s.after c w) :=
  .call ht hu hm

def sampleRow : RunRecord where
  id           := "run"
  sessionId    := "session"
  runType      := "chat"
  status       := "waiting_approval"
  errorMessage := none
  metadata     := []
  finishedAt   := none

def sampleState : State where
  base      := ⟨⟨[sampleRow], by simp⟩, fun _ => none⟩
  approvals := .empty
  clock     := 0

def moment (now : Time) : World := ⟨now, "generation"⟩

def sampleOperation : Dict :=
  [("fingerprint", .str "rm")]

-- A tool asks for an approval, which is given.
def sampleAdd : Call :=
  .add "approval" "session" "run" "tool" .pending [("operationFingerprint", .str "rm")] none .never

def sampleDecision : Decision where
  id                := "approval"
  status            := .approved
  approvedOperation := some sampleOperation

def sampleAsked : State := sampleState.after sampleAdd (moment 1)

def sampleApproved : State := sampleAsked.after (.resolve sampleDecision) (moment 2)

def sampleAsking : List Event :=
  [sampleState.event sampleAdd (moment 1), sampleAsked.event (.resolve sampleDecision) (moment 2)]

theorem sampleState_init : (system Python.asciiText).init sampleState := by
  refine ⟨rfl, fun _ => rfl, ?_⟩
  exact List.forall_iff_forall_mem.mp rfl

theorem sampleAsking_run : (system Python.asciiText).Run sampleState sampleAsking sampleApproved := by
  have hadd : sampleAdd.Meets sampleState.db := by
    refine ⟨rfl, fun row hrow => ?_⟩
    cases Option.some.inj hrow
    rfl
  exact .trans (after_step (by decide) (by decide) hadd) (.single (after_step (by decide) (by decide) trivial))

end Sample
end Approvals
