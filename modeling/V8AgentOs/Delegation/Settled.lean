import Mathlib.Logic.Relation
import V8AgentOs.Delegation.Waves

-- Every send is settled once, and runs only after what it depends on.
namespace Delegation.Waves

open Python

open Relation (ReflTransGen)

variable {W S ε : Type*} [DecidableEq S] {runner : Runner W S ε} {s t u : State W S} {item : S} {items sends : List S}
  {entry : Entry S} {completed : String → Option Dict} {progressed : Bool} {fuel : ℕ} {world : W}

-- What the worker of a send has reported
def Answers (runner : Runner W S ε) (item : S) (completed : String → Option Dict) (summaries : List Dict) : Prop :=
  (runner.node item ≠ "parallel_delegate_task" ∧ summaries = []) ∨
  ∃ world after, runner.worker world item completed = (.ok summaries, after)

-- Why a send is settled the way it is, where `completed` holds what the tasks have reported so far.
def Justified (runner : Runner W S ε) (completed : String → Option Dict) : Entry S → Prop
  | .failed item deps summary => deps = runner.failedDeps item completed ∧ deps ≠ [] ∧
    ∃ now, summary = blockedDependencySummary (delegationSendBranch (runner.arg item)) (runner.taskId item)
      (runner.deps item) "dependency_failed" deps now
  | .ran item summaries       => runner.ready item completed ∧ Answers runner item completed summaries
  | .unsatisfied item _       => runner.ready item completed = false

-- A send has been settled; the world may have changed.
structure Settles (runner : Runner W S ε) (entry : Entry S) (s t : State W S) : Prop where
  pending   : entry.send ∈ s.pending
  justified : Justified runner s.completed entry
  erased    : t.pending = s.pending.erase entry.send
  recorded  : t.completed = runner.recorded entry.send entry.results s.completed
  appended  : t.entries = s.entries ++ [entry]

structure SameButWorld (s t : State W S) : Prop where
  pending   : t.pending = s.pending
  completed : t.completed = s.completed
  entries   : t.entries = s.entries

def Entry.GivesUp : Entry S → Prop
  | .unsatisfied .. => True
  | _               => False

-- A step of the first phase, in which sends run, and one of the last, in which the remaining ones do not.
def Works (runner : Runner W S ε) (s t : State W S) : Prop :=
  SameButWorld s t ∨ ∃ entry, Settles runner entry s t ∧ ¬entry.GivesUp

section Steps

omit [DecidableEq S] in
theorem SameButWorld.refl : SameButWorld s s := ⟨rfl, rfl, rfl⟩

theorem Settles.length (h : Settles runner entry s t) : t.pending.length < s.pending.length := by
  rw [h.erased, List.length_erase_of_mem h.pending]
  have := List.length_pos_of_mem h.pending
  omega

-- What one pass over the pending sends does. Without progress nothing has changed, and no send could have been
-- settled.
structure Swept (runner : Runner W S ε) (items : List S) (progressed : Bool) (s : State W S)
    (result : Except ε Bool × State W S) : Prop where
  works   : ReflTransGen (Works runner) s result.2
  shrinks : result.1 = .ok true → progressed = true ∨ result.2.pending.length < s.pending.length
  shorter : result.2.pending.length ≤ s.pending.length
  idle    : result.1 = .ok false → progressed = false ∧ SameButWorld s result.2 ∧
    ∀ item ∈ items, runner.failedDeps item s.completed = [] ∧ runner.ready item s.completed = false

theorem Swept.nil : Swept runner [] progressed s (.ok progressed, s) where
  works     := .refl
  shrinks h := .inl (Except.ok.inj h)
  shorter   := le_rfl
  idle h    := ⟨Except.ok.inj h, .refl, by simp⟩

theorem Swept.error {e : ε} {message : Except ε Bool} (hm : message = .error e) (h : SameButWorld s t) :
    Swept runner items progressed s (message, t) where
  works     := .single (.inl h)
  shrinks h := by simp [hm] at h
  shorter   := by rw [h.pending]
  idle h    := by simp [hm] at h

-- A send has been settled at the start of a pass.
theorem Swept.after {result : Except ε Bool × State W S} (hs : Settles runner entry s t) (he : ¬entry.GivesUp)
    (h : Swept runner items true t result) : Swept runner (item :: items) progressed s result where
  works     := .head (.inr ⟨entry, hs, he⟩) h.works
  shrinks _ := .inr (h.shorter.trans_lt hs.length)
  shorter   := h.shorter.trans hs.length.le
  idle hf   := Bool.noConfusion (h.idle hf).left

end Steps

section Summaries

variable {text : Text} {branch summary : Dict} {task reason now : String} {deps failed : List String}

end Summaries

section Phases

end Phases

section Runs

-- What the tasks have reported after some sends have been settled.
def Runner.reported (runner : Runner W S ε) (completed : String → Option Dict) (entries : List (Entry S)) :
    String → Option Dict :=
  entries.foldl (fun completed entry => runner.recorded entry.send entry.results completed) completed

-- A send is settled for a reason, and once one has been given up no other runs.
structure InTurn (runner : Runner W S ε) (completed : String → Option Dict) (before : List (Entry S))
    (entry : Entry S) : Prop where
  justified : Justified runner (runner.reported completed before) entry
  last      : (∃ e ∈ before, e.GivesUp) → entry.GivesUp

-- How the state of the loop comes from what has been settled.
structure Tracks (runner : Runner W S ε) (sends : List S) (completed : String → Option Dict) (s : State W S) :
    Prop where
  turns    : Along (InTurn runner completed) s.entries
  reported : s.completed = runner.reported completed s.entries
  perm     : (s.entries.map Entry.send ++ s.pending).Perm sends

omit [DecidableEq S] in
theorem Tracks.same (h : Tracks runner sends completed s) (hs : SameButWorld s t) :
    Tracks runner sends completed t := by
  constructor
  case turns    => exact hs.entries ▸ h.turns
  case reported => rw [hs.completed, hs.entries, h.reported]
  case perm     => rw [hs.entries, hs.pending]; exact h.perm

theorem Tracks.settles (h : Tracks runner sends completed s) (hs : Settles runner entry s t)
    (hlast : (∃ e ∈ s.entries, e.GivesUp) → entry.GivesUp) : Tracks runner sends completed t := by
  constructor
  case turns    => exact hs.appended ▸ h.turns.snoc ⟨h.reported ▸ hs.justified, hlast⟩
  case reported => rw [hs.recorded, hs.appended, h.reported, Runner.reported, Runner.reported, List.foldl_concat]
  case perm =>
    rw [hs.appended, hs.erased, List.map_append, List.append_assoc]
    exact ((List.perm_cons_erase hs.pending).symm.append_left _).trans h.perm

theorem Tracks.works (h : Tracks runner sends completed s) (hn : ∀ e ∈ s.entries, ¬e.GivesUp)
    (hw : ReflTransGen (Works runner) s t) : Tracks runner sends completed t ∧ ∀ e ∈ t.entries, ¬e.GivesUp := by
  induction hw
  case refl => exact ⟨h, hn⟩
  case tail hstep hi =>
    have ⟨hi, hn⟩ := hi
    cases hstep
    case inl hs => exact ⟨hi.same hs, hs.entries ▸ hn⟩
    case inr hs =>
      have ⟨entry, hs, hg⟩ := hs
      refine ⟨hi.settles hs fun ⟨e, he, hge⟩ => absurd hge (hn e he), ?_⟩
      rw [hs.appended]
      exact List.forall_mem_append.mpr ⟨hn, by simpa using hg⟩

end Runs

end Delegation.Waves
