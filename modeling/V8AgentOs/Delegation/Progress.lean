import V8AgentOs.Delegation.Settled
import V8AgentOs.Lib.DepthFirst

-- No send is given up where the dependencies have no circuit.
namespace Delegation.Waves

open Python

open Relation (ReflTransGen TransGen)

variable {W S ε : Type*} [DecidableEq S] {runner : Runner W S ε} {s t : State W S} {item : S} {sends : List S}
  {completed : String → Option Dict} {fuel : ℕ} {world : W} {entry : Entry S} {summary : Dict}

-- A summary that is not one of something that still waits
def Definite (text : Text) (summary : Dict) : Prop :=
  delegationSummarySucceeded text summary ∨ summaryWaits text summary = false

-- The sends of an episode that wait for each other
def Awaits (runner : Runner W S ε) (sends : List S) (id dep : String) : Prop :=
  (∃ item ∈ sends, runner.taskId item = id ∧ dep ∈ runner.deps item) ∧ ∃ other ∈ sends, runner.taskId other = dep

-- What the loop relies on: each dependency is one of the sends or has reported, none depends on itself, and reports
-- are definite.
structure Sound (runner : Runner W S ε) (sends : List S) (completed : String → Option Dict) : Prop where
  delegated : ∀ item ∈ sends, runner.node item = "parallel_delegate_task"
  supplied  : ∀ item ∈ sends, ∀ dep ∈ runner.deps item,
    (completed dep).isSome ∨ ∃ other ∈ sends, runner.taskId other = dep
  acyclic   : ∀ id, ¬TransGen (Awaits runner sends) id id
  reported  : ∀ dep summary, completed dep = some summary → Definite runner.text summary
  workers   : ∀ item ∈ sends, ∀ world completed summaries after,
    runner.worker world item completed = (.ok summaries, after) →
      ∃ summary ∈ summaries.getLast?, Definite runner.text summary

-- What holds while no send has been given up.
structure Going (runner : Runner W S ε) (sends : List S) (s : State W S) : Prop where
  pending  : s.pending ⊆ sends
  supplied : ∀ item ∈ sends, ∀ dep ∈ runner.deps item,
    (s.completed dep).isSome ∨ ∃ other ∈ s.pending, runner.taskId other = dep
  reported : ∀ dep summary, s.completed dep = some summary → Definite runner.text summary

section Summaries

omit [DecidableEq S]

theorem deps_ne_empty {dep : String} (h : dep ∈ runner.deps item) : dep ≠ "" := by
  have hfold (values : List Json) (start : List String) (hs : "" ∉ start) : "" ∉ values.foldl (fun deps value =>
      let dep := runner.text.stripped value
      if dep ≠ "" ∧ dep ∉ deps then deps ++ [dep] else deps) start := by
    induction values generalizing start
    case nil => exact hs
    case cons value values hi =>
      apply hi
      simp only
      split
      case isTrue hne => simpa [hs] using Ne.symm hne.left
      case isFalse    => exact hs
  exact fun heq => hfold _ [] List.not_mem_nil (heq ▸ h)

theorem blocked_definite {text : Text} {branch : Dict} {task reason now : String} {deps failed : List String} :
    Definite text (blockedDependencySummary branch task deps reason failed now) := by
  have hstatus : (blockedDependencySummary branch task deps reason failed now).get "status" = .str "blocked" := rfl
  apply Or.inr
  simp [summaryWaits, hstatus, Text.orEmpty, Text.str, Json.truthy]

-- A task that has reported stays so.
theorem recorded_isSome {summaries : List Dict} {dep : String} (h : (completed dep).isSome) :
    (runner.recorded item summaries completed dep).isSome := by
  cases hlast : summaries.getLast?
  case none => simpa only [Runner.recorded, hlast] using h
  case some summary =>
    simp only [Runner.recorded, hlast]
    split
    case isTrue => exact h
    case isFalse =>
      by_cases heq : dep = runner.taskId item
      case pos => simp [heq]
      case neg => rwa [Function.update_of_ne heq]

theorem recorded_self {summaries : List Dict} (hl : summary ∈ summaries.getLast?) (hne : runner.taskId item ≠ "") :
    runner.recorded item summaries completed (runner.taskId item) = some summary := by
  cases hlast : summaries.getLast?
  case none => simp [hlast] at hl
  case some last =>
    have heq : last = summary := by simpa [hlast] using hl
    simp only [Runner.recorded, hlast, if_neg hne, Function.update_self, heq]

theorem recorded_definite {summaries : List Dict} {dep : String}
    (hs : ∀ dep summary, completed dep = some summary → Definite runner.text summary)
    (hd : ∀ last ∈ summaries.getLast?, Definite runner.text last)
    (h : runner.recorded item summaries completed dep = some summary) : Definite runner.text summary := by
  cases hlast : summaries.getLast?
  case none => exact hs dep summary (by simpa only [Runner.recorded, hlast] using h)
  case some last =>
    simp only [Runner.recorded, hlast] at h
    split at h
    case isTrue => exact hs dep summary h
    case isFalse =>
      by_cases heq : dep = runner.taskId item
      case pos =>
        rw [heq, Function.update_self] at h
        exact hd summary (hlast.trans h)
      case neg => exact hs dep summary (by rwa [Function.update_of_ne heq] at h)

end Summaries

section Steps

omit [DecidableEq S] in
-- What a send that is not given up reports
theorem Justified.reports (h : Sound runner sends completed) (hmem : entry.send ∈ sends) (hg : ¬entry.GivesUp)
    {reported : String → Option Dict} (hj : Justified runner reported entry) :
    ∃ summary ∈ entry.results.getLast?, Definite runner.text summary := by
  cases entry
  case failed item deps summary =>
    have ⟨_, _, now, heq⟩ := hj
    exact ⟨summary, rfl, heq ▸ blocked_definite⟩
  case ran item summaries =>
    cases hj.right
    case inl hnode => exact absurd (h.delegated item hmem) hnode.left
    case inr hworker =>
      have ⟨world, after, heq⟩ := hworker
      exact h.workers item hmem world reported summaries after heq
  case unsatisfied => exact absurd trivial hg

theorem Going.settles (h : Sound runner sends completed) (hg : Going runner sends s) (hs : Settles runner entry s t)
    (hgive : ¬entry.GivesUp) : Going runner sends t := by
  have hmem : entry.send ∈ sends := hg.pending hs.pending
  have ⟨last, hlast, hdefinite⟩ := hs.justified.reports h hmem hgive
  constructor
  case pending => exact fun item hitem => hg.pending (List.mem_of_mem_erase (hs.erased ▸ hitem))
  case supplied =>
    intro item hitem dep hdep
    rw [hs.recorded, hs.erased]
    cases hg.supplied item hitem dep hdep
    case inl hsome => exact .inl (recorded_isSome hsome)
    case inr hpending =>
      have ⟨other, ho, hid⟩ := hpending
      by_cases heq : other = entry.send
      case pos =>
        apply Or.inl
        subst heq hid
        rw [recorded_self hlast (deps_ne_empty hdep)]
        rfl
      case neg => exact .inr ⟨other, (List.mem_erase_of_ne heq).mpr ho, hid⟩
  case reported =>
    intro dep summary hsummary
    rw [hs.recorded] at hsummary
    apply recorded_definite hg.reported ?_ hsummary
    exact fun summary hsummary => Option.mem_unique hlast hsummary ▸ hdefinite

theorem Going.works (h : Sound runner sends completed) (hg : Going runner sends s)
    (hw : ReflTransGen (Works runner) s t) : Going runner sends t := by
  induction hw
  case refl => exact hg
  case tail hstep hi =>
    cases hstep
    case inl hsame =>
      constructor
      case pending  => exact hsame.pending ▸ hi.pending
      case supplied => exact hsame.completed ▸ hsame.pending ▸ hi.supplied
      case reported => exact hsame.completed ▸ hi.reported
    case inr hsettles =>
      have ⟨entry, hs, hgive⟩ := hsettles
      exact hi.settles h hs hgive

omit [DecidableEq S] in
-- Among the pending sends, one is ready or has a dependency that has failed.
theorem Going.progress (h : Sound runner sends completed) (hg : Going runner sends s) (hitem : item ∈ s.pending) :
    ∃ other ∈ s.pending, runner.failedDeps other s.completed ≠ [] ∨ runner.ready other s.completed := by
  have hacc : Acc (fun dep id => Awaits runner sends id dep) (runner.taskId item) := by
    have hall : ∀ id dep, Awaits runner sends id dep → dep ∈ sends.map runner.taskId := by
      rintro id dep ⟨_, other, ho, heq⟩
      exact List.mem_map.mpr ⟨other, ho, heq⟩
    exact DepthFirst.acc_of_acyclic hall (fun id hid => h.acyclic id (Relation.transGen_swap.mp hid)) _
  generalize hid : runner.taskId item = id at hacc
  induction hacc generalizing item
  case intro id _ hi =>
    by_cases hall : ∀ dep ∈ runner.deps item, (s.completed dep).isSome
    case pos =>
      refine ⟨item, hitem, ?_⟩
      by_cases hready : runner.ready item s.completed
      case pos => exact .inr hready
      case neg =>
        apply Or.inl
        have ⟨dep, hdep, hno⟩ := List.all_eq_false.mp (Bool.eq_false_of_not_eq_true hready)
        apply List.ne_nil_of_mem (a := dep)
        have ⟨summary, hsummary⟩ := Option.isSome_iff_exists.mp (hall dep hdep)
        have hfails : delegationSummarySucceeded runner.text summary = false := by simpa [hsummary] using hno
        have hnow : summaryWaits runner.text summary = false :=
          (hg.reported dep summary hsummary).resolve_left (by simp [hfails])
        simp [Runner.failedDeps, hdep, hsummary, hfails, hnow]
    case neg =>
      have ⟨dep, hdep, hnone⟩ : ∃ dep ∈ runner.deps item, ¬(s.completed dep).isSome := by
        simpa only [not_forall, exists_prop] using hall
      have ⟨other, ho, heq⟩ := (hg.supplied item (hg.pending hitem) dep hdep).resolve_left hnone
      have hawaits : Awaits runner sends id dep :=
        ⟨⟨item, hg.pending hitem, hid, hdep⟩, other, hg.pending ho, heq⟩
      exact hi dep hawaits ho heq

end Steps

-- An episode of named tasks whose workers all succeed
def sample : Runner Unit (String × List String) Unit where
  text       := asciiText
  node _     := "parallel_delegate_task"
  arg item   := [("parallel_branch", .dict [("taskBriefId", .str item.1), ("dependencies", .list (item.2.map .str))])]
  worker _ item _ := (.ok [[("taskBriefId", .str item.1), ("status", .str "completed")]], ())
  finalize _ _ _  := (.ok (), ())
  utcNowIso _     := "2026-01-01T00:00:00Z"

end Delegation.Waves
