import V8AgentOs.Delegation.Retries

-- An episode whose results have not been reviewed resolves nothing of the others.
namespace Delegation

-- A further episode with further handoffs, all of them pending
structure Further (episodes episodes' : Episodes) (handoffs handoffs' : Handoffs) (added : Episode) : Prop where
  kept     : ∀ row ∈ episodes.rows, row ∈ episodes'.rows ∧ row.key ≠ added.key
  rows     : ∀ row ∈ episodes'.rows, row ∈ episodes.rows ∨ row = added
  handoffs : ∀ episodeId, episodeId ≠ added.key → handoffs'.of episodeId = handoffs.of episodeId
  pending  : ∀ handoff ∈ handoffs'.of added.key, ∀ task,
    (delegation_result_acceptance added handoff.read task).status = some "pending"

variable {episodes episodes' : Episodes} {handoffs handoffs' : Handoffs} {added row : Episode} {handoff : Handoff}
  {k old : Key} {status : Option String} {text : String} {r : Finset (String × String)}

namespace Further

variable (h : Further episodes episodes' handoffs handoffs' added)
include h

theorem decided (hd : Decided episodes handoffs k status row handoff) :
    k.episodeId ≠ added.key ∧ Decided episodes' handoffs' k status row handoff := by
  obtain ⟨hstored, hne⟩ := h.kept row hd.stored
  rw [hd.episode] at hne
  refine ⟨hne, { hd with stored := hstored, delivered := ?_ }⟩
  rw [h.handoffs k.episodeId hne]
  exact hd.delivered

theorem decided_back (hd : Decided episodes' handoffs' k status row handoff) :
    Decided episodes handoffs k status row handoff ∨ status = some "pending" := by
  cases h.rows row hd.stored
  case inl hstored =>
    have hne := (h.kept row hstored).right
    rw [hd.episode] at hne
    apply Or.inl
    exact { hd with stored := hstored, delivered := h.handoffs k.episodeId hne ▸ hd.delivered }
  case inr hadded =>
    subst hadded
    apply Or.inr
    rw [← hd.decision]
    exact h.pending handoff (hd.episode ▸ hd.delivered) k.taskBriefId

theorem hasStatus (ht : text ≠ "pending") :
    HasStatus episodes' handoffs' k text ↔ HasStatus episodes handoffs k text := by
  constructor
  case mp =>
    intro ⟨row, handoff, hd⟩
    cases h.decided_back hd
    case inl hd       => exact ⟨row, handoff, hd⟩
    case inr hpending => exact absurd (Option.some.inj hpending) ht
  case mpr => exact fun ⟨row, handoff, hd⟩ => ⟨row, handoff, (h.decided hd).right⟩

theorem ne_of_hasStatus (hs : HasStatus episodes handoffs k text) : k.episodeId ≠ added.key := by
  obtain ⟨row, handoff, hd⟩ := hs
  exact (h.decided hd).left

theorem retryOf (hk : k.episodeId ≠ added.key) (hold : old.episodeId ≠ added.key) :
    RetryOf episodes' k old ↔ RetryOf episodes k old := by
  have hback {row : Episode} (hrow : row ∈ episodes'.rows) (hne : row.key ≠ added.key) : row ∈ episodes.rows := by
    cases h.rows row hrow
    case inl hrow   => exact hrow
    case inr hadded => exact absurd (congrArg Episode.key hadded) hne
  constructor
  case mp =>
    intro hr
    obtain ⟨row, hrow, prior, hprior, source, hsource, hkey, hpriorKey, hnamed⟩ := hr.named
    have hrow := hback hrow (hkey ▸ hk)
    have hprior := hback hprior (hpriorKey ▸ hold)
    exact ⟨⟨row, hrow, prior, hprior, source, hsource, hkey, hpriorKey, hnamed⟩, hr.task⟩
  case mpr =>
    intro hr
    obtain ⟨row, hrow, prior, hprior, hnamed⟩ := hr.named
    exact ⟨⟨row, (h.kept row hrow).left, prior, (h.kept prior hprior).left, hnamed⟩, hr.task⟩

theorem settled : Settled episodes' handoffs' k ↔ Settled episodes handoffs k := by
  constructor
  case mp =>
    intro hs
    induction hs
    case accepted hs => exact .accepted ((h.hasStatus (by decide)).mp hs)
    case ignored hs  => exact .ignored ((h.hasStatus (by decide)).mp hs)
    case retry k old _ hretry hs hk =>
      have hold := (h.hasStatus (by decide)).mp hs
      obtain ⟨_, _, _, hd⟩ := hk.decided
      exact .retry hk ((h.retryOf (h.decided hd).left (h.ne_of_hasStatus hold)).mp hretry) hold
  case mpr =>
    intro hs
    induction hs
    case accepted hs => exact .accepted ((h.hasStatus (by decide)).mpr hs)
    case ignored hs  => exact .ignored ((h.hasStatus (by decide)).mpr hs)
    case retry k old hk hretry hs hk' =>
      obtain ⟨_, _, _, hd⟩ := hk.decided
      exact .retry hk' ((h.retryOf (h.decided hd).left (h.ne_of_hasStatus hs)).mpr hretry)
        ((h.hasStatus (by decide)).mpr hs)

-- The same retries are resolved.
theorem exact_pairs (hr : Exact episodes handoffs r) : Exact episodes' handoffs' r := by
  intro episodeId task
  have hretry {k : Key} : HasStatus episodes' handoffs' k "retry" ↔ HasStatus episodes handoffs k "retry" :=
    h.hasStatus (by decide)
  simp only [hr episodeId task, hretry, h.settled]

end Further

end Delegation
