import V8AgentOs.Delegation.Unreviewed
import V8AgentOs.Lib.Ascent
import V8AgentOs.RuntimeEpisodes.Superseded

-- What has retired an episode: later proof, or the review of a retry. The attempts that are left at the end of a chain
-- of such witnesses stand for all the others.
namespace RuntimeEpisodes

open Python (Dict Json)
open Relation (ReflTransGen)
open Delegation (Key HasStatus RetryOf Settled Decided Exact)

variable {r : Reading} (episodes : Attempts r) (deliveries : Deliveries)

-- The second of two episodes has been completed or merged with a proven delivery, later than the first, and does the
-- work of the first.
structure ProvenLater (row other : Dict × ℕ) : Prop where
  listed   : row ∈ episodes.roots.zipIdx ∧ other ∈ episodes.roots.zipIdx
  apart    : r.episodeId row.1 ≠ r.episodeId other.1
  finished : r.state other.1 ∈ ["completed", "merged"]
  later    : r.timeKey row.1 row.2 < r.timeKey other.1 other.2
  covers   : ∃ c, r.candidate deliveries other = some c ∧ r.covers c row.1

-- The first result is a retry of the second one, which was decided so.
def Retries (k old : Key) : Prop :=
  RetryOf episodes.rootEpisodes k old ∧ HasStatus episodes.rootEpisodes deliveries.handoffs old "retry"

-- A result that was accepted or ignored, and one that it is a retry of, maybe through other retries
structure ReviewedRetry (k old : Key) : Prop where
  reviewed : HasStatus episodes.rootEpisodes deliveries.handoffs k "accepted" ∨
    HasStatus episodes.rootEpisodes deliveries.handoffs k "ignored"
  retried  : HasStatus episodes.rootEpisodes deliveries.handoffs old "retry"
  path     : ReflTransGen (Retries episodes deliveries) k old

-- The second episode is what has retired the first.
inductive SupersededBy : String → String → Prop
  | proof {row other} : ProvenLater episodes deliveries row other →
    SupersededBy (r.episodeId row.1) (r.episodeId other.1)
  | review {k old} : ReviewedRetry episodes deliveries k old → SupersededBy old.episodeId k.episodeId

-- Retries come after what they retry.
def Forward : Prop :=
  ∀ k old, Settled episodes.rootEpisodes deliveries.handoffs k → Retries episodes deliveries k old →
    ∀ row ∈ episodes.roots.zipIdx, ∀ other ∈ episodes.roots.zipIdx,
      r.episodeId row.1 = old.episodeId → r.episodeId other.1 = k.episodeId →
        r.timeKey row.1 row.2 < r.timeKey other.1 other.2

variable {episodes deliveries} {k old : Key} {row other : Dict × ℕ} {ids : Finset String} {id : String}
  {iteration : Delegation.Iteration}

section Rows

theorem mem_roots {d : Dict} (h : d ∈ episodes.roots) : d ∈ episodes.rows :=
  List.mem_of_mem_filter h

theorem episodeId_eq {d : Dict} (h : d ∈ episodes.roots) : r.episodeId d = key d :=
  (episodes.named d (mem_roots h)).left

-- An id stands for one row.
theorem row_unique (hrow : row ∈ episodes.roots.zipIdx) (hother : other ∈ episodes.roots.zipIdx)
    (h : r.episodeId row.1 = r.episodeId other.1) : row = other := by
  have hget := List.mem_zipIdx_iff_getElem?.mp hrow
  have hget' := List.mem_zipIdx_iff_getElem?.mp hother
  have hkey : (episodes.roots.map key)[row.2]? = (episodes.roots.map key)[other.2]? := by
    rw [List.getElem?_map, List.getElem?_map, hget, hget', Option.map_some, Option.map_some,
      ← episodeId_eq (List.mem_of_getElem? hget), ← episodeId_eq (List.mem_of_getElem? hget'), h]
  have hnodup : (episodes.roots.map key).Nodup := episodes.unique.sublist (List.filter_sublist.map key)
  have hlt : row.2 < (episodes.roots.map key).length := by
    rw [List.length_map]
    exact (List.getElem?_eq_some_iff.mp hget).choose
  have hindex := (List.getElem?_inj hlt hnodup).mp hkey
  rw [hindex, hget'] at hget
  exact Prod.ext (Option.some.inj hget).symm hindex

-- The row of a result
theorem row_of_decided {status : Option String} {episode : Delegation.Episode} {handoff : Delegation.Handoff}
    (h : Decided episodes.rootEpisodes deliveries.handoffs k status episode handoff) :
    ∃ row ∈ episodes.roots.zipIdx, r.episodeId row.1 = k.episodeId ∧ episodeOf row.1 = episode := by
  obtain ⟨d, hd, rfl⟩ := List.mem_map.mp h.stored
  obtain ⟨i, hi⟩ := List.mem_iff_getElem?.mp hd
  exact ⟨(d, i), List.mem_zipIdx_iff_getElem?.mpr hi, (episodeId_eq hd).trans h.episode, rfl⟩

end Rows

section Witnesses

-- What a candidate is made of
theorem candidate_eq {c : Candidate} (h : r.candidate deliveries row = some c) :
    c.episode = row.1 ∧ c.time = r.timeKey row.1 row.2 ∧ r.state row.1 ∈ ["completed", "merged"] := by
  simp only [Reading.candidate, Option.bind_eq_bind, Option.bind_eq_some_iff] at h
  obtain ⟨handoff, -, h⟩ := h
  split at h
  case isFalse => cases h
  case isTrue hproven =>
    cases h
    simp only [Bool.and_eq_true, List.contains_iff_mem] at hproven
    exact ⟨rfl, rfl, hproven.left.right⟩

theorem apart_of_covers {c : Candidate} {d : Dict} (h : r.covers c d = true) :
    r.episodeId c.episode ≠ r.episodeId d := by
  simp only [Reading.covers, Bool.and_eq_true, decide_eq_true_iff] at h
  exact h.left.left.left.right

theorem provenLater_iff (hrow : row ∈ episodes.roots.zipIdx) :
    (episodes.roots.zipIdx.filterMap (r.candidate deliveries)).any (r.isRetiredBy row) = true ↔
      ∃ other, ProvenLater episodes deliveries row other := by
  rw [List.any_eq_true]
  constructor
  case mp =>
    rintro ⟨c, hc, hretired⟩
    obtain ⟨other, hother, hcandidate⟩ := List.mem_filterMap.mp hc
    obtain ⟨hepisode, htime, hfinished⟩ := candidate_eq hcandidate
    obtain ⟨hlater, hcovers⟩ := (Bool.and_eq_true _ _).mp hretired
    exists other
    constructor
    case listed   => exact ⟨hrow, hother⟩
    case apart    => exact hepisode ▸ (apart_of_covers hcovers).symm
    case finished => exact hfinished
    case later    => exact htime ▸ of_decide_eq_true hlater
    case covers   => exact ⟨c, hcandidate, hcovers⟩
  case mpr =>
    rintro ⟨other, h⟩
    obtain ⟨c, hcandidate, hcovers⟩ := h.covers
    refine ⟨c, List.mem_filterMap.mpr ⟨other, h.listed.right, hcandidate⟩, ?_⟩
    rw [Reading.isRetiredBy, (candidate_eq hcandidate).right.left, hcovers, Bool.and_true]
    exact decide_eq_true h.later

theorem mem_superseded {resolved : Finset (String × String)}
    (hresolved : Delegation.resolved_delegation_retries episodes.rootEpisodes deliveries.handoffs iteration =
      some resolved) (h : r.superseded_runtime_episode_ids deliveries episodes iteration = some ids) : id ∈ ids ↔
    (∃ d ∈ episodes.roots, r.isRetiredByReview deliveries resolved d = true ∧ r.episodeId d = id) ∨
      ∃ row other, ProvenLater episodes deliveries row other ∧ r.episodeId row.1 = id := by
  simp only [Reading.superseded_runtime_episode_ids, hresolved, Option.map_some, Option.some.injEq] at h
  subst h
  rw [List.mem_toFinset, List.map_append, List.mem_append, List.mem_map, List.map_map, List.mem_map]
  apply or_congr
  case h₁ => simp only [List.mem_filter, and_assoc]
  case h₂ =>
    constructor
    case mp =>
      rintro ⟨row, hrow, rfl⟩
      obtain ⟨hlisted, hretired⟩ := List.mem_filter.mp hrow
      obtain ⟨other, hother⟩ := (provenLater_iff hlisted).mp hretired
      exact ⟨row, other, hother, rfl⟩
    case mpr =>
      rintro ⟨row, other, h, rfl⟩
      exact ⟨row, List.mem_filter.mpr ⟨h.listed.left, (provenLater_iff h.listed.left).mpr ⟨other, h⟩⟩, rfl⟩

-- What the search for retries has found was reviewed.
theorem reviewedRetry_of_settled (hs : Settled episodes.rootEpisodes deliveries.handoffs old)
    (hretry : HasStatus episodes.rootEpisodes deliveries.handoffs old "retry") :
    ∃ k, ReviewedRetry episodes deliveries k old := by
  obtain ⟨k, hreviewed, hpath⟩ := Delegation.reached_iff.mpr hs
  refine ⟨k, Delegation.mem_reviewed.mp hreviewed, hretry, ?_⟩
  exact hpath.lift id fun a b h => Delegation.mem_retries.mp h

theorem exists_supersededBy {resolved : Finset (String × String)}
    (hresolved : Delegation.resolved_delegation_retries episodes.rootEpisodes deliveries.handoffs iteration =
      some resolved) (hexact : Exact episodes.rootEpisodes deliveries.handoffs resolved)
    (h : r.superseded_runtime_episode_ids deliveries episodes iteration = some ids) (hid : id ∈ ids) :
    ∃ other, SupersededBy episodes deliveries id other := by
  cases (mem_superseded hresolved h).mp hid
  case inl hreview =>
    obtain ⟨d, hd, hretired, rfl⟩ := hreview
    simp only [Reading.isRetiredByReview, Bool.and_eq_true, decide_eq_true_iff] at hretired
    obtain ⟨pair, hpair, hfirst⟩ := hretired.left.left
    obtain ⟨old, hepisode, -, hretry, hsettled⟩ := (hexact pair.1 pair.2).mp hpair
    obtain ⟨k, hk⟩ := reviewedRetry_of_settled hsettled hretry
    exact ⟨k.episodeId, hfirst ▸ hepisode ▸ .review hk⟩
  case inr hproof =>
    obtain ⟨row, other, hproven, rfl⟩ := hproof
    exact ⟨_, .proof hproven⟩

end Witnesses

section Irreflexive

-- A decision that has been taken stands in the episode.
theorem decision_of_acceptance {episode : Delegation.Episode} {handoff : Delegation.Payload} {task : String}
    (h : (Delegation.delegation_result_acceptance episode handoff task).status ≠ some "pending") :
    episode.metadata.supervisorAcceptance.results.lookup task =
      some (some (Delegation.delegation_result_acceptance episode handoff task)) := by
  revert h
  dsimp only [Delegation.delegation_result_acceptance]
  split
  case isFalse => exact fun h => absurd rfl h
  case isTrue  =>
    split
    case h_1 decision hlookup => exact fun _ => hlookup
    case h_2                  => exact fun h => absurd rfl h

theorem decision_of_decided {status : String} {episode : Delegation.Episode} {handoff : Delegation.Handoff}
    (h : Decided episodes.rootEpisodes deliveries.handoffs k (some status) episode handoff) (hs : status ≠ "pending") :
    ∃ decision : Delegation.Decision, decision.status = some status ∧
      episode.metadata.supervisorAcceptance.results.lookup k.taskBriefId = some (some decision) := by
  refine ⟨_, h.decision, decision_of_acceptance ?_⟩
  rw [h.decision]
  simpa using hs

-- An episode has taken one decision on a task.
theorem status_unique {status status' : String} (hk : HasStatus episodes.rootEpisodes deliveries.handoffs k status)
    (hold : HasStatus episodes.rootEpisodes deliveries.handoffs old status') (hepisode : k.episodeId = old.episodeId)
    (htask : old.taskBriefId = k.taskBriefId) (hs : status ≠ "pending") (hs' : status' ≠ "pending") :
    status = status' := by
  obtain ⟨episode, handoff, hd⟩ := hk
  obtain ⟨episode', handoff', hd'⟩ := hold
  have hrow : episode = episode' := List.inj_on_of_nodup_map episodes.rootEpisodes.unique hd.stored hd'.stored
    (hd.episode.trans (hepisode.trans hd'.episode.symm))
  subst hrow
  obtain ⟨decision, hstatus, hlookup⟩ := decision_of_decided hd hs
  obtain ⟨decision', hstatus', hlookup'⟩ := decision_of_decided hd' hs'
  rw [htask, hlookup] at hlookup'
  cases hlookup'
  exact Option.some.inj (hstatus.symm.trans hstatus')

theorem Retries.task_eq (h : ReflTransGen (Retries episodes deliveries) k old) : old.taskBriefId = k.taskBriefId := by
  induction h
  case refl               => rfl
  case tail _ hretries hi => exact hretries.left.task.trans hi

theorem ReviewedRetry.apart (h : ReviewedRetry episodes deliveries k old) : old.episodeId ≠ k.episodeId := by
  intro hepisode
  cases h.reviewed
  case inl hreviewed =>
    have := status_unique hreviewed h.retried hepisode.symm (Retries.task_eq h.path) (by decide) (by decide)
    exact absurd this (by decide)
  case inr hreviewed =>
    have := status_unique hreviewed h.retried hepisode.symm (Retries.task_eq h.path) (by decide) (by decide)
    exact absurd this (by decide)

theorem apart_of_supersededBy {id' : String} (h : SupersededBy episodes deliveries id id') : id ≠ id' := by
  cases h
  case proof h  => exact h.apart
  case review h => exact h.apart

end Irreflexive

section Chain

theorem Settled.of_reviewed (h : HasStatus episodes.rootEpisodes deliveries.handoffs k "accepted" ∨
    HasStatus episodes.rootEpisodes deliveries.handoffs k "ignored") :
    Settled episodes.rootEpisodes deliveries.handoffs k := by
  cases h
  case inl h => exact .accepted h
  case inr h => exact .ignored h

-- A path of retries goes back in time.
theorem Forward.path (hforward : Forward episodes deliveries)
    (hsettled : Settled episodes.rootEpisodes deliveries.handoffs k)
    (hpath : ReflTransGen (Retries episodes deliveries) k old) (hother : other ∈ episodes.roots.zipIdx)
    (hepisode : r.episodeId other.1 = k.episodeId) : Settled episodes.rootEpisodes deliveries.handoffs old ∧
      (old = k ∨ ∀ row ∈ episodes.roots.zipIdx, r.episodeId row.1 = old.episodeId →
        r.timeKey row.1 row.2 < r.timeKey other.1 other.2) := by
  induction hpath
  case refl => exact ⟨hsettled, .inl rfl⟩
  case tail middle old _ hretries hi =>
    obtain ⟨hmiddle, hbefore⟩ := hi
    refine ⟨.retry hmiddle hretries.left hretries.right, .inr ?_⟩
    intro row hrow hold
    cases hbefore
    case inl hself =>
      subst hself
      exact hforward _ _ hmiddle hretries row hrow other hother hold hepisode
    case inr hbefore =>
      obtain ⟨status, episode, handoff, hdecided⟩ := hmiddle.decided
      obtain ⟨between, hbetween, hid, -⟩ := row_of_decided hdecided
      exact (hforward _ _ hmiddle hretries row hrow between hbetween hold hid).trans (hbefore between hbetween hid)

-- Every witness is later than what it retires.
theorem exists_later (hforward : Forward episodes deliveries) (hrow : row ∈ episodes.roots.zipIdx) {id' : String}
    (h : SupersededBy episodes deliveries (r.episodeId row.1) id') : ∃ other ∈ episodes.roots.zipIdx,
      r.episodeId other.1 = id' ∧ r.timeKey row.1 row.2 < r.timeKey other.1 other.2 := by
  generalize hid : r.episodeId row.1 = id at h
  cases h
  case proof row' other h =>
    cases row_unique hrow h.listed.left hid
    exact ⟨other, h.listed.right, rfl, h.later⟩
  case review k old h =>
    have hsettled := Settled.of_reviewed h.reviewed
    obtain ⟨status, episode, handoff, hdecided⟩ := hsettled.decided
    obtain ⟨other, hother, hepisode, -⟩ := row_of_decided hdecided
    refine ⟨other, hother, hepisode, ?_⟩
    cases (hforward.path hsettled h.path hother hepisode).right
    case inl hself   => exact absurd (congrArg Key.episodeId hself) h.apart
    case inr hbefore => exact hbefore row hrow hid

theorem exists_last {resolved : Finset (String × String)}
    (hresolved : Delegation.resolved_delegation_retries episodes.rootEpisodes deliveries.handoffs iteration =
      some resolved) (hexact : Exact episodes.rootEpisodes deliveries.handoffs resolved)
    (h : r.superseded_runtime_episode_ids deliveries episodes iteration = some ids)
    (hforward : Forward episodes deliveries) {d : Dict} (hd : d ∈ episodes.roots) :
    ∃ last ∈ episodes.roots, ReflTransGen (SupersededBy episodes deliveries) (r.episodeId d) (r.episodeId last) ∧
      r.episodeId last ∉ ids := by
  obtain ⟨i, hi⟩ := List.mem_iff_getElem?.mp hd
  have hrow : (d, i) ∈ episodes.roots.zipIdx := List.mem_zipIdx_iff_getElem?.mpr hi
  have hstep : ∀ row ∈ episodes.roots.zipIdx, r.episodeId row.1 ∈ ids → ∃ other ∈ episodes.roots.zipIdx,
      SupersededBy episodes deliveries (r.episodeId row.1) (r.episodeId other.1) ∧
        r.timeKey row.1 row.2 < r.timeKey other.1 other.2 := by
    intro row hrow hid
    obtain ⟨id', hsuperseded⟩ := exists_supersededBy hresolved hexact h hid
    obtain ⟨other, hother, rfl, hlater⟩ := exists_later hforward hrow hsuperseded
    exact ⟨other, hother, hsuperseded, hlater⟩
  obtain ⟨last, hlast, hpath, hout⟩ := Ascent.exists_exit hstep (d, i) hrow
  have hroot : last.1 ∈ episodes.roots := List.mem_of_getElem? (List.mem_zipIdx_iff_getElem?.mp hlast)
  refine ⟨last.1, hroot, ?_, hout⟩
  clear hlast hout hroot
  induction hpath
  case refl                => exact .refl
  case tail _ _ _ hstep hi => exact hi.tail hstep

end Chain

end RuntimeEpisodes
