import V8AgentOs.RuntimeEpisodes.Chains

-- What a further attempt changes, as long as it has neither been finished nor reviewed.
namespace RuntimeEpisodes

open Python (Dict Json)
open Relation (ReflTransGen)
open Delegation (Exact)

variable {r : Reading} (episodes episodes' : Attempts r) (deliveries deliveries' : Deliveries) (added : Dict)

structure Adds : Prop where
  rows       : ∃ front back, episodes.rows = front ++ back ∧ episodes'.rows = front ++ added :: back
  deliveries : ∀ id, id ≠ r.episodeId added → deliveries'.of id = deliveries.of id
  unfinished : r.state added ∉ ["completed", "merged"]
  unreviewed : ∀ handoff ∈ deliveries'.of (r.episodeId added), ∀ task,
    (Delegation.delegation_result_acceptance (episodeOf added) (handoffOf handoff).read task).status = some "pending"

variable {episodes episodes' deliveries deliveries' added} {ids ids' : Finset String} {id : String} {d d' : Dict}
  {i j i' j' : ℕ}

section Places

-- Where an element stands when another one has been inserted at `n`
def placeAfter (n i : ℕ) : ℕ :=
  if i < n then i else i + 1

theorem placeAfter_lt {n : ℕ} : placeAfter n i < placeAfter n j ↔ i < j := by
  unfold placeAfter
  split
  case isTrue  => split <;> omega
  case isFalse => split <;> omega

theorem exists_placeAfter {n : ℕ} (h : j ≠ n) : ∃ i, placeAfter n i = j := by
  by_cases hlt : j < n
  case pos => exact ⟨j, if_pos hlt⟩
  case neg =>
    have hnot : ¬ j - 1 < n := by omega
    refine ⟨j - 1, (if_neg hnot).trans ?_⟩
    omega

theorem getElem?_placeAfter {α : Type} {front back : List α} {a : α} :
    (front ++ a :: back)[placeAfter front.length i]? = (front ++ back)[i]? := by
  unfold placeAfter
  split
  case isTrue hlt   => rw [List.getElem?_append_left hlt, List.getElem?_append_left hlt]
  case isFalse hnot =>
    have hle := Nat.le_of_not_lt hnot
    rw [List.getElem?_append_right (Nat.le_succ_of_le hle), List.getElem?_append_right hle, Nat.succ_sub hle,
      List.getElem?_cons_succ]

end Places

namespace Adds

variable (h : Adds episodes episodes' deliveries deliveries' added)
include h

theorem roots : episodes'.roots = episodes.roots ∨
    ∃ front back, episodes.roots = front ++ back ∧ episodes'.roots = front ++ added :: back := by
  obtain ⟨front, back, hrows, hrows'⟩ := h.rows
  simp only [Attempts.roots, hrows, hrows', List.filter_append, List.filter_cons]
  split
  case isTrue  => exact .inr ⟨_, _, rfl, rfl⟩
  case isFalse => exact .inl rfl

theorem apart (hd : d ∈ episodes.roots) : r.episodeId d ≠ r.episodeId added := by
  obtain ⟨front, back, hrows, hrows'⟩ := h.rows
  have hmem : d ∈ front ++ back := hrows ▸ mem_roots hd
  have hadded : added ∈ episodes'.rows := by simp [hrows']
  have hnodup : (((front ++ added :: back)).map key).Nodup := hrows' ▸ episodes'.unique
  have hperm : (front ++ added :: back).Perm (added :: (front ++ back)) := List.perm_middle
  have hnodup := (hperm.map key).nodup_iff.mp hnodup
  rw [List.map_cons, List.nodup_cons] at hnodup
  rw [episodeId_eq hd, (episodes'.named added hadded).left]
  exact fun heq => hnodup.left (heq ▸ List.mem_map_of_mem hmem)

theorem mem_roots' : d ∈ episodes'.roots → d ∈ episodes.roots ∨ d = added := by
  cases h.roots
  case inl hsame   => exact fun hd => .inl (hsame ▸ hd)
  case inr hinsert =>
    obtain ⟨front, back, hroots, hroots'⟩ := hinsert
    rw [hroots, hroots']
    simp only [List.mem_append, List.mem_cons]
    tauto

theorem roots_subset (hd : d ∈ episodes.roots) : d ∈ episodes'.roots := by
  cases h.roots
  case inl hsame   => exact hsame ▸ hd
  case inr hinsert =>
    obtain ⟨front, back, hroots, hroots'⟩ := hinsert
    rw [hroots']
    rw [hroots] at hd
    simp only [List.mem_append, List.mem_cons] at hd ⊢
    tauto

-- Every other root has a place among the new ones, in the same order.
theorem exists_place : ∃ place : ℕ → ℕ, (∀ i, episodes'.roots[place i]? = episodes.roots[i]?) ∧
    (∀ i j, place i < place j ↔ i < j) ∧
    ∀ d j, episodes'.roots[j]? = some d → r.episodeId d ≠ r.episodeId added → ∃ i, place i = j := by
  cases h.roots
  case inl hsame   => exact ⟨fun i => i, fun _ => by rw [hsame], fun _ _ => Iff.rfl, fun _ j _ _ => ⟨j, rfl⟩⟩
  case inr hinsert =>
    obtain ⟨front, back, hroots, hroots'⟩ := hinsert
    refine ⟨placeAfter front.length, ?_, fun _ _ => placeAfter_lt, ?_⟩
    case refine_1 => exact fun i => by rw [hroots, hroots', getElem?_placeAfter]
    case refine_2 =>
      intro d j hd hne
      apply exists_placeAfter
      intro hj
      rw [hroots', hj, List.getElem?_append_right (Nat.le_refl _), Nat.sub_self, List.getElem?_cons_zero] at hd
      exact hne (congrArg r.episodeId (Option.some.inj hd)).symm

theorem currentHandoff (hne : r.episodeId d ≠ r.episodeId added) :
    r.currentHandoff deliveries' d = r.currentHandoff deliveries d := by
  rw [Reading.currentHandoff, Reading.currentHandoff, h.deliveries _ hne]

-- The candidates and what they cover do not depend on the places.
theorem candidate_place (hne : r.episodeId d ≠ r.episodeId added) : r.candidate deliveries' (d, j') =
    (r.candidate deliveries (d, j)).map fun c => { c with time := r.timeKey d j' } := by
  rw [Reading.candidate, Reading.candidate]
  dsimp only
  rw [h.currentHandoff hne]
  cases r.currentHandoff deliveries d
  case none         => rfl
  case some handoff =>
    simp only [Option.bind_eq_bind, Option.bind_some]
    split
    case isTrue  => rw [Option.map_some]
    case isFalse => rw [Option.map_none]

theorem provenLater_place {place : ℕ → ℕ} (hplace : ∀ i, episodes'.roots[place i]? = episodes.roots[i]?)
    (hlt : ∀ i j, place i < place j ↔ i < j) (hne : r.episodeId d' ≠ r.episodeId added) :
    ProvenLater episodes' deliveries' (d, place i) (d', place j) ↔ ProvenLater episodes deliveries (d, i) (d', j) := by
  have hlisted {d : Dict} {i : ℕ} : (d, place i) ∈ episodes'.roots.zipIdx ↔ (d, i) ∈ episodes.roots.zipIdx := by
    rw [List.mem_zipIdx_iff_getElem?, List.mem_zipIdx_iff_getElem?, hplace]
  have hlater : r.timeKey d (place i) < r.timeKey d' (place j) ↔ r.timeKey d i < r.timeKey d' j := by
    simp only [Reading.timeKey, Prod.Lex.toLex_lt_toLex, hlt]
  have hcovers : (∃ c, r.candidate deliveries' (d', place j) = some c ∧ r.covers c d = true) ↔
      ∃ c, r.candidate deliveries (d', j) = some c ∧ r.covers c d = true := by
    rw [h.candidate_place hne]
    cases r.candidate deliveries (d', j)
    case none   => simp
    case some c => simp [Reading.covers]
  constructor
  case mp =>
    intro hp
    exact ⟨⟨hlisted.mp hp.listed.left, hlisted.mp hp.listed.right⟩, hp.apart, hp.finished, hlater.mp hp.later,
      hcovers.mp hp.covers⟩
  case mpr =>
    intro hp
    exact ⟨⟨hlisted.mpr hp.listed.left, hlisted.mpr hp.listed.right⟩, hp.apart, hp.finished, hlater.mpr hp.later,
      hcovers.mpr hp.covers⟩

theorem proven_iff (hid : id ≠ r.episodeId added) :
    (∃ row other, ProvenLater episodes' deliveries' row other ∧ r.episodeId row.1 = id) ↔
      ∃ row other, ProvenLater episodes deliveries row other ∧ r.episodeId row.1 = id := by
  obtain ⟨place, hplace, hlt, hother⟩ := h.exists_place
  constructor
  case mp =>
    rintro ⟨⟨d, i'⟩, ⟨d', j'⟩, hp, rfl⟩
    have hd := List.mem_zipIdx_iff_getElem?.mp hp.listed.left
    have hd' := List.mem_zipIdx_iff_getElem?.mp hp.listed.right
    -- The added attempt has not been finished, so that it proves nothing.
    have hne : r.episodeId d' ≠ r.episodeId added := by
      cases h.mem_roots' (List.mem_of_getElem? hd')
      case inl hroot  => exact h.apart hroot
      case inr hadded => exact absurd hp.finished (hadded ▸ h.unfinished)
    obtain ⟨i, rfl⟩ := hother d i' hd hid
    obtain ⟨j, rfl⟩ := hother d' j' hd' hne
    exact ⟨_, _, (h.provenLater_place hplace hlt hne).mp hp, rfl⟩
  case mpr =>
    rintro ⟨⟨d, i⟩, ⟨d', j⟩, hp, rfl⟩
    have hne := h.apart (List.mem_of_getElem? (List.mem_zipIdx_iff_getElem?.mp hp.listed.right))
    exact ⟨_, _, (h.provenLater_place hplace hlt hne).mpr hp, rfl⟩

theorem further : Delegation.Further episodes.rootEpisodes episodes'.rootEpisodes deliveries.handoffs
    deliveries'.handoffs (episodeOf added) := by
  obtain ⟨front, back, -, hrows'⟩ := h.rows
  have hkey : r.episodeId added = (episodeOf added).key :=
    (episodes'.named added (by simp [hrows'])).left
  constructor
  case kept =>
    intro row hrow
    obtain ⟨d, hd, rfl⟩ := List.mem_map.mp hrow
    refine ⟨List.mem_map_of_mem (h.roots_subset hd), ?_⟩
    rw [← hkey]
    exact fun heq => h.apart hd ((episodeId_eq hd).trans heq)
  case rows =>
    intro row hrow
    obtain ⟨d, hd, rfl⟩ := List.mem_map.mp hrow
    exact (h.mem_roots' hd).imp List.mem_map_of_mem (congrArg episodeOf)
  case handoffs =>
    intro episodeId hne
    rw [← hkey] at hne
    exact congrArg (List.map handoffOf) (h.deliveries episodeId hne)
  case pending =>
    intro handoff hhandoff task
    rw [← hkey] at hhandoff
    obtain ⟨g, hg, rfl⟩ := List.mem_map.mp hhandoff
    exact h.unreviewed g hg task

theorem review_iff {resolved : Finset (String × String)} (hid : id ≠ r.episodeId added) :
    (∃ d ∈ episodes'.roots, r.isRetiredByReview deliveries' resolved d = true ∧ r.episodeId d = id) ↔
      ∃ d ∈ episodes.roots, r.isRetiredByReview deliveries resolved d = true ∧ r.episodeId d = id := by
  have hsame {d : Dict} (hne : r.episodeId d ≠ r.episodeId added) :
      r.isRetiredByReview deliveries' resolved d = r.isRetiredByReview deliveries resolved d := by
    rw [Reading.isRetiredByReview, Reading.isRetiredByReview, h.currentHandoff hne]
  constructor
  case mp =>
    rintro ⟨d, hd, hretired, rfl⟩
    refine ⟨d, ?_, hsame hid ▸ hretired, rfl⟩
    exact (h.mem_roots' hd).resolve_right fun hadded => hid (congrArg r.episodeId hadded)
  case mpr =>
    rintro ⟨d, hd, hretired, rfl⟩
    exact ⟨d, h.roots_subset hd, (hsame hid).symm ▸ hretired, rfl⟩

-- The others are superseded as they were.
theorem superseded_iff {resolved resolved' : Finset (String × String)} {iteration iteration' : Delegation.Iteration}
    (hresolved : Delegation.resolved_delegation_retries episodes.rootEpisodes deliveries.handoffs iteration =
      some resolved) (hexact : Exact episodes.rootEpisodes deliveries.handoffs resolved)
    (hids : r.superseded_runtime_episode_ids deliveries episodes iteration = some ids)
    (hresolved' : Delegation.resolved_delegation_retries episodes'.rootEpisodes deliveries'.handoffs iteration' =
      some resolved') (hexact' : Exact episodes'.rootEpisodes deliveries'.handoffs resolved')
    (hids' : r.superseded_runtime_episode_ids deliveries' episodes' iteration' = some ids')
    (hid : id ≠ r.episodeId added) : id ∈ ids' ↔ id ∈ ids := by
  have heq : resolved' = resolved := hexact'.unique (h.further.exact_pairs hexact)
  subst heq
  rw [mem_superseded hresolved' hids', mem_superseded hresolved hids, h.proven_iff hid, h.review_iff hid]

end Adds

section Retirement

-- What is claimed of the superseded episodes
structure Retirement (episodes : Attempts r) (deliveries : Deliveries) (iteration : Delegation.Iteration)
    (ids : Finset String) : Prop where
  computed    : r.superseded_runtime_episode_ids deliveries episodes iteration = some ids
  irreflexive : ∀ id, ¬ SupersededBy episodes deliveries id id
  witnessed   : ∀ id ∈ ids, ∃ other, SupersededBy episodes deliveries id other
  chain       : Forward episodes deliveries → ∀ id ∈ ids, ∃ last ∈ episodes.roots,
    ReflTransGen (SupersededBy episodes deliveries) id (r.episodeId last) ∧ r.episodeId last ∉ ids
  further     : ∀ episodes' deliveries' added iteration', Adds episodes episodes' deliveries deliveries' added →
    ∃ ids', r.superseded_runtime_episode_ids deliveries' episodes' iteration' = some ids' ∧
      ∀ id, id ≠ r.episodeId added → (id ∈ ids' ↔ id ∈ ids)

theorem exists_superseded (episodes : Attempts r) (deliveries : Deliveries) (iteration : Delegation.Iteration) :
    ∃ resolved ids, Delegation.resolved_delegation_retries episodes.rootEpisodes deliveries.handoffs iteration =
      some resolved ∧ Exact episodes.rootEpisodes deliveries.handoffs resolved ∧
        r.superseded_runtime_episode_ids deliveries episodes iteration = some ids := by
  obtain ⟨resolved, hresolved, hexact⟩ :=
    @Delegation.resolved_exact episodes.rootEpisodes deliveries.handoffs iteration
  exact ⟨resolved, _, hresolved, hexact, by rw [Reading.superseded_runtime_episode_ids, hresolved, Option.map_some]⟩

theorem root_of_superseded {resolved : Finset (String × String)} {iteration : Delegation.Iteration}
    (hresolved : Delegation.resolved_delegation_retries episodes.rootEpisodes deliveries.handoffs iteration =
      some resolved) (hids : r.superseded_runtime_episode_ids deliveries episodes iteration = some ids)
    (hid : id ∈ ids) : ∃ d ∈ episodes.roots, r.episodeId d = id := by
  cases (mem_superseded hresolved hids).mp hid
  case inl hreview =>
    obtain ⟨d, hd, -, hid⟩ := hreview
    exact ⟨d, hd, hid⟩
  case inr hproven =>
    obtain ⟨row, other, hproven, hid⟩ := hproven
    exact ⟨row.1, List.mem_of_getElem? (List.mem_zipIdx_iff_getElem?.mp hproven.listed.left), hid⟩

theorem superseded_retired (r : Reading) (episodes : Attempts r) (deliveries : Deliveries)
    (iteration : Delegation.Iteration) : ∃ ids, Retirement episodes deliveries iteration ids := by
  obtain ⟨resolved, ids, hresolved, hexact, hids⟩ := exists_superseded episodes deliveries iteration
  refine ⟨ids, hids, fun id h => apart_of_supersededBy h rfl, ?witnessed, ?chain, ?further⟩
  case witnessed => exact fun id hid => exists_supersededBy hresolved hexact hids hid
  case chain =>
    intro hforward id hid
    obtain ⟨d, hd, rfl⟩ := root_of_superseded hresolved hids hid
    exact exists_last hresolved hexact hids hforward hd
  case further =>
    intro episodes' deliveries' added iteration' hadds
    obtain ⟨resolved', ids', hresolved', hexact', hids'⟩ := exists_superseded episodes' deliveries' iteration'
    refine ⟨ids', hids', fun id hid => ?_⟩
    exact hadds.superseded_iff hresolved hexact hids hresolved' hexact' hids' hid

end Retirement

section Sample

-- What retires an episode retires it as well if more is resolved.
theorem isRetiredByReview_mono {resolved resolved' : Finset (String × String)} (hsubset : resolved ⊆ resolved')
    (h : r.isRetiredByReview deliveries resolved d = true) : r.isRetiredByReview deliveries resolved' d = true := by
  simp only [Reading.isRetiredByReview, Bool.and_eq_true, Option.any_eq_true, List.all_eq_true, Bool.or_eq_true,
    decide_eq_true_iff] at h ⊢
  obtain ⟨⟨⟨pair, hpair, hfirst⟩, hkind⟩, handoff, hhandoff, hresults, hall⟩ := h
  refine ⟨⟨⟨pair, hsubset hpair, hfirst⟩, hkind⟩, handoff, hhandoff, hresults, ?_⟩
  exact fun item hitem => (hall item hitem).imp_left fun h => hsubset h

def sampleReading : Reading where
  text       := Python.asciiText
  casefold s := String.ofList (s.toList.map Char.toLower)

-- An attempt at two tasks. The result for one was accepted, and the result for the other is to be retried. The attempt
-- is itself a retry of the other attempt.
def sampleAttempt (id other accepted retried : String) : Dict :=
  let decision := fun (status : String) => Json.dict [("status", .str status)]
  let results := Json.dict [(accepted, decision "accepted"), (retried, decision "retry")]
  let head := [("handoffRefId", .str "ref"), ("payloadDigest", .str "digest"), ("results", results)]
  let source := [("episodeId", .str other), ("handoffRefId", .str "ref"), ("payloadDigest", .str "digest"),
    ("taskBriefId", .str accepted)]
  [("episodeId", .str id), ("kind", .str "delegation"), ("state", .str "completed"), ("resultRef", .str "ref"),
    ("metadata", .dict [("supervisorAcceptance", .dict head), ("retryOfResults", .list [.dict source])])]

def sampleDelivery : Dict :=
  [("handoffRefId", .str "ref"), ("payloadDigest", .str "digest"),
    ("results", .list [.dict [("taskBriefId", .str "t")], .dict [("taskBriefId", .str "u")]])]

def sampleAttempts : Attempts sampleReading where
  rows   := [sampleAttempt "a" "b" "t" "u", sampleAttempt "b" "a" "u" "t"]
  unique := by decide +kernel
  named  := by decide +kernel

def sampleDeliveries : Deliveries where
  of _      := [sampleDelivery]
  immutable := by
    intro _ h hh h' hh' _ _
    rw [List.mem_singleton.mp hh, List.mem_singleton.mp hh']

-- Each of the attempts retires the other one.
theorem sample_all_superseded (iteration : Delegation.Iteration) : ∃ ids,
    sampleReading.superseded_runtime_episode_ids sampleDeliveries sampleAttempts iteration = some ids ∧
      "a" ∈ ids ∧ "b" ∈ ids := by
  obtain ⟨resolved, ids, hresolved, hexact, hids⟩ := exists_superseded sampleAttempts sampleDeliveries iteration
  have hretry {old k : Delegation.Key} (hk : Delegation.status? (Delegation.current sampleAttempts.rootEpisodes
      sampleDeliveries.handoffs) k = some "accepted") (hold : old ∈ Delegation.retries sampleAttempts.rootEpisodes
        (Delegation.current sampleAttempts.rootEpisodes sampleDeliveries.handoffs) k) :
      (old.episodeId, old.taskBriefId) ∈ resolved := by
    obtain ⟨hretry, hstatus⟩ := Delegation.mem_retries.mp hold
    exact (hexact _ _).mpr ⟨old, rfl, rfl, hstatus, .retry (.accepted (Delegation.status?_eq.mp hk)) hretry hstatus⟩
  have hb : ("b", "t") ∈ resolved :=
    @hretry ⟨"b", "ref", "digest", "t"⟩ ⟨"a", "ref", "digest", "t"⟩ (by decide +kernel) (by decide +kernel)
  have ha : ("a", "u") ∈ resolved :=
    @hretry ⟨"a", "ref", "digest", "u"⟩ ⟨"b", "ref", "digest", "u"⟩ (by decide +kernel) (by decide +kernel)
  have hsubset : ({("a", "u"), ("b", "t")} : Finset (String × String)) ⊆ resolved := by
    simp [Finset.insert_subset_iff, ha, hb]
  have hroots : sampleAttempts.roots = sampleAttempts.rows :=
    List.filter_eq_self.mpr (by decide +kernel)
  refine ⟨ids, hids, ?_, ?_⟩
  case refine_1 =>
    apply (mem_superseded hresolved hids).mpr
    refine .inl ⟨sampleAttempt "a" "b" "t" "u", ?_, isRetiredByReview_mono hsubset ?_, by decide +kernel⟩
    case refine_2 => decide +kernel
    rw [hroots]
    exact List.mem_cons_self
  case refine_2 =>
    apply (mem_superseded hresolved hids).mpr
    refine .inl ⟨sampleAttempt "b" "a" "u" "t", ?_, isRetiredByReview_mono hsubset ?_, by decide +kernel⟩
    case refine_2 => decide +kernel
    rw [hroots]
    exact List.mem_cons_of_mem _ List.mem_cons_self

-- No chain leads to an attempt that is left.
theorem retired_in_circle : ∃ (r : Reading) (episodes : Attempts r) (deliveries : Deliveries), ∀ iteration, ∃ ids,
    r.superseded_runtime_episode_ids deliveries episodes iteration = some ids ∧
      ¬ ∀ id ∈ ids, ∃ last ∈ episodes.roots,
        ReflTransGen (SupersededBy episodes deliveries) id (r.episodeId last) ∧ r.episodeId last ∉ ids := by
  refine ⟨sampleReading, sampleAttempts, sampleDeliveries, fun iteration => ?_⟩
  obtain ⟨ids, hids, ha, hb⟩ := sample_all_superseded iteration
  refine ⟨ids, hids, fun h => ?_⟩
  obtain ⟨last, hlast, -, hout⟩ := h "a" ha
  have hnames : ∀ d ∈ sampleAttempts.rows, sampleReading.episodeId d = "a" ∨ sampleReading.episodeId d = "b" := by
    decide +kernel
  cases hnames last (mem_roots hlast)
  case inl hid => exact hout (hid ▸ ha)
  case inr hid => exact hout (hid ▸ hb)

end Sample

end RuntimeEpisodes
