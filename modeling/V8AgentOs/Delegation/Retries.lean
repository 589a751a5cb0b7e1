import V8AgentOs.Delegation.Results
import V8AgentOs.Lib.Saturation
import V8AgentOs.Lib.Lookup

-- Which retries are settled by later results.
namespace Delegation

variable (episodes : Episodes) (handoffs : Handoffs)

-- The episode's current version of a result, delivered intact, and the decision about it
structure Decided (k : Key) (status : Option String) (row : Episode) (handoff : Handoff) : Prop where
  stored    : row ∈ episodes.rows
  episode   : row.key = k.episodeId
  delivered : handoff ∈ handoffs.of k.episodeId
  intact    : handoff.payloadCorrupted = false
  digest    : handoff.read.payloadDigest = some k.payloadDigest ∧ k.payloadDigest ≠ ""
  current   : row.ref = some k.handoffRefId ∧ k.handoffRefId ≠ ""
  version   : handoff.read.ref = some k.handoffRefId
  task      : ∃ result ∈ delegation_handoff_results handoff.read, result.task = k.taskBriefId
  decision  : (delegation_result_acceptance row handoff.read k.taskBriefId).status = status

def HasStatus (k : Key) (status : String) : Prop :=
  ∃ row handoff, Decided episodes handoffs k (some status) row handoff

-- The result of an episode is a retry of an older one: the provenance of the episode names the older version, and both
-- are about the same task in the same session, run and parent.
structure RetryOf (k old : Key) : Prop where
  named : ∃ row ∈ episodes.rows, ∃ prior ∈ episodes.rows, ∃ source ∈ row.metadata.retryOfResults,
    row.key = k.episodeId ∧ prior.key = old.episodeId ∧ source.key = some old ∧ prior.scope = row.scope
  task  : old.taskBriefId = k.taskBriefId

-- Results that were accepted or ignored are settled, and so are the retries that they go back to.
inductive Settled : Key → Prop
  | accepted {k} : HasStatus episodes handoffs k "accepted" → Settled k
  | ignored {k}  : HasStatus episodes handoffs k "ignored" → Settled k
  | retry {k old} : Settled k → RetryOf episodes k old → HasStatus episodes handoffs old "retry" → Settled old

-- The same episodes with the same deliveries of their current versions, in any order. Handoffs of older versions and
-- corrupted ones make no difference.
structure Same (episodes' : Episodes) (handoffs' : Handoffs) : Prop where
  rows     : episodes.rows.Perm episodes'.rows
  handoffs : ∀ row ∈ episodes.rows,
    ((handoffs.of row.key).filter (delivered row)).Perm ((handoffs'.of row.key).filter (delivered row))

variable {episodes handoffs} {episodes' : Episodes} {handoffs' : Handoffs} {k old : Key}
  {status status' : Option String} {row row' : Episode} {handoff handoff' : Handoff} {text : String}
  {s s' s'' : Search} {iteration : Iteration} {fuel : ℕ}

theorem truthy_iff {value : Option String} : truthy value = true ↔ ∃ text, value = some text ∧ text ≠ "" := by
  cases value
  case none      => simp [truthy]
  case some text => simp [truthy]

theorem delivered_eq_true : Delegation.delivered row handoff = true ↔
    handoff.payloadCorrupted = false ∧ (∃ digest, handoff.read.payloadDigest = some digest ∧ digest ≠ "") ∧
      ∃ ref, row.ref = some ref ∧ ref ≠ "" ∧ handoff.read.ref = some ref := by
  simp only [Delegation.delivered, Bool.and_eq_true, Bool.not_eq_true', truthy_iff, decide_eq_true_eq, and_assoc]
  constructor
  case mp =>
    intro ⟨hintact, hdigest, ⟨ref, href, hne⟩, hsame⟩
    exact ⟨hintact, hdigest, ref, href, hne, hsame ▸ href⟩
  case mpr =>
    intro ⟨hintact, hdigest, ref, href, hne, hsame⟩
    exact ⟨hintact, hdigest, ⟨ref, href, hne⟩, href.trans hsame.symm⟩

theorem Decided.of_assigned (hrow : row ∈ episodes.rows) (hhandoff : handoff ∈ handoffs.of row.key)
    (h : (k, status) ∈ assigned row handoff) : Decided episodes handoffs k status row handoff := by
  unfold assigned at h
  split at h
  case isFalse => cases h
  case isTrue hdelivered =>
    obtain ⟨result, hresult, heq⟩ := List.mem_map.mp h
    obtain ⟨hintact, ⟨digest, hdigest, hdigestNe⟩, ref, href, hrefNe, hversion⟩ := delivered_eq_true.mp hdelivered
    cases heq
    exact {
      stored    := hrow
      episode   := rfl
      delivered := hhandoff
      intact    := hintact
      digest    := by simp [hdigest, hdigestNe]
      current   := by simp [href, hrefNe]
      version   := by simp [href, hversion]
      task      := ⟨result, hresult, rfl⟩
      decision  := rfl
    }

theorem Decided.assigned (h : Decided episodes handoffs k status row handoff) :
    (k, status) ∈ Delegation.assigned row handoff := by
  have hdelivered : Delegation.delivered row handoff = true :=
    delivered_eq_true.mpr ⟨h.intact, ⟨_, h.digest⟩, _, h.current.left, h.current.right, h.version⟩
  obtain ⟨result, hresult, htask⟩ := h.task
  unfold Delegation.assigned
  rw [if_pos hdelivered]
  apply List.mem_map.mpr
  exists result, hresult
  cases k
  case mk episodeId ref digest task =>
    simp only [h.episode, h.current.left, h.digest.left, htask, Option.getD_some, h.decision]

theorem mem_current : (k, status) ∈ current episodes handoffs ↔
    ∃ row handoff, Decided episodes handoffs k status row handoff := by
  simp only [current, List.mem_flatMap]
  constructor
  case mp =>
    intro ⟨row, hrow, handoff, hhandoff, h⟩
    exact ⟨row, handoff, .of_assigned hrow hhandoff h⟩
  case mpr =>
    intro ⟨row, handoff, h⟩
    exact ⟨row, h.stored, handoff, h.episode ▸ h.delivered, h.assigned⟩

-- A result version has one decision.
theorem Decided.unique (h : Decided episodes handoffs k status row handoff)
    (h' : Decided episodes handoffs k status' row' handoff') : status = status' := by
  have hrow : row = row' := by
    have hget := episodes.get?_of_mem h.stored
    rw [h.episode, ← h'.episode, episodes.get?_of_mem h'.stored] at hget
    exact (Option.some.inj hget).symm
  have hread : handoff.read = handoff'.read :=
    handoffs.immutable _ _ h.delivered _ h'.delivered (h.version.trans h'.version.symm)
      (h.digest.left.trans h'.digest.left.symm)
  rw [← h.decision, ← h'.decision, hrow, hread]

theorem status?_eq {text : String} :
    status? (current episodes handoffs) k = some text ↔ HasStatus episodes handoffs k text := by
  constructor
  case mp =>
    intro h
    exact mem_current.mp (List.mem_reverse.mp (Lookup.mem_of_lookup (Option.join_eq_some_iff.mp h)))
  case mpr =>
    intro ⟨row, handoff, h⟩
    have hmem : (k, some text) ∈ (current episodes handoffs).reverse :=
      List.mem_reverse.mpr (mem_current.mpr ⟨row, handoff, h⟩)
    have hunique : ∀ status, (k, status) ∈ (current episodes handoffs).reverse → status = some text := by
      intro status hstatus
      obtain ⟨row', handoff', h'⟩ := mem_current.mp (List.mem_reverse.mp hstatus)
      exact h'.unique h
    rw [status?, Lookup.lookup_of_unique hmem hunique]
    rfl

theorem union_sdiff_sdiff {r t u : Finset Key} (hrt : r ⊆ t) (htu : t ⊆ u) : (t \ r) ∪ (u \ t) = u \ r := by
  ext x
  have hr := @hrt x
  have ht := @htu x
  simp only [Finset.mem_union, Finset.mem_sdiff]
  grind

-- What a search does: it resolves more, and the replacements are what it has added.
structure Grown (s s' : Search) : Prop where
  subset       : s.resolved ⊆ s'.resolved
  replacements : s'.replacements = s.replacements ∪ (s'.resolved \ s.resolved)
  changed      : s'.changed = true ↔ s.changed = true ∨ s'.resolved ≠ s.resolved

theorem Grown.refl : Grown s s where
  subset       := Finset.Subset.refl _
  replacements := by simp
  changed      := by simp

theorem Grown.trans (h : Grown s s') (h' : Grown s' s'') : Grown s s'' where
  subset       := h.subset.trans h'.subset
  replacements := by
    have hsubset := h'.subset
    have hsubset' := h.subset
    rw [h'.replacements, h.replacements]
    grind
  changed      := by
    have hsubset := h'.subset
    have hsubset' := h.subset
    rw [h'.changed, h.changed]
    grind

-- A source of a resolved result is a retry of it.
def Retries (episodes : Episodes) (current : List (Key × Option String)) (key : Key) (row : Episode) (old_key : Key) :
    Prop :=
  status? current old_key = some "retry" ∧ old_key.taskBriefId = key.taskBriefId ∧
    ((episodes.get? old_key.episodeId).getD {}).scope = row.scope

instance {episodes : Episodes} {current : List (Key × Option String)} {key : Key} {row : Episode} {old_key : Key} :
    Decidable (Retries episodes current key row old_key) :=
  inferInstanceAs (Decidable (_ ∧ _ ∧ _))

-- The retries that a resolved result goes back to
def retries (episodes : Episodes) (current : List (Key × Option String)) (key : Key) : List Key :=
  match episodes.get? key.episodeId with
  | none     => []
  | some row => row.metadata.retryOfResults.filterMap fun source =>
    source.key.filter (Retries episodes current key row ·)

def grow (s : Search) (old_key : Key) : Search :=
  if old_key ∈ s.resolved then s
  else { resolved := insert old_key s.resolved, replacements := insert old_key s.replacements, changed := true }

theorem resolved_grow : (grow s old).resolved = insert old s.resolved := by
  unfold grow
  split
  case isTrue h  => exact (Finset.insert_eq_of_mem h).symm
  case isFalse h => rfl

theorem grown_grow : Grown s (grow s old) := by
  unfold grow
  split
  case isTrue h => exact .refl
  case isFalse h =>
    exact {
      subset       := Finset.subset_insert _ _
      replacements := by grind
      changed      := by simpa using .inr h
    }

theorem resolved_foldl_grow {l : List Key} :
    (l.foldl grow s).resolved = l.foldl (fun t b => insert b t) s.resolved := by
  induction l generalizing s
  case nil => rfl
  case cons old l hi => rw [List.foldl_cons, hi, resolved_grow, List.foldl_cons]

theorem grown_foldl_grow {l : List Key} : Grown s (l.foldl grow s) := by
  induction l generalizing s
  case nil => exact .refl
  case cons old l hi => exact grown_grow.trans hi

variable {current : List (Key × Option String)}

theorem visit_eq {source : Source} : visit episodes current k row s source =
    (source.key.filter (Retries episodes current k row ·)).toList.foldl grow s := by
  unfold visit
  cases source.key
  case none => rfl
  case some old =>
    have hskip : (old ∈ s.resolved ∨ status? current old ≠ some "retry" ∨ old.taskBriefId ≠ k.taskBriefId ∨
        ((episodes.get? old.episodeId).getD {}).scope ≠ row.scope) ↔
        old ∈ s.resolved ∨ ¬Retries episodes current k row old := by
      simp only [Retries, not_and_or]
    rw [Option.filter_some]
    simp only [hskip]
    by_cases hretries : Retries episodes current k row old
    case neg => simp [hretries]
    case pos => simp [hretries, grow]

theorem visitKey_eq : visitKey episodes current s k = (retries episodes current k).foldl grow s := by
  unfold visitKey retries
  cases episodes.get? k.episodeId
  case none => rfl
  case some row =>
    simp only
    generalize row.metadata.retryOfResults = sources
    induction sources generalizing s
    case nil => rfl
    case cons source sources hi =>
      rw [List.foldl_cons, hi, List.filterMap_cons, visit_eq]
      cases source.key.filter (Retries episodes current k row ·)
      case none     => rfl
      case some old => rfl

theorem resolved_foldl_visitKey {keys : List Key} : (keys.foldl (visitKey episodes current) s).resolved =
    keys.foldl (fun t k => (retries episodes current k).foldl (fun t b => insert b t) t) s.resolved := by
  induction keys generalizing s
  case nil => rfl
  case cons k keys hi => rw [List.foldl_cons, hi, visitKey_eq, resolved_foldl_grow, List.foldl_cons]

theorem grown_foldl_visitKey {keys : List Key} : Grown s (keys.foldl (visitKey episodes current) s) := by
  induction keys generalizing s
  case nil => exact .refl
  case cons k keys hi =>
    have hgrown : Grown s (visitKey episodes current s k) := visitKey_eq ▸ grown_foldl_grow
    exact hgrown.trans hi

-- The search is a saturation, and its replacements are what it adds.
theorem search_eq : search episodes current iteration fuel s =
    (Saturation.saturate iteration.order (retries episodes current) fuel s.resolved).map fun t =>
      { resolved := t, replacements := s.replacements ∪ (t \ s.resolved), changed := false } := by
  induction fuel generalizing s
  case zero => rfl
  case succ fuel hi =>
    have hresolved : ((iteration.order s.resolved).foldl (visitKey episodes current)
        { s with changed := false }).resolved =
        Saturation.round iteration.order (retries episodes current) s.resolved := resolved_foldl_visitKey
    have hgrown : Grown { s with changed := false } ((iteration.order s.resolved).foldl (visitKey episodes current)
        { s with changed := false }) := grown_foldl_visitKey
    rw [search, Saturation.saturate]
    generalize (iteration.order s.resolved).foldl (visitKey episodes current) { s with changed := false } = s' at *
    have hsubset := hgrown.subset
    have hreplacements := hgrown.replacements
    have hchanged := hgrown.changed
    simp only [Bool.false_eq_true, false_or] at hsubset hreplacements hchanged
    cases hc : s'.changed
    case false =>
      have hsame : s'.resolved = s.resolved := by simpa [hc] using hchanged
      have hround : Saturation.round iteration.order (retries episodes current) s.resolved = s.resolved :=
        hresolved ▸ hsame
      cases s'
      simp_all
    case true =>
      have hne : s'.resolved ≠ s.resolved := hchanged.mp hc
      simp only [if_true, hi, ← hresolved, if_neg hne]
      cases hs : Saturation.saturate iteration.order (retries episodes current) fuel s'.resolved
      case none => rfl
      case some t =>
        have hgrows : s'.resolved ⊆ t :=
          fun b hb => (Saturation.mem_saturate iteration.lists hs).mpr ⟨b, hb, .refl⟩
        rw [Option.map_some, Option.map_some, hreplacements, Finset.union_assoc, union_sdiff_sdiff hsubset hgrows]

theorem mem_reviewed : k ∈ reviewed (Delegation.current episodes handoffs) ↔
    HasStatus episodes handoffs k "accepted" ∨ HasStatus episodes handoffs k "ignored" := by
  unfold reviewed
  rw [Finset.mem_filter, status?_eq, status?_eq]
  constructor
  case mp  => exact fun h => h.right
  case mpr =>
    intro h
    refine ⟨?listed, h⟩
    apply List.mem_toFinset.mpr
    cases h
    case inl h =>
      exact List.mem_map.mpr ⟨(k, some "accepted"), mem_current.mpr h, rfl⟩
    case inr h =>
      exact List.mem_map.mpr ⟨(k, some "ignored"), mem_current.mpr h, rfl⟩

theorem HasStatus.found (h : HasStatus episodes handoffs k text) :
    ∃ row ∈ episodes.rows, row.key = k.episodeId ∧ episodes.get? k.episodeId = some row := by
  obtain ⟨row, handoff, h⟩ := h
  exact ⟨row, h.stored, h.episode, h.episode ▸ episodes.get?_of_mem h.stored⟩

theorem mem_retries : old ∈ retries episodes (Delegation.current episodes handoffs) k ↔
    RetryOf episodes k old ∧ HasStatus episodes handoffs old "retry" := by
  unfold retries
  constructor
  case mp =>
    cases hrow : episodes.get? k.episodeId
    case none => simp
    case some row =>
      intro h
      obtain ⟨source, hsource, hkey⟩ := List.mem_filterMap.mp h
      obtain ⟨hkey, hretries⟩ := Option.filter_eq_some_iff.mp hkey
      obtain ⟨hstatus, htask, hscope⟩ := of_decide_eq_true hretries
      have hstatus := status?_eq.mp hstatus
      obtain ⟨prior, hprior, hpriorKey, hget⟩ := hstatus.found
      rw [hget] at hscope
      have hrowKey := episodes.key_of_get? hrow
      have hrow := episodes.mem_of_get? hrow
      exact ⟨⟨⟨row, hrow, prior, hprior, source, hsource, hrowKey, hpriorKey, hkey, hscope⟩, htask⟩, hstatus⟩
  case mpr =>
    intro ⟨hretry, hstatus⟩
    obtain ⟨row, hrow, prior, hprior, source, hsource, hrowKey, hpriorKey, hkey, hscope⟩ := hretry.named
    rw [← hrowKey, episodes.get?_of_mem hrow]
    have hretries : Retries episodes (Delegation.current episodes handoffs) k row old := by
      refine ⟨status?_eq.mpr hstatus, hretry.task, ?scope⟩
      rw [← hpriorKey, episodes.get?_of_mem hprior]
      exact hscope
    exact List.mem_filterMap.mpr ⟨source, hsource, Option.filter_eq_some_iff.mpr ⟨hkey, decide_eq_true hretries⟩⟩

theorem reached_iff : Saturation.Reached (retries episodes (Delegation.current episodes handoffs))
    (reviewed (Delegation.current episodes handoffs)) k ↔ Settled episodes handoffs k := by
  constructor
  case mp =>
    intro ⟨first, hfirst, hpath⟩
    induction hpath
    case refl =>
      cases mem_reviewed.mp hfirst
      case inl h => exact .accepted h
      case inr h => exact .ignored h
    case tail k old _ hretry hk =>
      obtain ⟨hretry, hstatus⟩ := mem_retries.mp hretry
      exact .retry hk hretry hstatus
  case mpr =>
    intro h
    induction h
    case accepted k h => exact ⟨k, mem_reviewed.mpr (.inl h), .refl⟩
    case ignored k h  => exact ⟨k, mem_reviewed.mpr (.inr h), .refl⟩
    case retry k old _ hretry hstatus hk =>
      obtain ⟨first, hfirst, hpath⟩ := hk
      exact ⟨first, hfirst, hpath.tail (mem_retries.mpr ⟨hretry, hstatus⟩)⟩

-- The status with which a result is settled
theorem Settled.status_mem (h : Settled episodes handoffs k) (hd : Decided episodes handoffs k status row handoff) :
    status ∈ [some "accepted", some "ignored", some "retry"] := by
  cases h
  case accepted h =>
    obtain ⟨row', handoff', h⟩ := h
    simp [hd.unique h]
  case ignored h =>
    obtain ⟨row', handoff', h⟩ := h
    simp [hd.unique h]
  case retry h =>
    obtain ⟨row', handoff', h⟩ := h
    simp [hd.unique h]

theorem Settled.decided (h : Settled episodes handoffs k) :
    ∃ status row handoff, Decided episodes handoffs k status row handoff := by
  cases h
  case accepted h => exact ⟨_, h⟩
  case ignored h  => exact ⟨_, h⟩
  case retry h    => exact ⟨_, h⟩

-- What is settled and was not reviewed for good is a retry.
theorem settled_retry_iff : Settled episodes handoffs k ∧ k ∉ reviewed (Delegation.current episodes handoffs) ↔
    HasStatus episodes handoffs k "retry" ∧ Settled episodes handoffs k := by
  constructor
  case mp =>
    intro ⟨h, hn⟩
    refine ⟨?status, h⟩
    cases h
    case accepted h => exact absurd (mem_reviewed.mpr (.inl h)) hn
    case ignored h  => exact absurd (mem_reviewed.mpr (.inr h)) hn
    case retry h    => exact h
  case mpr =>
    intro ⟨hretry, h⟩
    refine ⟨h, ?reviewed⟩
    intro hreviewed
    obtain ⟨row, handoff, hretry⟩ := hretry
    cases mem_reviewed.mp hreviewed
    case inl h =>
      obtain ⟨row', handoff', h⟩ := h
      exact absurd (hretry.unique h) (by decide)
    case inr h =>
      obtain ⟨row', handoff', h⟩ := h
      exact absurd (hretry.unique h) (by decide)

theorem Same.symm (h : Same episodes handoffs episodes' handoffs') : Same episodes' handoffs' episodes handoffs where
  rows     := h.rows.symm
  handoffs := fun row hrow => (h.handoffs row (h.rows.mem_iff.mpr hrow)).symm

theorem Same.decided (h : Same episodes handoffs episodes' handoffs')
    (hd : Decided episodes handoffs k status row handoff) : Decided episodes' handoffs' k status row handoff := by
  have hdelivered : Delegation.delivered row handoff = true :=
    delivered_eq_true.mpr ⟨hd.intact, ⟨_, hd.digest⟩, _, hd.current.left, hd.current.right, hd.version⟩
  have hmem : handoff ∈ (handoffs.of row.key).filter (Delegation.delivered row) :=
    List.mem_filter.mpr ⟨hd.episode ▸ hd.delivered, hdelivered⟩
  have hmem := (h.handoffs row hd.stored).mem_iff.mp hmem
  exact { hd with
    stored    := h.rows.mem_iff.mp hd.stored
    delivered := hd.episode ▸ List.mem_of_mem_filter hmem
  }

theorem Same.hasStatus (h : Same episodes handoffs episodes' handoffs') (hs : HasStatus episodes handoffs k text) :
    HasStatus episodes' handoffs' k text := by
  obtain ⟨row, handoff, hd⟩ := hs
  exact ⟨row, handoff, h.decided hd⟩

theorem Same.retryOf (h : Same episodes handoffs episodes' handoffs') (hr : RetryOf episodes k old) :
    RetryOf episodes' k old := by
  obtain ⟨row, hrow, prior, hprior, hnamed⟩ := hr.named
  exact ⟨⟨row, h.rows.mem_iff.mp hrow, prior, h.rows.mem_iff.mp hprior, hnamed⟩, hr.task⟩

theorem Same.settled (h : Same episodes handoffs episodes' handoffs') (hs : Settled episodes handoffs k) :
    Settled episodes' handoffs' k := by
  induction hs
  case accepted hs           => exact .accepted (h.hasStatus hs)
  case ignored hs            => exact .ignored (h.hasStatus hs)
  case retry hretry hs hk    => exact .retry hk (h.retryOf hretry) (h.hasStatus hs)

-- The pairs are those of the settled retries.
def Exact (episodes : Episodes) (handoffs : Handoffs) (r : Finset (String × String)) : Prop :=
  ∀ episodeId task, (episodeId, task) ∈ r ↔
    ∃ k, k.episodeId = episodeId ∧ k.taskBriefId = task ∧ HasStatus episodes handoffs k "retry" ∧
      Settled episodes handoffs k

theorem mem_keys (h : HasStatus episodes handoffs k text) :
    k ∈ ((Delegation.current episodes handoffs).map Prod.fst).toFinset :=
  List.mem_toFinset.mpr (List.mem_map.mpr ⟨(k, some text), mem_current.mpr h, rfl⟩)

-- Every round but the last resolves a result more.
theorem saturate_isSome : (Saturation.saturate iteration.order (retries episodes (Delegation.current episodes handoffs))
    ((Delegation.current episodes handoffs).length + 1) (reviewed (Delegation.current episodes handoffs))).isSome := by
  have hcard : ((Delegation.current episodes handoffs).map Prod.fst).toFinset.card ≤
      (Delegation.current episodes handoffs).length := by
    simpa using ((Delegation.current episodes handoffs).map Prod.fst).toFinset_card_le
  have hreviewed : reviewed (Delegation.current episodes handoffs) ⊆
      ((Delegation.current episodes handoffs).map Prod.fst).toFinset := Finset.filter_subset _ _
  apply Saturation.saturate_isSome iteration.lists hreviewed
  case hu => exact fun k _ old hold => mem_keys (mem_retries.mp hold).right
  case hn => omega

-- The search ends, and it finds exactly the retries that are settled.
theorem resolved_exact :
    ∃ r, resolved_delegation_retries episodes handoffs iteration = some r ∧ Exact episodes handoffs r := by
  obtain ⟨t, ht⟩ := Option.isSome_iff_exists.mp (@saturate_isSome episodes handoffs iteration)
  exists (t \ reviewed (Delegation.current episodes handoffs)).image fun key => (key.episodeId, key.taskBriefId)
  constructor
  case left =>
    simp only [resolved_delegation_retries, search_eq, ht, Option.map_some, Finset.empty_union]
  case right =>
    intro episodeId task
    have hmem : ∀ k, k ∈ t \ reviewed (Delegation.current episodes handoffs) ↔
        HasStatus episodes handoffs k "retry" ∧ Settled episodes handoffs k := by
      intro k
      rw [Finset.mem_sdiff, Saturation.mem_saturate iteration.lists ht, reached_iff, settled_retry_iff]
    simp only [Finset.mem_image, hmem, Prod.mk.injEq]
    grind

theorem Same.exact {r : Finset (String × String)} (h : Same episodes handoffs episodes' handoffs')
    (hr : Exact episodes' handoffs' r) : Exact episodes handoffs r := by
  intro episodeId task
  rw [hr]
  constructor
  case mp  => exact fun ⟨k, he, ht, hs, hsettled⟩ => ⟨k, he, ht, h.symm.hasStatus hs, h.symm.settled hsettled⟩
  case mpr => exact fun ⟨k, he, ht, hs, hsettled⟩ => ⟨k, he, ht, h.hasStatus hs, h.settled hsettled⟩

theorem Exact.unique {r r' : Finset (String × String)} (h : Exact episodes handoffs r)
    (h' : Exact episodes handoffs r') : r = r' := by
  ext pair
  rw [h pair.1 pair.2, h' pair.1 pair.2]

-- What is resolved: the search ends with the settled retries, whatever the order of the episodes, of the handoffs and
-- of the iteration. A version that is superseded or corrupted is not settled, nor is one without a final decision, and
-- so they settle nothing else.
structure Resolves (episodes : Episodes) (handoffs : Handoffs) (iteration : Iteration) (r : Finset (String × String)) :
    Prop where
  ends         : resolved_delegation_retries episodes handoffs iteration = some r
  exact_pairs  : Exact episodes handoffs r
  order        : ∀ episodes' handoffs' iteration', Same episodes handoffs episodes' handoffs' →
    resolved_delegation_retries episodes' handoffs' iteration' = some r
  only_current : ∀ k, Settled episodes handoffs k → ∃ status row handoff, Decided episodes handoffs k status row handoff
  only_decided : ∀ k status row handoff, Settled episodes handoffs k → Decided episodes handoffs k status row handoff →
    status ∈ [some "accepted", some "ignored", some "retry"]

theorem retries_resolve : ∃ r, Resolves episodes handoffs iteration r := by
  obtain ⟨r, hr, hexact⟩ := @resolved_exact episodes handoffs iteration
  exists r
  refine ⟨hr, hexact, ?order, fun _ h => h.decided, fun _ _ _ _ h hd => h.status_mem hd⟩
  case order =>
    intro episodes' handoffs' iteration' hsame
    obtain ⟨r', hr', hexact'⟩ := @resolved_exact episodes' handoffs' iteration'
    rw [hr', (hsame.exact hexact').unique hexact]

end Delegation
