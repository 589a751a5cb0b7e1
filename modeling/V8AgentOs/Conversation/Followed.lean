import Mathlib.Data.List.Pairwise
import V8AgentOs.Conversation.Scanned

-- The windows of a session against its index
namespace Conversation

open Python (Json Text strip)

variable {db : Database} {sessionId : String} {surface : Surface} {m : Message} {rows earlier later : List Message}
  {g g' : List Message} {gs : List (List Message)}

section Labels

theorem nodup_groups (h : gs.flatten.Nodup) (hg : g ∈ gs) (hg' : g' ∈ gs) (hm : m ∈ g) (hm' : m ∈ g') : g = g' := by
  by_contra hne
  have : Std.Symm (@List.Disjoint Message) := ⟨fun _ _ h _ hb ha => h ha hb⟩
  exact (List.nodup_flatten.mp h).right.forall hg hg' hne hm hm'

theorem find_group (h : Ascending gs.flatten) (hg : g ∈ gs) (hm : m ∈ g) :
    gs.reverse.find? (·.any (·.ordinal = m.ordinal)) = some g := by
  have hsome : (gs.reverse.find? (·.any (·.ordinal = m.ordinal))).isSome = true := by
    rw [List.find?_isSome]
    exact ⟨g, by simpa using hg, by simpa using ⟨m, hm, rfl⟩⟩
  obtain ⟨g', hg'⟩ := Option.isSome_iff_exists.mp hsome
  rw [hg']
  have hmem : g' ∈ gs := by simpa using List.mem_of_find?_eq_some hg'
  obtain ⟨b, hb, heq⟩ : ∃ b ∈ g', b.ordinal = m.ordinal := by simpa using List.find?_some hg'
  have hsame := h.eq_of_ordinal (List.mem_flatten_of_mem hmem hb) (List.mem_flatten_of_mem hg hm) heq
  exact congrArg some (nodup_groups h.nodup hmem hg (hsame ▸ hb) hm)

-- The turn and the row of each message that a window shows
def Window.labels (w : Window) : List (Option String × Message) :=
  w.messages.map fun m => (m.turnId, m.row)

def Surface.label (surface : Surface) (sessionId : String) (g : List Message) : List (Option String × Message) :=
  g.map fun m => (some (surface.stableTurnId sessionId g), m)

theorem labels_flatten {f : Message → Option String}
    (hf : ∀ g ∈ gs, ∀ m ∈ g, f m = some (surface.stableTurnId sessionId g)) :
    gs.flatten.map (fun m => (f m, m)) = gs.flatMap (surface.label sessionId) := by
  rw [List.map_flatten, List.flatMap]
  congr 1
  apply List.map_congr_left
  intro g hg
  apply List.map_congr_left
  intro m hm
  rw [hf g hg m hm]

theorem map_snd_labels (surface : Surface) (sessionId : String) (gs : List (List Message)) :
    (gs.flatMap (surface.label sessionId)).map Prod.snd = gs.flatten := by
  rw [List.map_flatMap, List.flatMap]
  congr 1
  conv => rhs; rw [← List.map_id gs]
  apply List.map_congr_left
  intro g _
  simp [Surface.label, Function.comp_def]

end Labels

-- A window that shows the turns that come after some rows
structure Shows (surface : Surface) (sessionId : String) (w : Window) (shown : List (List Message))
    (earlier : List Message) : Prop where
  labels : w.labels = shown.flatMap (surface.label sessionId)
  older  : w.hasOlder = decide (earlier ≠ [])
  cursor : ∀ m ∈ shown.flatten.head?, w.beforeCursor = some m.ordinal

variable {limitTurns scanLimit : ℤ} {before : Option ℤ}

theorem flatten_rtake_eq_nil {n : ℕ} (hn : 0 < n) (h : ((groupTurns surface.text.toText rows).rtake n).flatten = []) :
    rows = [] := by
  have hsegmented : Segments.Segmented (breaks surface.text.toText)
      ((groupTurns surface.text.toText rows).rtake n) := by
    rw [groupTurns_eq_segments]
    exact Segments.segmented_split.behind
  have hlength : ((groupTurns surface.text.toText rows).rtake n).length = 0 := by
    have := hsegmented.length_le
    rw [h] at this
    exact Nat.le_zero.mp this
  rw [List.rtake, List.length_drop] at hlength
  have hnil : groupTurns surface.text.toText rows = [] := List.eq_nil_of_length_eq_zero (by omega)
  rw [← flatten_groupTurns surface.text.toText rows, hnil]
  rfl

-- The window that is made of the rows that were scanned
theorem window_of_scanned {scanned front : List Message} (hasc : Ascending (front ++ scanned ++ later))
    (hv : db.visible sessionId = front ++ scanned ++ later)
    (hscan : surface.scan db sessionId (turnLimit limitTurns) (chunkLimit scanLimit)
      ((db.visible sessionId).length + 1) before [] = some scanned.reverse) (hempty : scanned = [] → front = []) :
    ∃ w, surface.windowBefore db sessionId before limitTurns scanLimit = some w ∧
      Shows surface sessionId w ((groupTurns surface.text.toText scanned).rtake (turnLimit limitTurns))
        (front ++ ((groupTurns surface.text.toText scanned).rdrop (turnLimit limitTurns)).flatten) := by
  have hsorted := hasc.left.right.sortedRows_reverse
  rw [Surface.windowBefore, hscan]
  simp only [Option.bind_eq_bind, Option.bind_some, Surface.selectCanonicalTurnWindowRows, Surface.groups, hsorted]
  split
  case isTrue hnil =>
    have hscanned := flatten_rtake_eq_nil turnLimit_pos hnil
    refine ⟨_, rfl, { labels := ?labels, older := ?older, cursor := ?cursor }⟩
    case labels => simp [hscanned, groupTurns, Window.labels]
    case older  => simp [hscanned, hempty hscanned, groupTurns]
    case cursor => rw [hnil]; exact fun _ h => nomatch h
  case isFalse hne =>
    have hsplit : ((groupTurns surface.text.toText scanned).rdrop (turnLimit limitTurns)).flatten ++
        ((groupTurns surface.text.toText scanned).rtake (turnLimit limitTurns)).flatten = scanned := by
      rw [← List.flatten_append, Segments.rdrop_append_rtake, flatten_groupTurns]
    have hregroup : groupTurns surface.text.toText
        ((groupTurns surface.text.toText scanned).rtake (turnLimit limitTurns)).flatten =
          (groupTurns surface.text.toText scanned).rtake (turnLimit limitTurns) := by
      rw [groupTurns_eq_segments, groupTurns_eq_segments, Segments.segments_rtake]
    rw [hregroup]
    generalize (groupTurns surface.text.toText scanned).rtake (turnLimit limitTurns) = shown at *
    generalize ((groupTurns surface.text.toText scanned).rdrop (turnLimit limitTurns)).flatten = unshown at *
    cases hshown : shown.flatten
    case nil => exact absurd hshown hne
    case cons m rest =>
      rw [hshown] at hsplit
      have hwhole : front ++ scanned ++ later = front ++ unshown ++ m :: (rest ++ later) := by
        rw [← hsplit]
        simp
      have hascShown : Ascending shown.flatten := by
        rw [← hsplit] at hasc
        rw [hshown]
        exact hasc.left.right.right
      have hearliest : earliestOrdinal (m :: rest) = m.ordinal := earliestOrdinal_cons (hshown ▸ hascShown)
      rw [hwhole] at hasc hv
      refine ⟨_, rfl, { labels := ?labels, older := ?older, cursor := ?cursor }⟩
      case labels =>
        simp only [Window.labels, Surface.formatCanonicalChatRows, List.map_map]
        rw [← hshown]
        apply labels_flatten
        intro g hg b hb
        simp only [Function.comp_apply, find_group hascShown hg hb]
        rfl
      case older  => rw [hearliest, has_before hasc hv]
      case cursor =>
        intro b hb
        rw [hshown] at hb
        cases hb
        exact congrArg some hearliest

-- The turns of a session, and the rows of them that a client has not seen after some turns
def Surface.turns (surface : Surface) (db : Database) (sessionId : String) : List (List Message) :=
  groupTurns surface.text.toText (db.visible sessionId)

def Surface.unseen (surface : Surface) (db : Database) (sessionId : String) (n : ℕ) : List Message :=
  ((surface.turns db sessionId).rdrop n).flatten

-- Whatever number of chunks of them is read, the turns of the window after some turns have their beginnings in it.
def Surface.Bounds (surface : Surface) (db : Database) (sessionId : String) (limitTurns scanLimit : ℤ) (n : ℕ) : Prop :=
  ∀ i, Bounded surface.text.toText (turnLimit limitTurns)
    ((surface.unseen db sessionId n).rdrop (i * chunkLimit scanLimit))
    ((surface.unseen db sessionId n).rtake (i * chunkLimit scanLimit))

section Stage

variable {n : ℕ}

theorem unseen_append (surface : Surface) (db : Database) (sessionId : String) (n : ℕ) :
    surface.unseen db sessionId n ++ ((surface.turns db sessionId).rtake n).flatten =
    db.visible sessionId := by
  rw [Surface.unseen, ← List.flatten_append, Segments.rdrop_append_rtake, Surface.turns, flatten_groupTurns]

theorem groupTurns_unseen :
    groupTurns surface.text.toText (surface.unseen db sessionId n) = (surface.turns db sessionId).rdrop n := by
  rw [Surface.unseen, Surface.turns, groupTurns_eq_segments, groupTurns_eq_segments, Segments.segments_rdrop]

-- What was bounded with fewer chunks is bounded with more of them.
theorem Bounded.more {text : Text} {limit k j : ℕ} (hb : Bounded text limit (rows.rdrop k) (rows.rtake k))
    (hstop : rows.rdrop k = [] ∨ limit < (groupTurns text (rows.rtake k)).length) (hkj : k ≤ j) :
    Bounded text limit (rows.rdrop j) (rows.rtake j) := by
  have hstarts : rows.rdrop j <+: rows.rdrop k := by
    rw [List.rdrop, List.rdrop]
    exact List.take_prefix_take_left (by omega)
  have hsuffix : rows.rtake k <:+ rows.rtake j := by
    rw [List.rtake, List.rtake]
    exact List.drop_suffix_drop_left rows (by omega)
  obtain hnil | hshort | husers | ⟨horphan, hkey⟩ := hb
  · exact .inl (List.prefix_nil.mp (hnil ▸ hstarts))
  · refine .inl (List.prefix_nil.mp ?_)
    rw [← hstop.resolve_right (Nat.not_lt.mpr hshort)]
    exact hstarts
  · exact .inr (.inr (.inl (Nat.le_trans husers hsuffix.sublist.countP_le)))
  · refine .inr (.inr (.inr ⟨fun m hm => horphan m (hstarts.subset hm), fun m hm => hkey m ?_⟩))
    obtain ⟨rest, hrest⟩ := hstarts
    rw [← hrest, List.head?_append, Option.mem_def.mp hm]
    rfl

-- The window after some turns, of the rows that the scan ends with
theorem windowBefore_spec (hasc : Ascending (db.visible sessionId))
    (hb : (db.visible sessionId).filter (fun m => before.all (m.ordinal < ·)) = surface.unseen db sessionId n) :
    ∃ front scanned w, front ++ scanned = surface.unseen db sessionId n ∧
      surface.windowBefore db sessionId before limitTurns scanLimit = some w ∧
      Shows surface sessionId w ((groupTurns surface.text.toText scanned).rtake (turnLimit limitTurns))
        (front ++ ((groupTurns surface.text.toText scanned).rdrop (turnLimit limitTurns)).flatten) ∧
      (front = [] ∨ turnLimit limitTurns < (groupTurns surface.text.toText scanned).length) ∧
      (Bounded surface.text.toText (turnLimit limitTurns) front scanned ↔
        surface.Bounds db sessionId limitTurns scanLimit n) := by
  have hv := unseen_append surface db sessionId n
  have hlength : ((surface.unseen db sessionId n).rdrop (0 * chunkLimit scanLimit)).length <
      (db.visible sessionId).length + 1 := by
    rw [← hv, Nat.zero_mul, List.rdrop_zero, List.length_append]
    omega
  rw [← hv] at hasc
  obtain ⟨j, hscan, hstop, hbefore⟩ := scan_spec (k := 0) surface (turnLimit limitTurns) chunkLimit_pos
    (clamp_chunkLimit scanLimit) hasc hv.symm (by simpa using hb) hlength
  rw [Nat.zero_mul, List.rtake_zero, List.reverse_nil] at hscan
  have hsplit := Segments.rdrop_append_rtake (l := surface.unseen db sessionId n) (n := j * chunkLimit scanLimit)
  have hbounds : Bounded surface.text.toText (turnLimit limitTurns)
      ((surface.unseen db sessionId n).rdrop (j * chunkLimit scanLimit))
      ((surface.unseen db sessionId n).rtake (j * chunkLimit scanLimit)) ↔
        surface.Bounds db sessionId limitTurns scanLimit n := by
    constructor
    case mpr => exact fun h => h j
    case mp  =>
      intro h i
      cases Nat.lt_or_ge i j
      case inr hij => exact h.more hstop (Nat.mul_le_mul_right _ hij)
      case inl hij =>
        cases i
        case zero   => exact .inr (.inl (by simp [groupTurns]))
        case succ i => exact .inr (.inl (hbefore _ (Nat.succ_pos i) hij))
  generalize (surface.unseen db sessionId n).rdrop (j * chunkLimit scanLimit) = front at *
  generalize (surface.unseen db sessionId n).rtake (j * chunkLimit scanLimit) = scanned at *
  rw [← hsplit] at hasc hv
  have hempty : scanned = [] → front = [] := by
    rintro rfl
    exact hstop.resolve_right (Nat.not_lt_zero _)
  obtain ⟨w, hw, hshows⟩ := window_of_scanned hasc hv.symm hscan hempty
  exact ⟨front, scanned, w, hsplit, hw, hshows, hstop, hbounds⟩

theorem unseen_add (surface : Surface) (db : Database) (sessionId : String) (n limit : ℕ) :
    surface.unseen db sessionId (n + limit) ++
    (((surface.turns db sessionId).rdrop n).rtake limit).flatten = surface.unseen db sessionId n := by
  rw [Surface.unseen, Surface.unseen, ← List.flatten_append, ← Segments.rdrop_rdrop, Segments.rdrop_append_rtake]

-- A window whose turns have their beginnings in what is scanned shows the next turns.
theorem shows_of_bounds (hasc : Ascending (db.visible sessionId))
    (hb : (db.visible sessionId).filter (fun m => before.all (m.ordinal < ·)) = surface.unseen db sessionId n)
    (hbounds : surface.Bounds db sessionId limitTurns scanLimit n) :
    ∃ w, surface.windowBefore db sessionId before limitTurns scanLimit = some w ∧
      Shows surface sessionId w (((surface.turns db sessionId).rdrop n).rtake (turnLimit limitTurns))
        (surface.unseen db sessionId (n + turnLimit limitTurns)) := by
  obtain ⟨front, scanned, w, hsplit, hw, hshows, hstop, hiff⟩ := windowBefore_spec hasc hb
  have hshown : (groupTurns surface.text.toText scanned).rtake (turnLimit limitTurns) =
      ((surface.turns db sessionId).rdrop n).rtake (turnLimit limitTurns) := by
    rw [← rtake_of_bounded (hiff.mpr hbounds) hstop, hsplit, groupTurns_unseen]
  have hearlier : front ++ ((groupTurns surface.text.toText scanned).rdrop (turnLimit limitTurns)).flatten =
      surface.unseen db sessionId (n + turnLimit limitTurns) := by
    apply (List.append_left_inj (((surface.turns db sessionId).rdrop n).rtake (turnLimit limitTurns)).flatten).mp
    rw [unseen_add, ← hsplit, ← hshown, List.append_assoc, ← List.flatten_append, Segments.rdrop_append_rtake,
      flatten_groupTurns]
  rw [hshown, hearlier] at hshows
  exact ⟨w, hw, hshows⟩

-- Another window begins in the middle of a turn.
theorem shows_of_unbounded (hasc : Ascending (db.visible sessionId))
    (hb : (db.visible sessionId).filter (fun m => before.all (m.ordinal < ·)) = surface.unseen db sessionId n)
    (hbounds : ¬surface.Bounds db sessionId limitTurns scanLimit n) :
    ∃ w, surface.windowBefore db sessionId before limitTurns scanLimit = some w ∧
      ∃ label ∈ w.labels.head?, ∀ g ∈ surface.turns db sessionId, g.head? ≠ some label.2 := by
  obtain ⟨front, scanned, w, hsplit, hw, hshows, hstop, hiff⟩ := windowBefore_spec hasc hb
  have hunbounded := mt hiff.mp hbounds
  cases hfirst : ((groupTurns surface.text.toText scanned).rtake (turnLimit limitTurns)).flatten
  case nil =>
    exfalso
    have hnil : front = [] := by
      apply hstop.resolve_right
      rw [flatten_rtake_eq_nil turnLimit_pos hfirst]
      exact Nat.not_lt_zero _
    exact hunbounded (.inl hnil)
  case cons m rest =>
    rw [← unseen_append surface db sessionId n] at hasc
    have hm : m ∈ surface.unseen db sessionId n := by
      have hm : m ∈ ((groupTurns surface.text.toText scanned).rdrop (turnLimit limitTurns)).flatten ++
          ((groupTurns surface.text.toText scanned).rtake (turnLimit limitTurns)).flatten := by
        rw [hfirst]
        simp
      rw [← List.flatten_append, Segments.rdrop_append_rtake, flatten_groupTurns] at hm
      exact hsplit ▸ List.mem_append_right front hm
    have hlabels := congrArg List.head? (map_snd_labels surface sessionId
      ((groupTurns surface.text.toText scanned).rtake (turnLimit limitTurns)))
    rw [hfirst, ← hshows.labels, List.head?_map] at hlabels
    obtain ⟨label, hlabel, hrow⟩ := Option.map_eq_some_iff.mp hlabels
    refine ⟨w, hw, label, hlabel, fun g hg hhead => ?_⟩
    rw [hrow] at hhead
    rw [← Segments.rdrop_append_rtake (n := n) (l := surface.turns db sessionId)] at hg
    cases List.mem_append.mp hg
    case inl hg =>
      have hnot := not_head_of_unbounded hunbounded (hsplit ▸ hasc.left.nodup) (by rw [hfirst]; rfl)
      rw [hsplit, groupTurns_unseen] at hnot
      exact hnot (List.mem_filterMap.mpr ⟨g, hg, hhead⟩)
    case inr hg =>
      have hlater := List.mem_flatten_of_mem hg (List.mem_of_mem_head? hhead)
      exact absurd (hasc.lt hm hlater) (lt_irrefl _)

end Stage
end Conversation

-- The windows that a client gets by following the cursor, and the index, against the turns of the session
namespace Conversation

open Python (Json Text strip)

variable {db : Database} {sessionId : String} {surface : Surface} {m : Message} {g g' : List Message}
  {limitTurns scanLimit : ℤ} {before : Option ℤ} {n : ℕ}

theorem segmented_turns (surface : Surface) (db : Database) (sessionId : String) :
    Segments.Segmented (breaks surface.text.toText) (surface.turns db sessionId) := by
  rw [Surface.turns, groupTurns_eq_segments]
  exact Segments.segmented_segments

theorem flatten_turns (surface : Surface) : (surface.turns db sessionId).flatten = db.visible sessionId :=
  flatten_groupTurns _ _

theorem turns_ne_nil (hg : g ∈ surface.turns db sessionId) : g ≠ [] :=
  (segmented_turns surface db sessionId).ne_nil hg

theorem rdrop_of_unseen (h : surface.unseen db sessionId n = []) : (surface.turns db sessionId).rdrop n = [] := by
  have hsegmented : Segments.Segmented (breaks surface.text.toText) ((surface.turns db sessionId).rdrop n) := by
    rw [Surface.turns, groupTurns_eq_segments]
    exact Segments.segmented_split.before
  have hlength := hsegmented.length_le
  rw [← Surface.unseen, h] at hlength
  exact List.eq_nil_of_length_eq_zero (Nat.le_zero.mp hlength)

section Follow

-- The next request, where there are more turns
theorem next_cursor {w : Window} (hasc : Ascending (db.visible sessionId)) {limit : ℕ} (hlimit : 0 < limit)
    (hshows : Shows surface sessionId w (((surface.turns db sessionId).rdrop n).rtake limit)
      (surface.unseen db sessionId (n + limit))) (holder : w.hasOlder = true) :
    (db.visible sessionId).filter (fun m => w.beforeCursor.all (m.ordinal < ·)) =
      surface.unseen db sessionId (n + limit) := by
  have hadd := unseen_add surface db sessionId n limit
  have hv := unseen_append surface db sessionId n
  cases hshown : (((surface.turns db sessionId).rdrop n).rtake limit).flatten
  case nil =>
    rw [← groupTurns_unseen] at hshown
    have hnil := flatten_rtake_eq_nil hlimit hshown
    rw [hshows.older, decide_eq_true_eq] at holder
    rw [hnil] at hadd
    exact absurd (List.append_eq_nil_iff.mp hadd).left holder
  case cons m rest =>
    rw [hshows.cursor m (by rw [hshown]; rfl)]
    rw [hshown] at hadd
    have hwhole : db.visible sessionId = surface.unseen db sessionId (n + limit) ++
        m :: (rest ++ ((surface.turns db sessionId).rtake n).flatten) := by
      rw [← hv, ← hadd]
      simp
    rw [hwhole] at hasc ⊢
    exact hasc.filter_before

theorem build_of_before {r : WindowRequest} (hr : r.aroundTurnId = "") :
    surface.buildCanonicalChatTurnWindow db sessionId r =
      surface.windowBefore db sessionId r.beforeOrdinal r.limitTurns r.scanLimit := by
  rw [Surface.buildCanonicalChatTurnWindow, hr]
  rfl

-- Windows whose turns have their beginnings in what is scanned show all turns.
theorem follow_of_bounds (before : Option ℤ) (hasc : Ascending (db.visible sessionId))
    (hbounds : ∀ j, surface.Bounds db sessionId limitTurns scanLimit (j * turnLimit limitTurns)) {k j : ℕ}
    (hb : (db.visible sessionId).filter (fun m => before.all (m.ordinal < ·)) =
      surface.unseen db sessionId (j * turnLimit limitTurns))
    (hk : ((surface.turns db sessionId).rdrop (j * turnLimit limitTurns)).length < k) :
    ∃ (pages : List Window) (blocks : List (List (List Message))),
      surface.follow db sessionId ⟨before, limitTurns, scanLimit, "", 0⟩ k = some pages ∧
      blocks.flatten = (surface.turns db sessionId).rdrop (j * turnLimit limitTurns) ∧
      pages.reverse.map Window.labels = blocks.map (·.flatMap (surface.label sessionId)) := by
  induction k generalizing j before
  case zero => exact absurd hk (Nat.not_lt_zero _)
  case succ k hi =>
    obtain ⟨w, hw, hshows⟩ := shows_of_bounds hasc hb (hbounds j)
    have hsplit := Segments.rdrop_append_rtake (l := (surface.turns db sessionId).rdrop (j * turnLimit limitTurns))
      (n := turnLimit limitTurns)
    rw [Segments.rdrop_rdrop] at hsplit
    rw [Surface.follow, build_of_before rfl, hw]
    simp only [Option.bind_eq_bind, Option.bind_some]
    cases holder : w.hasOlder
    case false =>
      have hnil := hshows.older
      rw [holder, eq_comm, decide_eq_false_iff_not, not_not] at hnil
      rw [rdrop_of_unseen hnil, List.nil_append] at hsplit
      refine ⟨[w], [(surface.turns db sessionId).rdrop (j * turnLimit limitTurns)], rfl, by simp, ?_⟩
      rw [← hsplit]
      simp [hshows.labels]
    case true =>
      have hnext := next_cursor hasc turnLimit_pos hshows holder
      have hshorter : ((surface.turns db sessionId).rdrop ((j + 1) * turnLimit limitTurns)).length < k := by
        have hmore : (surface.turns db sessionId).rdrop ((j + 1) * turnLimit limitTurns) ≠ [] := by
          rw [hshows.older, decide_eq_true_eq, ← Nat.succ_mul] at holder
          exact fun hnil => holder (by rw [Surface.unseen, hnil, List.flatten_nil])
        have hpos : 0 < turnLimit limitTurns := turnLimit_pos
        have hsome := List.length_pos_iff.mpr hmore
        rw [List.rdrop, List.length_take, Nat.succ_mul] at hsome ⊢
        rw [List.rdrop, List.length_take] at hk
        omega
      rw [← Nat.succ_mul] at hnext
      obtain ⟨pages, blocks, hfollow, hblocks, hlabels⟩ := hi _ hnext hshorter
      refine ⟨w :: pages, blocks ++ [((surface.turns db sessionId).rdrop (j * turnLimit limitTurns)).rtake
        (turnLimit limitTurns)], ?_, ?_, ?_⟩
      · simp [hfollow]
      · rw [List.flatten_append, hblocks, Nat.succ_mul]
        simpa using hsplit
      · rw [List.reverse_cons, List.map_append, List.map_append, hlabels]
        simp [hshows.labels]

-- As long as they do, the next windows are asked for.
theorem follow_reaches (hasc : Ascending (db.visible sessionId)) {k j d : ℕ} {pages : List Window}
    (hbounds : ∀ i, j ≤ i → i < j + d → surface.Bounds db sessionId limitTurns scanLimit (i * turnLimit limitTurns))
    (hb : (db.visible sessionId).filter (fun m => before.all (m.ordinal < ·)) =
      surface.unseen db sessionId (j * turnLimit limitTurns))
    (hne : surface.unseen db sessionId ((j + d) * turnLimit limitTurns) ≠ [])
    (hfollow : surface.follow db sessionId ⟨before, limitTurns, scanLimit, "", 0⟩ k = some pages) :
    ∃ w ∈ pages, ∃ before', (db.visible sessionId).filter (fun m => before'.all (m.ordinal < ·)) =
      surface.unseen db sessionId ((j + d) * turnLimit limitTurns) ∧
      surface.windowBefore db sessionId before' limitTurns scanLimit = some w := by
  induction d generalizing j k before pages
  case zero =>
    cases k
    case zero   => cases hfollow
    case succ k =>
      rw [Surface.follow, build_of_before rfl] at hfollow
      obtain ⟨w, hw, hrest⟩ := Option.bind_eq_some_iff.mp hfollow
      refine ⟨w, ?_, before, hb, hw⟩
      cases holder : w.hasOlder
      case false =>
        rw [holder] at hrest
        cases hrest
        exact List.mem_singleton_self w
      case true =>
        rw [holder] at hrest
        obtain ⟨rest, -, rfl⟩ := Option.map_eq_some_iff.mp hrest
        exact List.mem_cons_self
  case succ d hi =>
    cases k
    case zero   => cases hfollow
    case succ k =>
      obtain ⟨w, hw, hshows⟩ := shows_of_bounds hasc hb (hbounds j (Nat.le_refl j) (by omega))
      have holder : w.hasOlder = true := by
        rw [hshows.older, decide_eq_true_eq]
        intro hnil
        apply hne
        have hdrop := rdrop_of_unseen hnil
        have hshift : (j + (d + 1)) * turnLimit limitTurns =
            j * turnLimit limitTurns + turnLimit limitTurns + d * turnLimit limitTurns := by
          rw [Nat.add_mul, Nat.succ_mul]
          omega
        rw [Surface.unseen, hshift, ← Segments.rdrop_rdrop, hdrop, List.rdrop_nil, List.flatten_nil]
      rw [Surface.follow, build_of_before rfl, hw] at hfollow
      simp only [Option.bind_eq_bind, Option.bind_some, holder, if_true] at hfollow
      obtain ⟨rest, hrest, rfl⟩ := Option.map_eq_some_iff.mp hfollow
      have hnext := next_cursor hasc turnLimit_pos hshows holder
      rw [← Nat.succ_mul] at hnext
      have hshift : j + (d + 1) = j + 1 + d := by omega
      rw [hshift] at hne hbounds ⊢
      obtain ⟨w', hw', hreached⟩ := hi (fun i hji hij => hbounds i (by omega) hij) hnext hne hrest
      exact ⟨w', List.mem_cons_of_mem w hw', hreached⟩

end Follow
end Conversation
