import V8AgentOs.Conversation.Indexed

-- The windows of a session and its index agree where the scans for the windows say where the turns begin.
namespace Conversation

open Python (Json Text strip)

variable {db : Database} {sessionId : String} {surface : Surface} {m : Message} {g : List Message}
  {limitTurns scanLimit : ℤ} {entry : Entry}

section Pages

theorem position_entries {i : ℕ} (h : (surface.entries db sessionId)[i]? = some entry) : entry.position = i + 1 := by
  rw [Surface.entries, Surface.buildCanonicalTurnIndexEntries, List.getElem?_map] at h
  obtain ⟨turn, hturn, rfl⟩ := Option.map_eq_some_iff.mp h
  rw [List.getElem?_zipIdx] at hturn
  obtain ⟨g, -, rfl⟩ := Option.map_eq_some_iff.mp hturn
  exact Nat.add_comm 1 i

-- Where the page before a position ends
def endIndex (length : ℕ) : Option ℤ → ℕ
  | none        => length
  | some before => clamp 0 length (before - 1)

theorem followIndex_spec (limitTurns : ℤ) {before : Option ℤ} {k : ℕ}
    (hk : endIndex (surface.entries db sessionId).length before < k) :
    ∃ pages, surface.followIndex db sessionId limitTurns before k = some pages ∧
      pages.reverse.flatMap (·.turns) =
        (surface.entries db sessionId).take (endIndex (surface.entries db sessionId).length before) := by
  induction k generalizing before
  case zero => exact absurd hk (Nat.not_lt_zero _)
  case succ k hi =>
    generalize hlimit : clamp 1 500 (orDefault limitTurns 200) = limit
    have hpos : 0 < limit := by
      rw [← hlimit, clamp]
      omega
    generalize hend : endIndex (surface.entries db sessionId).length before = stop at *
    have hstop : stop ≤ (surface.entries db sessionId).length := by
      rw [← hend]
      cases before
      case none => exact Nat.le_refl _
      case some =>
        rw [endIndex, clamp]
        omega
    have hturns : (surface.buildCanonicalChatTurnIndex db sessionId before limitTurns).turns =
        ((surface.entries db sessionId).take stop).drop (stop - limit) := by
      rw [← hend, ← hlimit]
      cases before <;> rfl
    have holder : (surface.buildCanonicalChatTurnIndex db sessionId before limitTurns).hasOlder =
        decide (0 < stop - limit) := by
      rw [← hend, ← hlimit]
      cases before <;> rfl
    have hcursor : (surface.buildCanonicalChatTurnIndex db sessionId before limitTurns).beforeCursor =
        if 0 < stop - limit then
          (((surface.entries db sessionId).take stop).drop (stop - limit)).head?.map (·.position) else none := by
      rw [← hend, ← hlimit]
      cases before <;> rfl
    rw [Surface.followIndex]
    by_cases hmore : 0 < stop - limit
    case neg =>
      refine ⟨_, if_neg (by simp [holder, hmore]), ?_⟩
      rw [Nat.eq_zero_of_not_pos hmore] at hturns
      simp [hturns]
    case pos =>
      have hsome : (surface.entries db sessionId)[stop - limit]? =
          some ((surface.entries db sessionId).get ⟨stop - limit, by omega⟩) := List.getElem?_eq_getElem _
      have hhead : (((surface.entries db sessionId).take stop).drop (stop - limit)).head?.map (·.position) =
          some (stop - limit + 1) := by
        rw [List.head?_drop, List.getElem?_take, if_pos (by omega), hsome, Option.map_some, position_entries hsome]
      rw [hhead, if_pos hmore] at hcursor
      have hnext : endIndex (surface.entries db sessionId).length (some ((stop - limit + 1 : ℕ) : ℤ)) =
          stop - limit := by
        rw [endIndex, clamp]
        omega
      obtain ⟨pages, hpages, hflat⟩ := @hi (some ((stop - limit + 1 : ℕ) : ℤ)) (by rw [hnext]; omega)
      refine ⟨surface.buildCanonicalChatTurnIndex db sessionId before limitTurns :: pages, ?_, ?_⟩
      · rw [if_pos (by simp [holder, hmore]), hcursor]
        exact congrArg _ hpages
      · rw [hnext] at hflat
        have htake : (surface.entries db sessionId).take (stop - limit) =
            ((surface.entries db sessionId).take stop).take (stop - limit) := by
          rw [List.take_take, Nat.min_eq_left (Nat.sub_le _ _)]
        simp only [List.reverse_cons, List.flatMap_append, hflat, List.flatMap_singleton, hturns]
        rw [htake, List.take_append_drop]

theorem length_entries (surface : Surface) (db : Database) (sessionId : String) :
    (surface.entries db sessionId).length ≤ (db.visible sessionId).length := by
  have hsegmented : Segments.Segmented (breaks surface.text.toText)
      (surface.groups (surface.getChatCanonicalTurnIndexRows db sessionId)) := by
    rw [Surface.groups, groupTurns_eq_segments]
    exact Segments.segmented_segments
  have hlength := hsegmented.length_le
  rw [Surface.groups, flatten_groupTurns] at hlength
  simpa [Surface.entries, Surface.buildCanonicalTurnIndexEntries, Surface.groups,
    Surface.getChatCanonicalTurnIndexRows] using hlength

theorem index_spec : ∃ pages, surface.index db sessionId limitTurns = some pages ∧
    pages.reverse.flatMap (·.turns) = surface.entries db sessionId := by
  have hlength := length_entries surface db sessionId
  have hstart : endIndex (surface.entries db sessionId).length none < (db.visible sessionId).length + 1 :=
    Nat.lt_succ_of_le hlength
  obtain ⟨pages, hpages, hflat⟩ := followIndex_spec limitTurns hstart
  refine ⟨pages, hpages, hflat.trans ?_⟩
  exact List.take_length

end Pages

-- What a window shows of an entry
def Database.listed (db : Database) (sessionId : String) (entry : Entry) : List (Option String × Message) :=
  (db.members sessionId entry).map fun m => (some entry.turnId, m)

-- The windows, put together with the oldest one first, show every visible message once, in the order of the ordinals;
-- each of them shows a block of entries of the index; and a window around an entry shows the messages of that entry.
structure Agrees (surface : Surface) (db : Database) (sessionId : String) (limitTurns scanLimit : ℤ) : Prop where
  shown   : ∃ windows, surface.windows db sessionId limitTurns scanLimit = some windows ∧
    windows.reverse.flatMap (·.messages.map (·.row)) = db.visible sessionId ∧
    ∃ blocks : List (List Entry), blocks.flatten = surface.entries db sessionId ∧
      windows.reverse.map Window.labels = blocks.map (·.flatMap (db.listed sessionId))
  indexed : ∀ limit, ∃ pages, surface.index db sessionId limit = some pages ∧
    pages.reverse.flatMap (·.turns) = surface.entries db sessionId
  around  : ∀ entry ∈ surface.entries db sessionId, ∀ r : WindowRequest, ∃ w,
    surface.buildCanonicalChatTurnWindow db sessionId { r with aroundTurnId := entry.turnId } = some w ∧
    w.anchorTurnId = some entry.turnId ∧
    (w.messages.filter (·.turnId = some entry.turnId)).map (·.row) = db.members sessionId entry

section TurnIds

theorem printable_of_hex {c : Char} (h : ('0' ≤ c ∧ c ≤ '9') ∨ ('a' ≤ c ∧ c ≤ 'f')) : Python.isSpace c = false := by
  have hrange : (48 ≤ c.toNat ∧ c.toNat ≤ 57) ∨ (97 ≤ c.toNat ∧ c.toNat ≤ 102) := h
  simp only [Python.isSpace, Bool.or_eq_false_iff, Bool.and_eq_false_iff, beq_eq_false_iff_ne, decide_eq_false_iff_not]
  omega

theorem strip_stableTurnId {rows : List Message} :
    strip (surface.stableTurnId sessionId rows) = surface.stableTurnId sessionId rows := by
  apply Python.strip_eq_self
  intro c hc
  rw [Bool.not_eq_true]
  rw [Surface.stableTurnId, String.toList_append] at hc
  cases List.mem_append.mp hc
  case inl hc =>
    have hstarts : ∀ c ∈ "turn_".toList, Python.isSpace c = false :=
      List.forall_iff_forall_mem.mp (by decide)
    exact hstarts c hc
  case inr hc =>
    rw [Python.take, String.toList_ofList] at hc
    exact printable_of_hex (surface.hexdigest _ c (List.mem_of_mem_take hc))

theorem stableTurnId_ne {rows : List Message} : surface.stableTurnId sessionId rows ≠ "" := by
  intro h
  have hlist := congrArg String.toList h
  rw [Surface.stableTurnId, String.toList_append] at hlist
  cases hlist

end TurnIds

section Agreement

-- Blocks of one list as blocks of another one
theorem regroup {α β γ : Type*} {f : α → γ} {h : β → γ} {l : List α} {blocks : List (List β)}
    (hl : l.map f = blocks.flatten.map h) :
    ∃ blocks' : List (List α), blocks'.flatten = l ∧ blocks'.map (List.map f) = blocks.map (List.map h) := by
  induction blocks generalizing l
  case nil =>
    have hnil : l = [] := by simpa using hl
    exact ⟨[], hnil.symm, rfl⟩
  case cons block blocks hi =>
    rw [List.flatten_cons, List.map_append] at hl
    obtain ⟨front, rest, rfl, hfront, hrest⟩ := List.map_eq_append_iff.mp hl
    obtain ⟨blocks', hflat, hmap⟩ := hi hrest
    refine ⟨front :: blocks', by rw [List.flatten_cons, hflat], ?_⟩
    rw [List.map_cons, List.map_cons, hfront, hmap]

theorem map_snd_flatten {windows : List Window} : (windows.map Window.labels).flatten.map Prod.snd =
    windows.flatMap (·.messages.map (·.row)) := by
  rw [List.map_flatten, List.map_map, List.flatMap]
  congr 1
  apply List.map_congr_left
  intro w _
  simp [Window.labels, Function.comp_def]

theorem shown_of_bounds (hasc : Ascending (db.visible sessionId)) (hs : ∀ m ∈ db.visible sessionId, Sourced m)
    (hbounds : ∀ j, surface.Bounds db sessionId limitTurns scanLimit (j * turnLimit limitTurns)) :
    ∃ windows, surface.windows db sessionId limitTurns scanLimit = some windows ∧
      windows.reverse.flatMap (·.messages.map (·.row)) = db.visible sessionId ∧
      ∃ blocks : List (List Entry), blocks.flatten = surface.entries db sessionId ∧
        windows.reverse.map Window.labels = blocks.map (·.flatMap (db.listed sessionId)) := by
  have hall : surface.unseen db sessionId 0 = db.visible sessionId := by
    rw [Surface.unseen, List.rdrop_zero, flatten_turns]
  have hlength : ((surface.turns db sessionId).rdrop (0 * turnLimit limitTurns)).length <
      (db.visible sessionId).length + 1 := by
    have h := (segmented_turns surface db sessionId).length_le
    rw [flatten_turns] at h
    rw [Nat.zero_mul, List.rdrop_zero]
    exact Nat.lt_succ_of_le h
  obtain ⟨windows, blocks, hwindows, hblocks, hlabels⟩ :=
    follow_of_bounds none hasc hbounds (by simp [hall]) hlength
  rw [Nat.zero_mul, List.rdrop_zero] at hblocks
  have hentries := entries_labels surface hasc hs
  rw [← hblocks] at hentries
  obtain ⟨blocks', hflat, hmap⟩ := regroup hentries
  have hsame : windows.reverse.map Window.labels = blocks'.map (·.flatMap (db.listed sessionId)) := by
    have hflatten := congrArg (List.map List.flatten) hmap
    rw [List.map_map, List.map_map] at hflatten
    exact hlabels.trans hflatten.symm
  refine ⟨windows, hwindows, ?_, blocks', hflat, hsame⟩
  rw [← map_snd_flatten, hlabels, ← List.flatMap, ← List.flatMap_assoc, List.flatMap_id', hblocks, map_snd_labels,
    flatten_turns]

-- In windows that agree with the index, the first message is the first one of a turn.
theorem head_of_agrees (hasc : Ascending (db.visible sessionId)) (hs : ∀ m ∈ db.visible sessionId, Sourced m)
    (h : Agrees surface db sessionId limitTurns scanLimit) :
    ∃ windows, surface.windows db sessionId limitTurns scanLimit = some windows ∧
      ∀ w ∈ windows, ∀ label ∈ w.labels.head?, ∃ g ∈ surface.turns db sessionId, g.head? = some label.2 := by
  obtain ⟨windows, hwindows, -, blocks, hflat, hlabels⟩ := h.shown
  refine ⟨windows, hwindows, fun w hw label hlabel => ?_⟩
  have hmem : w.labels ∈ blocks.map (·.flatMap (db.listed sessionId)) := by
    rw [← hlabels]
    exact List.mem_map_of_mem (List.mem_reverse.mpr hw)
  obtain ⟨block, hblock, heq⟩ := List.mem_map.mp hmem
  cases block
  case nil => rw [← heq] at hlabel; cases hlabel
  case cons entry block =>
    have hentry : entry ∈ surface.entries db sessionId := by
      rw [← hflat]
      exact List.mem_flatten_of_mem hblock List.mem_cons_self
    rw [entries_eq hs] at hentry
    obtain ⟨turn, hturn, rfl⟩ := List.mem_map.mp hentry
    have hturn' : turn.1 ∈ surface.turns db sessionId := List.fst_mem_of_mem_zipIdx hturn
    refine ⟨turn.1, hturn', ?_⟩
    cases hfirst : turn.1
    case nil => exact absurd hfirst (turns_ne_nil hturn')
    case cons m rest =>
      rw [← heq, List.flatMap_cons, Database.listed, members_entryOf hasc hturn', hfirst] at hlabel
      cases hlabel
      rfl

theorem bounds_of_shown (hasc : Ascending (db.visible sessionId)) (hs : ∀ m ∈ db.visible sessionId, Sourced m)
    (h : Agrees surface db sessionId limitTurns scanLimit) (j : ℕ) :
    surface.Bounds db sessionId limitTurns scanLimit (j * turnLimit limitTurns) := by
  induction j using Nat.strong_induction_on
  case h j hi =>
    by_contra hunbounded
    obtain ⟨windows, hwindows, hheads⟩ := head_of_agrees hasc hs h
    have hne : surface.unseen db sessionId ((0 + j) * turnLimit limitTurns) ≠ [] := by
      intro hnil
      rw [Nat.zero_add] at hnil
      apply hunbounded
      intro i
      rw [hnil, List.rdrop_nil]
      exact .inl rfl
    have hall : (db.visible sessionId).filter (fun m => (none : Option ℤ).all (m.ordinal < ·)) =
        surface.unseen db sessionId (0 * turnLimit limitTurns) := by
      rw [Nat.zero_mul, Surface.unseen, List.rdrop_zero, flatten_turns]
      simp
    obtain ⟨w, hw, before, hb, hbuilt⟩ := follow_reaches hasc (fun i _ hij => hi i (by omega)) hall hne hwindows
    rw [Nat.zero_add] at hb
    obtain ⟨w', hbuilt', label, hlabel, hout⟩ := shows_of_unbounded hasc hb hunbounded
    rw [hbuilt] at hbuilt'
    cases hbuilt'
    obtain ⟨g, hg, hhead⟩ := hheads w hw label hlabel
    exact hout g hg hhead

theorem windows_agree_iff (surface : Surface) (db : Database) (sessionId : String) (limitTurns scanLimit : ℤ)
    (hordinals : ((db.visible sessionId).map (·.ordinal)).Nodup) (hs : ∀ m ∈ db.visible sessionId, Sourced m)
    (hids : ∀ a ∈ db.visible sessionId, ∀ b ∈ db.visible sessionId,
      surface.stableTurnId sessionId [a] = surface.stableTurnId sessionId [b] → a = b) :
    Agrees surface db sessionId limitTurns scanLimit ↔
      ∀ j, surface.Bounds db sessionId limitTurns scanLimit (j * turnLimit limitTurns) := by
  have hasc := ascending_visible hordinals
  constructor
  case mp  => exact fun h j => bounds_of_shown hasc hs h j
  case mpr =>
    intro hbounds
    constructor
    case shown   => exact shown_of_bounds hasc hs hbounds
    case indexed => exact fun limit => index_spec
    case around  =>
      intro entry hentry r
      have hturnId : ∃ rows, entry.turnId = surface.stableTurnId sessionId rows := by
        rw [entries_eq hs] at hentry
        obtain ⟨turn, -, rfl⟩ := List.mem_map.mp hentry
        exact ⟨_, turnId_entryOf⟩
      obtain ⟨rows, hrows⟩ := hturnId
      have hstrip : strip entry.turnId = entry.turnId := by rw [hrows, strip_stableTurnId]
      have hne : entry.turnId ≠ "" := hrows ▸ stableTurnId_ne
      rw [Surface.buildCanonicalChatTurnWindow, if_neg (by simpa [hstrip] using hne), hstrip]
      exact around_spec hasc hs hids hentry

end Agreement
-- Messages with the ordinals and the run ids of a session
section Samples

def sampleRow (n : ℕ) (role runId : String) : Message where
  id            := String.ofList (List.replicate (n + 1) 'm')
  sessionId     := "s"
  runId         := some runId
  ordinal       := n
  role          := role
  state         := "completed"
  nodes         := []
  artifacts     := []
  contentText   := none
  reasoningText := none
  metadata      := []
  version       := 1
  createdAt     := ""
  updatedAt     := ""
  finalizedAt   := none
  trimmed       := by
    apply Python.strip_eq_self
    intro c hc
    rw [String.toList_ofList] at hc
    rw [List.eq_of_mem_replicate hc]
    decide
  named         := fun h => by
    have hlist := congrArg String.toList h
    rw [String.toList_ofList] at hlist
    cases hlist

theorem ascii_word (c : Char) (_ : c.toNat < 128) :
    (fun c : Char => c.isAlphanum || c == '_') c = (c.isAlphanum || c == '_') := rfl

-- SHA-256 of the texts of the sample
def sampleSurface : Surface where
  text       := { Python.asciiText with word := fun c => c.isAlphanum || c == '_', wordAscii := ascii_word }
  sha256 s   :=
    if s = "canonical-turn-v1\x00s\x00message\x00mm" then
      "5c75760cf0a9cecb769eeb42462251e193b6473abab09a2fb55820d51567d3fe"
    else "8837c1fb78c85fcf86f148b37acb7255e23662001ae8384c8ab7b84f3bce5a98"
  column     := id
  hexdigest s := by
    split
    case isTrue  => exact List.forall_iff_forall_mem.mp (by decide)
    case isFalse => exact List.forall_iff_forall_mem.mp (by decide)
  columnNull := rfl
  columnText _ := rfl

def sampleDatabase : Database :=
  { Database.empty with messages := ⟨[sampleRow 1 "user" "r", sampleRow 2 "user" "q"], by decide +kernel⟩ }

theorem windows_agree_sample : Agrees sampleSurface sampleDatabase "s" 1 500 := by
  have hv : sampleDatabase.visible "s" = [sampleRow 1 "user" "r", sampleRow 2 "user" "q"] := by decide +kernel
  have hunseen (n : ℕ) : (sampleSurface.unseen sampleDatabase "s" n).length ≤ 2 := by
    have h := congrArg List.length (unseen_append sampleSurface sampleDatabase "s" n)
    rw [List.length_append, hv, List.length_cons, List.length_singleton] at h
    omega
  apply (windows_agree_iff sampleSurface sampleDatabase "s" 1 500 (by rw [hv]; decide +kernel) ?sourced ?ids).mpr
  case sourced =>
    intro m hm
    rw [hv] at hm
    cases hm
    case head    => exact .inl rfl
    case tail hm =>
      cases hm
      case head    => exact .inl rfl
      case tail hm => cases hm
  case ids =>
    rw [hv]
    decide +kernel
  intro j i
  cases i
  case zero   => exact .inr (.inl (by simp [groupTurns]))
  case succ i =>
    refine .inl (List.eq_nil_of_length_eq_zero ?_)
    rw [List.rdrop, List.length_take]
    have := hunseen (j * turnLimit 1)
    have hchunk : chunkLimit 500 = 500 := rfl
    rw [hchunk]
    omega

-- A user message, and fifty messages of two runs that answer it
def longDatabase : Database :=
  { Database.empty with
    messages := ⟨sampleRow 1 "user" "r" ::
      (List.range 50).map fun k => sampleRow (k + 2) "assistant" (if k < 25 then "r" else "q"), by decide +kernel⟩ }

theorem windows_agree_fails : ¬Agrees sampleSurface longDatabase "s" 1 50 := by
  intro h
  have hasc : Ascending (longDatabase.visible "s") := ascending_visible (by decide +kernel)
  have hs : ∀ m ∈ longDatabase.visible "s", Sourced m := by
    intro m hm
    have hempty : ((longDatabase.visible "s").all fun m => m.metadata = []) = true := by decide +kernel
    have hm := of_decide_eq_true (List.all_eq_true.mp hempty m hm)
    exact .inl (by rw [hm]; rfl)
  obtain ⟨windows, hwindows, hheads⟩ := head_of_agrees hasc hs h
  have hturns : (sampleSurface.turns longDatabase "s").map (·.head?.map (·.ordinal)) = [some 1] := by decide +kernel
  have hlabels : (sampleSurface.windows longDatabase "s" 1 50).map (·.map (·.labels.head?.map (·.2.ordinal))) =
      some [some 27, some 1] := by decide +kernel
  rw [hwindows] at hlabels
  cases windows
  case nil => cases hlabels
  case cons w windows =>
    have hfirst : w.labels.head?.map (·.2.ordinal) = some 27 := by
      simp only [Option.map_some, List.map_cons, Option.some.injEq, List.cons.injEq] at hlabels
      exact hlabels.left
    obtain ⟨label, hlabel, hordinal⟩ := Option.map_eq_some_iff.mp hfirst
    obtain ⟨g, hg, hhead⟩ := hheads w List.mem_cons_self label hlabel
    have hin : g.head?.map (·.ordinal) ∈ [some (1 : ℤ)] := hturns ▸ List.mem_map_of_mem hg
    rw [hhead, Option.map_some, hordinal] at hin
    simp at hin

end Samples
end Conversation
