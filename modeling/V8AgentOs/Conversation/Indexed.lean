import V8AgentOs.Conversation.Followed

-- The entries of the index are the turns of the session.
namespace Conversation

open Python (Json Text strip)

variable {db : Database} {sessionId : String} {surface : Surface} {m : Message} {g g' rows earlier later : List Message}

-- The run that a message without a run id names is a text.
def Sourced (m : Message) : Prop :=
  m.metadata.get "sourceRunId" = .null ∨ ∃ run, m.metadata.get "sourceRunId" = .str run

section Rows

theorem orphanKeyOf_indexRow (h : Sourced m) :
    orphanKeyOf surface.text.toText (surface.indexRow m) = orphanKeyOf surface.text.toText m := by
  have hcolumn : (surface.indexRow m).metadata.get "sourceRunId" = m.metadata.get "sourceRunId" := by
    obtain h | ⟨run, h⟩ := h
    · exact (congrArg surface.column h).trans (surface.columnNull.trans h.symm)
    · exact (congrArg surface.column h).trans ((surface.columnText run).trans h.symm)
  rw [orphanKeyOf, orphanKeyOf, hcolumn]
  rfl

theorem turns_of_index (h : ∀ m ∈ db.visible sessionId, Sourced m) :
    surface.groups (surface.getChatCanonicalTurnIndexRows db sessionId) =
      (surface.turns db sessionId).map (List.map surface.indexRow) := by
  rw [Surface.groups, Surface.getChatCanonicalTurnIndexRows, Surface.turns, groupTurns_eq_segments,
    groupTurns_eq_segments]
  apply Segments.segments_map
  intro a ha b hb
  rw [breaks, breaks, orphanKeyOf_indexRow (h a ha), orphanKeyOf_indexRow (h b hb)]
  rfl

-- The entry of a turn of messages
def Surface.entryOf (surface : Surface) (sessionId : String) (turn : List Message × ℕ) : Entry :=
  surface.entry sessionId (turn.1.map surface.indexRow) turn.2

theorem entries_eq (h : ∀ m ∈ db.visible sessionId, Sourced m) : surface.entries db sessionId =
    ((surface.turns db sessionId).zipIdx 1).map (surface.entryOf sessionId) := by
  rw [Surface.entries, Surface.buildCanonicalTurnIndexEntries, turns_of_index h, List.zipIdx_map, List.map_map]
  rfl

variable {turn : List Message × ℕ}

theorem turnId_entryOf : (surface.entryOf sessionId turn).turnId = surface.stableTurnId sessionId turn.1 := by
  obtain ⟨g, position⟩ := turn
  cases g <;> rfl

theorem firstOrdinal_entryOf : (surface.entryOf sessionId turn).firstOrdinal = earliestOrdinal turn.1 := by
  show earliestOrdinal _ = _
  rw [earliestOrdinal, List.map_map]
  rfl

theorem lastOrdinal_entryOf : (surface.entryOf sessionId turn).lastOrdinal = latestOrdinal turn.1 := by
  show latestOrdinal _ = _
  rw [latestOrdinal, List.map_map]
  rfl

-- The rows from the first one of some to the last one of them
theorem range_eq (hasc : Ascending (earlier ++ rows ++ later)) (hv : db.visible sessionId = earlier ++ rows ++ later)
    {first last : Message} (hfirst : rows.head? = some first) (hlast : rows.getLast? = some last) :
    db.getChatCanonicalMessagesInOrdinalRange sessionId first.ordinal last.ordinal = rows := by
  have hmem := List.mem_of_head? hfirst
  have hmem' := List.mem_of_getLast? hlast
  have hlow : ∀ b ∈ rows, first.ordinal ≤ b.ordinal := by
    obtain ⟨rest, rfl⟩ := List.head?_eq_some_iff.mp hfirst
    exact fun b hb => hasc.left.right.earliest_le hb
  have hhigh : ∀ b ∈ rows, b.ordinal ≤ last.ordinal := by
    obtain ⟨rest, rfl⟩ := List.getLast?_eq_some_iff.mp hlast
    intro b hb
    cases List.mem_append.mp hb
    case inl hb => exact le_of_lt (hasc.left.right.lt hb (List.mem_singleton_self last))
    case inr hb => exact le_of_eq (congrArg Message.ordinal (List.mem_singleton.mp hb))
  have hle := hlow last hmem'
  rw [Database.getChatCanonicalMessagesInOrdinalRange, hv, min_eq_left hle, max_eq_right hle, List.filter_append,
    List.filter_append]
  have hearlier : earlier.filter (fun m => first.ordinal ≤ m.ordinal && m.ordinal ≤ last.ordinal) = [] := by
    rw [List.filter_eq_nil_iff]
    intro a ha
    have := hasc.left.lt ha hmem
    simp only [Bool.and_eq_true, decide_eq_true_eq]
    omega
  have hlater : later.filter (fun m => first.ordinal ≤ m.ordinal && m.ordinal ≤ last.ordinal) = [] := by
    rw [List.filter_eq_nil_iff]
    intro a ha
    have := hasc.lt (List.mem_append_right earlier hmem') ha
    simp only [Bool.and_eq_true, decide_eq_true_eq]
    omega
  have hrows : rows.filter (fun m => first.ordinal ≤ m.ordinal && m.ordinal ≤ last.ordinal) = rows := by
    rw [List.filter_eq_self]
    intro a ha
    simp [hlow a ha, hhigh a ha]
  rw [hearlier, hlater, hrows, List.nil_append, List.append_nil]

end Rows

-- The messages of an entry
def Database.members (db : Database) (sessionId : String) (entry : Entry) : List Message :=
  db.getChatCanonicalMessagesInOrdinalRange sessionId entry.firstOrdinal entry.lastOrdinal

theorem ascending_mem (hasc : Ascending (db.visible sessionId)) (hg : g ∈ surface.turns db sessionId) :
    Ascending g := by
  obtain ⟨A, B, hsplit⟩ := List.append_of_mem hg
  rw [← flatten_turns surface, hsplit, List.flatten_append, List.flatten_cons] at hasc
  exact hasc.right.left

theorem earliestOrdinal_head (hasc : Ascending g) (hm : g.head? = some m) : earliestOrdinal g = m.ordinal := by
  obtain ⟨rest, rfl⟩ := List.head?_eq_some_iff.mp hm
  exact earliestOrdinal_cons hasc

theorem latestOrdinal_last (hasc : Ascending g) (hm : g.getLast? = some m) : latestOrdinal g = m.ordinal := by
  obtain ⟨rest, rfl⟩ := List.getLast?_eq_some_iff.mp hm
  exact latestOrdinal_concat hasc

theorem within (hasc : Ascending g) (hm : m ∈ g) : earliestOrdinal g ≤ m.ordinal ∧ m.ordinal ≤ latestOrdinal g := by
  constructor
  case left =>
    cases g
    case nil        => cases hm
    case cons a l => exact le_of_eq_of_le (earliestOrdinal_cons hasc) (hasc.earliest_le hm)
  case right =>
    obtain ⟨last, hlast⟩ : ∃ last, g.getLast? = some last :=
      ⟨_, List.getLast?_eq_some_getLast (List.ne_nil_of_mem hm)⟩
    rw [latestOrdinal_last hasc hlast]
    obtain ⟨rest, rfl⟩ := List.getLast?_eq_some_iff.mp hlast
    cases List.mem_append.mp hm
    case inl hm => exact le_of_lt (hasc.lt hm (List.mem_singleton_self last))
    case inr hm => exact le_of_eq (congrArg Message.ordinal (List.mem_singleton.mp hm))

-- The rows of turns that come after each other
theorem range_block (hasc : Ascending (db.visible sessionId)) {A B C : List (List Message)} {g₀ g₁ : List Message}
    (hsplit : surface.turns db sessionId = A ++ B ++ C) (hfirst : B.head? = some g₀) (hlast : B.getLast? = some g₁) :
    db.getChatCanonicalMessagesInOrdinalRange sessionId (earliestOrdinal g₀) (latestOrdinal g₁) = B.flatten := by
  have hmem : ∀ g ∈ B, g ∈ surface.turns db sessionId := by
    intro g hg
    rw [hsplit]
    simp [hg]
  have hmem₀ := hmem g₀ (List.mem_of_head? hfirst)
  have hmem₁ := hmem g₁ (List.mem_of_getLast? hlast)
  obtain ⟨first, hfirst'⟩ : ∃ first, g₀.head? = some first := by
    cases g₀
    case nil        => exact absurd rfl (turns_ne_nil hmem₀)
    case cons a _   => exact ⟨a, rfl⟩
  obtain ⟨last, hlast'⟩ : ∃ last, g₁.getLast? = some last :=
    ⟨_, List.getLast?_eq_some_getLast (turns_ne_nil hmem₁)⟩
  rw [earliestOrdinal_head (ascending_mem hasc hmem₀) hfirst', latestOrdinal_last (ascending_mem hasc hmem₁) hlast']
  have hv : db.visible sessionId = A.flatten ++ B.flatten ++ C.flatten := by
    rw [← flatten_turns surface, hsplit, List.flatten_append, List.flatten_append]
  apply range_eq (hv ▸ hasc) hv
  · obtain ⟨rest, rfl⟩ := List.head?_eq_some_iff.mp hfirst
    rw [List.flatten_cons, List.head?_append, hfirst']
    rfl
  · obtain ⟨rest, rfl⟩ := List.getLast?_eq_some_iff.mp hlast
    rw [List.flatten_append, List.getLast?_append]
    simp [hlast']

theorem members_entryOf (hasc : Ascending (db.visible sessionId)) {turn : List Message × ℕ}
    (hturn : turn.1 ∈ surface.turns db sessionId) :
    db.members sessionId (surface.entryOf sessionId turn) = turn.1 := by
  obtain ⟨A, C, hsplit⟩ := List.append_of_mem hturn
  have hblock : surface.turns db sessionId = A ++ [turn.1] ++ C := by simpa using hsplit
  have hrange : db.getChatCanonicalMessagesInOrdinalRange sessionId (earliestOrdinal turn.1) (latestOrdinal turn.1) =
      [turn.1].flatten := range_block hasc hblock rfl rfl
  rw [Database.members, firstOrdinal_entryOf, lastOrdinal_entryOf, hrange]
  simp

-- What an entry says of its messages is what a turn says.
theorem entries_labels (surface : Surface) (hasc : Ascending (db.visible sessionId))
    (hs : ∀ m ∈ db.visible sessionId, Sourced m) :
    (surface.entries db sessionId).map (fun e => (db.members sessionId e).map fun m => (some e.turnId, m)) =
      (surface.turns db sessionId).map (surface.label sessionId) := by
  rw [entries_eq hs, List.map_map]
  have hfst : (surface.turns db sessionId).map (surface.label sessionId) =
      ((surface.turns db sessionId).zipIdx 1).map fun turn => surface.label sessionId turn.1 := by
    conv => lhs; rw [← List.zipIdx_map_fst 1 (surface.turns db sessionId), List.map_map]
    rfl
  rw [hfst]
  apply List.map_congr_left
  intro turn hturn
  have hmem : turn.1 ∈ surface.turns db sessionId := List.fst_mem_of_mem_zipIdx hturn
  rw [Function.comp_apply, members_entryOf hasc hmem, turnId_entryOf]
  rfl

section Around

-- The entry among some turns in whose range a message is
theorem find_entry (hasc : Ascending (db.visible sessionId)) {turns : List (List Message × ℕ)}
    (hturns : ∀ turn ∈ turns, turn.1 ∈ surface.turns db sessionId) (hg : g ∈ turns.map Prod.fst) (hm : m ∈ g) :
    ∃ entry, (turns.map (surface.entryOf sessionId)).reverse.find? (fun entry =>
      entry.firstOrdinal ≤ m.ordinal && m.ordinal ≤ entry.lastOrdinal) = some entry ∧
        entry.turnId = surface.stableTurnId sessionId g := by
  obtain ⟨turn, hturn, rfl⟩ := List.mem_map.mp hg
  have hmem := hturns turn hturn
  have hvisible : m ∈ db.visible sessionId := by
    rw [← flatten_turns surface]
    exact List.mem_flatten_of_mem hmem hm
  have hsome : ((turns.map (surface.entryOf sessionId)).reverse.find? (fun entry =>
      entry.firstOrdinal ≤ m.ordinal && m.ordinal ≤ entry.lastOrdinal)).isSome = true := by
    rw [List.find?_isSome]
    refine ⟨surface.entryOf sessionId turn, List.mem_reverse.mpr (List.mem_map_of_mem hturn), ?_⟩
    have hrange := within (ascending_mem hasc hmem) hm
    simp [firstOrdinal_entryOf, lastOrdinal_entryOf, hrange.left, hrange.right]
  obtain ⟨entry, hentry⟩ := Option.isSome_iff_exists.mp hsome
  refine ⟨entry, hentry, ?_⟩
  obtain ⟨turn', hturn', rfl⟩ := List.mem_map.mp (List.mem_reverse.mp (List.mem_of_find?_eq_some hentry))
  have hrange := List.find?_some hentry
  simp only [Bool.and_eq_true, decide_eq_true_eq] at hrange
  have hm' : m ∈ turn'.1 := by
    rw [← members_entryOf hasc (hturns turn' hturn')]
    apply List.mem_filter.mpr ⟨hvisible, ?_⟩
    simp only [Bool.and_eq_true, decide_eq_true_eq]
    omega
  rw [turnId_entryOf, nodup_groups (flatten_turns surface ▸ hasc.nodup) (hturns turn' hturn') hmem hm' hm]

variable {entry : Entry} {neighborTurns : ℤ}

-- The turn ids of the turns differ where those of the messages do.
theorem turn_of_id (hasc : Ascending (db.visible sessionId))
    (hids : ∀ a ∈ db.visible sessionId, ∀ b ∈ db.visible sessionId,
      surface.stableTurnId sessionId [a] = surface.stableTurnId sessionId [b] → a = b)
    (hg : g ∈ surface.turns db sessionId) (hg' : g' ∈ surface.turns db sessionId)
    (heq : surface.stableTurnId sessionId g = surface.stableTurnId sessionId g') : g = g' := by
  cases g
  case nil => exact absurd rfl (turns_ne_nil hg)
  case cons a l =>
    cases g'
    case nil => exact absurd rfl (turns_ne_nil hg')
    case cons b l' =>
      have hvisible {a : Message} {l : List Message} (hg : a :: l ∈ surface.turns db sessionId) :
          a ∈ db.visible sessionId := by
        rw [← flatten_turns surface]
        exact List.mem_flatten_of_mem hg List.mem_cons_self
      have hab := hids a (hvisible hg) b (hvisible hg') heq
      exact nodup_groups (flatten_turns surface ▸ hasc.nodup) hg hg' List.mem_cons_self (hab ▸ List.mem_cons_self)

-- Among messages that are shown with their turns, those of a turn
theorem filter_shown {turns : List (List Message)} {f : Message → Shown} (hrow : ∀ m, (f m).row = m)
    (hf : ∀ g ∈ turns, ∀ m ∈ g, (f m).turnId = some (surface.stableTurnId sessionId g)) (hnodup : turns.flatten.Nodup)
    (hg : g ∈ turns)
    (hids : ∀ g' ∈ turns, surface.stableTurnId sessionId g' = surface.stableTurnId sessionId g → g' = g) :
    ((turns.flatten.map f).filter (·.turnId = some (surface.stableTurnId sessionId g))).map (·.row) = g := by
  obtain ⟨A, C, rfl⟩ := List.append_of_mem hg
  have hother {B : List (List Message)} (hB : ∀ g' ∈ B, g' ∈ A ++ g :: C) (hout : ∀ m ∈ B.flatten, m ∉ g) :
      (B.flatten.map f).filter (·.turnId = some (surface.stableTurnId sessionId g)) = [] := by
    rw [List.filter_eq_nil_iff]
    intro shown hshown
    obtain ⟨m, hm, rfl⟩ := List.mem_map.mp hshown
    obtain ⟨g', hg', hm'⟩ := List.mem_flatten.mp hm
    rw [hf g' (hB g' hg') m hm', decide_eq_true_eq, Option.some_inj]
    exact fun heq => hout m hm (hids g' (hB g' hg') heq ▸ hm')
  have hsame : (g.map f).filter (·.turnId = some (surface.stableTurnId sessionId g)) = g.map f := by
    rw [List.filter_eq_self]
    intro shown hshown
    obtain ⟨m, hm, rfl⟩ := List.mem_map.mp hshown
    simp [hf g hg m hm]
  rw [List.flatten_append, List.flatten_cons] at hnodup ⊢
  obtain ⟨-, hrest, hapart⟩ := List.nodup_append.mp hnodup
  have hleft := hother (B := A) (fun g' hg' => List.mem_append_left _ hg') fun m hm hmg =>
    hapart m hm m (List.mem_append_left _ hmg) rfl
  have hright := hother (B := C) (fun g' hg' => List.mem_append_right _ (List.mem_cons_of_mem g hg')) fun m hm hmg =>
    (List.nodup_append.mp hrest).right.right m hmg m hm rfl
  rw [List.map_append, List.map_append, List.filter_append, List.filter_append, hleft, hright, hsame,
    List.nil_append, List.append_nil, List.map_map]
  conv => rhs; rw [← List.map_id g]
  exact List.map_congr_left fun m _ => hrow m

theorem around_spec (hasc : Ascending (db.visible sessionId)) (hs : ∀ m ∈ db.visible sessionId, Sourced m)
    (hids : ∀ a ∈ db.visible sessionId, ∀ b ∈ db.visible sessionId,
      surface.stableTurnId sessionId [a] = surface.stableTurnId sessionId [b] → a = b)
    (hentry : entry ∈ surface.entries db sessionId) :
    ∃ w, surface.windowAround db sessionId entry.turnId neighborTurns = some w ∧
      w.anchorTurnId = some entry.turnId ∧
      (w.messages.filter (·.turnId = some entry.turnId)).map (·.row) = db.members sessionId entry := by
  rw [entries_eq hs] at hentry
  obtain ⟨turn, hturn, rfl⟩ := List.mem_map.mp hentry
  have hmem : turn.1 ∈ surface.turns db sessionId := List.fst_mem_of_mem_zipIdx hturn
  rw [members_entryOf hasc hmem]
  have hsome : (((surface.turns db sessionId).zipIdx 1).map (surface.entryOf sessionId)).findIdx?
      (·.turnId = (surface.entryOf sessionId turn).turnId) ≠ none := by
    rw [Ne, List.findIdx?_eq_none_iff]
    exact fun h => by simpa using h _ hentry
  obtain ⟨i, hi⟩ := Option.ne_none_iff_exists'.mp hsome
  obtain ⟨hlt, hid, -⟩ := List.findIdx?_eq_some_iff_getElem.mp hi
  have hfound : surface.buildCanonicalTurnIndexEntries sessionId (surface.getChatCanonicalTurnIndexRows db sessionId) =
      ((surface.turns db sessionId).zipIdx 1).map (surface.entryOf sessionId) := entries_eq hs
  have hlength : i < ((surface.turns db sessionId).zipIdx 1).length := by rwa [List.length_map] at hlt
  have hsub : ∀ other ∈ (surface.turns db sessionId).zipIdx 1, other.1 ∈ surface.turns db sessionId :=
    fun other h => List.fst_mem_of_mem_zipIdx h
  have hfst : ((surface.turns db sessionId).zipIdx 1).map Prod.fst = surface.turns db sessionId :=
    List.zipIdx_map_fst _ _
  rw [Surface.windowAround]
  simp only [hfound, hi, Option.bind_eq_bind, Option.bind_some, List.getElem?_eq_getElem hlt]
  generalize (surface.turns db sessionId).zipIdx 1 = turns at *
  obtain ⟨anchor, hanchor⟩ : ∃ anchor, turns[i]? = some anchor := ⟨_, List.getElem?_eq_getElem hlength⟩
  have hanchorId : surface.stableTurnId sessionId anchor.1 = surface.stableTurnId sessionId turn.1 := by
    have h := decide_eq_true_eq.mp hid
    rw [List.getElem_map, turnId_entryOf, turnId_entryOf] at h
    have hget := (List.getElem?_eq_getElem hlength).symm.trans hanchor
    rwa [Option.some.inj hget] at h
  have hsame : anchor.1 = turn.1 :=
    turn_of_id hasc hids (hsub anchor (List.mem_of_getElem? hanchor)) hmem hanchorId
  generalize hstart : i - clamp 0 5 neighborTurns = start
  generalize hstop : min (turns.map (surface.entryOf sessionId)).length (i + clamp 0 5 neighborTurns + 1) = stop
  have hwithin : anchor ∈ (turns.take stop).drop start := by
    rw [List.mem_iff_getElem?]
    refine ⟨i - start, ?_⟩
    rw [List.length_map] at hstop
    rw [List.getElem?_drop, List.getElem?_take, if_pos (by omega), ← hanchor]
    congr 1
    omega
  have hsplit : surface.turns db sessionId = ((turns.take stop).take start).map Prod.fst ++
      ((turns.take stop).drop start).map Prod.fst ++ (turns.drop stop).map Prod.fst := by
    rw [← List.map_append, List.take_append_drop, ← List.map_append, List.take_append_drop, hfst]
  have hblock : ∀ other ∈ (turns.take stop).drop start, other.1 ∈ surface.turns db sessionId :=
    fun other h => hsub other (List.mem_of_mem_take (List.mem_of_mem_drop h))
  simp only [← List.map_take, ← List.map_drop, List.head?_map, List.getLast?_map]
  generalize (turns.take stop).drop start = block at *
  cases hfirst : block.head?
  case none => rw [List.head?_eq_none_iff.mp hfirst] at hwithin; cases hwithin
  case some first =>
    obtain ⟨last, hlast⟩ : ∃ last, block.getLast? = some last :=
      ⟨_, List.getLast?_eq_some_getLast (List.ne_nil_of_mem hwithin)⟩
    have hrange : db.getChatCanonicalMessagesInOrdinalRange sessionId (earliestOrdinal first.1)
        (latestOrdinal last.1) = (block.map Prod.fst).flatten :=
      range_block hasc hsplit (by rw [List.head?_map, hfirst]; rfl) (by rw [List.getLast?_map, hlast]; rfl)
    rw [hlast]
    refine ⟨_, rfl, congrArg some (decide_eq_true_eq.mp hid), ?_⟩
    simp only [firstOrdinal_entryOf, lastOrdinal_entryOf, hrange, Surface.formatCanonicalChatRows, List.map_map,
      turnId_entryOf]
    have hnodup : (block.map Prod.fst).flatten.Nodup := by
      have h := hasc.nodup
      rw [← flatten_turns surface, hsplit, List.flatten_append, List.flatten_append] at h
      exact (List.nodup_append.mp (List.nodup_append.mp h).left).right.left
    apply filter_shown
    case hnodup => exact hnodup
    case hg     => exact List.mem_map.mpr ⟨anchor, hwithin, hsame⟩
    case hrow   =>
      intro m
      simp only [Function.comp_apply]
      split <;> rfl
    case hf     =>
      intro g hg m hm
      obtain ⟨entry, hentry, hid⟩ := find_entry hasc hblock hg hm
      simp only [Function.comp_apply, hentry, hid]
    case hids   =>
      intro g' hg' heq
      obtain ⟨other, hother, rfl⟩ := List.mem_map.mp hg'
      exact turn_of_id hasc hids (hblock other hother) hmem heq

end Around
end Conversation
