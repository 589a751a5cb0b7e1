import V8AgentOs.Conversation.Windows

-- What the queries read, and the rows that the loop of a window ends with
namespace Conversation

open Python (Json Text strip)

def Ascending (rows : List Message) : Prop :=
  rows.Pairwise (·.ordinal < ·.ordinal)

variable {db : Database} {sessionId : String} {surface : Surface} {m : Message} {rows earlier later : List Message}

theorem ascending_visible (h : ((db.visible sessionId).map (·.ordinal)).Nodup) : Ascending (db.visible sessionId) := by
  have hle : (db.visible sessionId).Pairwise (·.ordinal ≤ ·.ordinal) := by
    have : IsTrans Message (·.ordinal ≤ ·.ordinal) := ⟨fun _ _ _ => le_trans⟩
    have : Std.Total fun a b : Message => a.ordinal ≤ b.ordinal := ⟨fun _ _ => le_total _ _⟩
    exact List.pairwise_insertionSort _ _
  have hne := List.pairwise_map.mp h
  exact (List.Pairwise.and hle hne).imp fun h => lt_of_le_of_ne h.left h.right

namespace Ascending

theorem left (h : Ascending (earlier ++ later)) : Ascending earlier :=
  (List.pairwise_append.mp h).left

theorem right (h : Ascending (earlier ++ later)) : Ascending later :=
  (List.pairwise_append.mp h).right.left

theorem lt (h : Ascending (earlier ++ later)) {a b : Message} (ha : a ∈ earlier) (hb : b ∈ later) :
    a.ordinal < b.ordinal :=
  (List.pairwise_append.mp h).right.right a ha b hb

theorem nodup (h : Ascending rows) : rows.Nodup :=
  h.imp fun hlt heq => absurd (heq ▸ hlt) (lt_irrefl _)

theorem eq_of_ordinal (h : Ascending rows) {a b : Message} (ha : a ∈ rows) (hb : b ∈ rows)
    (heq : a.ordinal = b.ordinal) : a = b := by
  induction rows
  case nil => cases ha
  case cons c rows hi =>
    have hc := List.pairwise_cons.mp h
    cases ha
    case head =>
      cases hb
      case head    => rfl
      case tail hb => exact absurd heq (ne_of_lt (hc.left b hb))
    case tail ha =>
      cases hb
      case head    => exact absurd heq.symm (ne_of_lt (hc.left a ha))
      case tail hb => exact hi hc.right ha hb

theorem earliest_le (h : Ascending (m :: rows)) {b : Message} (hb : b ∈ m :: rows) : m.ordinal ≤ b.ordinal := by
  cases hb
  case head    => exact le_refl _
  case tail hb => exact le_of_lt ((List.pairwise_cons.mp h).left b hb)

-- The rows before the first one of others
theorem filter_before (h : Ascending (earlier ++ m :: later)) :
    (earlier ++ m :: later).filter (·.ordinal < m.ordinal) = earlier := by
  have hlater : (m :: later).filter (·.ordinal < m.ordinal) = [] := by
    rw [List.filter_eq_nil_iff]
    intro b hb
    simpa using h.right.earliest_le hb
  have hearlier : earlier.filter (·.ordinal < m.ordinal) = earlier := by
    rw [List.filter_eq_self]
    intro a ha
    simpa using h.lt ha List.mem_cons_self
  rw [List.filter_append, hearlier, hlater, List.append_nil]

theorem sortedRows_reverse (h : Ascending rows) : sortedRows rows.reverse = rows := by
  have htrans : IsTrans Message Message.Upto := by
    refine ⟨fun a b c hab hbc => ?_⟩
    rcases hab with hab | ⟨hab, hab'⟩ <;> rcases hbc with hbc | ⟨hbc, hbc'⟩
    · exact .inl (lt_trans hab hbc)
    · exact .inl (hbc ▸ hab)
    · exact .inl (hab ▸ hbc)
    · exact .inr ⟨hab.trans hbc, String.le_trans hab' hbc'⟩
  have htotal : Std.Total Message.Upto := by
    refine ⟨fun a b => ?_⟩
    rcases lt_trichotomy a.ordinal b.ordinal with hlt | heq | hgt
    · exact .inl (.inl hlt)
    · exact (String.le_total a.createdAt b.createdAt).imp (fun h => .inr ⟨heq, h⟩) fun h => .inr ⟨heq.symm, h⟩
    · exact .inr (.inl hgt)
  have hperm := (List.perm_insertionSort Message.Upto rows.reverse).trans rows.reverse_perm
  refine hperm.eq_of_pairwise (fun a b ha hb hab hba => ?_) (List.pairwise_insertionSort _ _) (h.imp .inl)
  apply h.eq_of_ordinal (hperm.mem_iff.mp ha) hb
  rcases hab with hab | hab <;> rcases hba with hba | hba <;> omega

end Ascending

theorem earliestOrdinal_eq (hm : m ∈ rows) (hle : ∀ b ∈ rows, m.ordinal ≤ b.ordinal) :
    earliestOrdinal rows = m.ordinal := by
  have hmin : (rows.map (·.ordinal)).min? = some m.ordinal := by
    rw [List.min?_eq_some_iff]
    exact ⟨List.mem_map_of_mem hm, by simpa using hle⟩
  rw [earliestOrdinal, hmin]
  rfl

theorem latestOrdinal_eq (hm : m ∈ rows) (hle : ∀ b ∈ rows, b.ordinal ≤ m.ordinal) :
    latestOrdinal rows = m.ordinal := by
  have hmax : (rows.map (·.ordinal)).max? = some m.ordinal := by
    rw [List.max?_eq_some_iff]
    exact ⟨List.mem_map_of_mem hm, by simpa using hle⟩
  rw [latestOrdinal, hmax]
  rfl

theorem earliestOrdinal_cons (h : Ascending (m :: rows)) : earliestOrdinal (m :: rows) = m.ordinal :=
  earliestOrdinal_eq List.mem_cons_self fun _ => h.earliest_le

theorem earliestOrdinal_reverse (h : Ascending (m :: rows)) : earliestOrdinal (m :: rows).reverse = m.ordinal :=
  earliestOrdinal_eq (by simp) fun b hb => h.earliest_le (List.mem_reverse.mp hb)

theorem latestOrdinal_concat (h : Ascending (rows ++ [m])) : latestOrdinal (rows ++ [m]) = m.ordinal := by
  apply latestOrdinal_eq (by simp)
  intro b hb
  cases List.mem_append.mp hb
  case inl hb => exact le_of_lt (h.lt hb (List.mem_singleton_self m))
  case inr hb => exact le_of_eq (congrArg Message.ordinal (List.mem_singleton.mp hb))

theorem has_before (h : Ascending (earlier ++ m :: later)) (hv : db.visible sessionId = earlier ++ m :: later) :
    db.hasChatCanonicalMessageBeforeOrdinal sessionId m.ordinal = decide (earlier ≠ []) := by
  have hlater : (m :: later).any (·.ordinal < m.ordinal) = false := by
    rw [List.any_eq_false]
    intro b hb
    simpa using h.right.earliest_le hb
  rw [Database.hasChatCanonicalMessageBeforeOrdinal, hv, List.any_append, hlater, Bool.or_false]
  cases earlier
  case nil => rfl
  case cons a earlier => simp [h.lt List.mem_cons_self List.mem_cons_self]

section Limits

variable {limitTurns scanLimit : ℤ}

theorem turnLimit_pos : 0 < turnLimit limitTurns := by
  unfold turnLimit clamp
  omega

theorem chunkLimit_pos : 0 < chunkLimit scanLimit := by
  unfold chunkLimit clamp
  omega

theorem clamp_chunkLimit (scanLimit : ℤ) :
    clamp 1 2000 (orDefault (chunkLimit scanLimit : ℤ) 500) = chunkLimit scanLimit := by
  unfold chunkLimit clamp orDefault
  split <;> omega

end Limits

-- The chunks of the rows before the cursor, from the last one on
section Scan

variable {limit c k n : ℕ} {before : Option ℤ}

theorem reverse_rtake : (rows.rtake n).reverse = rows.reverse.take n := by
  rw [List.rtake_eq_reverse_take_reverse, List.reverse_reverse]

theorem reverse_rdrop : (rows.rdrop n).reverse = rows.reverse.drop n := by
  rw [List.rdrop_eq_reverse_drop_reverse, List.reverse_reverse]

theorem scan_spec (surface : Surface) (limit : ℕ) (hc : 0 < c) (hlimit : clamp 1 2000 (orDefault c 500) = c)
    (hasc : Ascending (rows ++ later)) (hv : db.visible sessionId = rows ++ later)
    (hb : (db.visible sessionId).filter (fun m => before.all (m.ordinal < ·)) = rows.rdrop (k * c))
    (hn : (rows.rdrop (k * c)).length < n) :
    ∃ j, surface.scan db sessionId limit c n before (rows.rtake (k * c)).reverse = some (rows.rtake (j * c)).reverse ∧
      (rows.rdrop (j * c) = [] ∨ limit < (groupTurns surface.text.toText (rows.rtake (j * c))).length) ∧
      ∀ i, k < i → i < j → (groupTurns surface.text.toText (rows.rtake (i * c))).length ≤ limit := by
  induction n generalizing k before
  case zero => exact absurd hn (Nat.not_lt_zero _)
  case succ n hi =>
    have hchunk : db.getChatCanonicalMessagesBeforeOrdinal sessionId before c =
        (rows.reverse.drop (k * c)).take c := by
      rw [Database.getChatCanonicalMessagesBeforeOrdinal, hlimit, hb, reverse_rdrop]
    rw [Surface.scan, hchunk]
    by_cases hnil : (rows.reverse.drop (k * c)).take c = []
    case pos =>
      refine ⟨k, if_pos hnil, .inl ?_, fun i hki hik => absurd hki (Nat.lt_asymm hik)⟩
      rw [← List.reverse_eq_nil_iff, reverse_rdrop]
      exact (List.take_eq_nil_iff.mp hnil).resolve_left (Nat.ne_of_gt hc)
    case neg =>
      have hrows : (rows.rtake (k * c)).reverse ++ (rows.reverse.drop (k * c)).take c =
          (rows.rtake ((k + 1) * c)).reverse := by
        rw [reverse_rtake, reverse_rtake, Nat.succ_mul, List.take_add]
      have hsplit : rows.rdrop ((k + 1) * c) ++ rows.rtake ((k + 1) * c) = rows := Segments.rdrop_append_rtake
      have hshorter : (rows.rdrop ((k + 1) * c)).length < (rows.rdrop (k * c)).length := by
        have hlen : k * c < rows.length := by
          by_contra hge
          exact hnil (by rw [List.drop_eq_nil_of_le (by simpa using hge), List.take_nil])
        rw [List.rdrop, List.rdrop, List.length_take, List.length_take, Nat.succ_mul]
        omega
      rw [if_neg hnil]
      simp only [hrows]
      cases hscanned : rows.rtake ((k + 1) * c)
      case nil =>
        have : rows.rtake (k * c) = [] ∧ (rows.reverse.drop (k * c)).take c = [] := by
          rw [hscanned, List.reverse_nil, List.append_eq_nil_iff, List.reverse_eq_nil_iff] at hrows
          exact hrows
        exact absurd this.right hnil
      case cons first scanned =>
        rw [hscanned] at hsplit
        have hasc' : Ascending (rows.rdrop ((k + 1) * c) ++ first :: (scanned ++ later)) := by
          rw [← List.cons_append, ← List.append_assoc, hsplit]
          exact hasc
        have hv' : db.visible sessionId = rows.rdrop ((k + 1) * c) ++ first :: (scanned ++ later) := by
          rw [← List.cons_append, ← List.append_assoc, hsplit, hv]
        have hascending : Ascending (first :: scanned) := by
          rw [← hsplit] at hasc
          exact hasc.left.right
        rw [earliestOrdinal_reverse hascending, hascending.sortedRows_reverse, has_before hasc' hv']
        split
        case isTrue hstop =>
          refine ⟨k + 1, by rw [hscanned], ?_, fun i hki hik => absurd hki (Nat.not_lt.mpr (Nat.le_of_lt_succ hik))⟩
          rw [hscanned]
          simp only [Bool.or_eq_true, decide_eq_true_eq, Bool.not_eq_true', decide_eq_false_iff_not, not_not] at hstop
          exact hstop.symm
        case isFalse hmore =>
          have hb' : (db.visible sessionId).filter (fun m => (some first.ordinal).all (m.ordinal < ·)) =
              rows.rdrop ((k + 1) * c) := by
            rw [hv']
            exact hasc'.filter_before
          obtain ⟨j, hscan, hstop, hbefore⟩ := hi hb' (by omega)
          rw [hscanned] at hscan
          refine ⟨j, hscan, hstop, fun i hki hij => ?_⟩
          cases Nat.lt_or_eq_of_le (Nat.succ_le_of_lt hki)
          case inl hki => exact hbefore i hki hij
          case inr hki =>
            simp only [Bool.or_eq_true, decide_eq_true_eq, not_or, not_lt] at hmore
            rw [← hki, hscanned]
            exact hmore.left

end Scan
end Conversation
