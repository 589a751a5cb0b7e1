import Mathlib.Algebra.Ring.Int.Defs
import Mathlib.Algebra.Ring.Nat
import Mathlib.Data.Finset.Card
import Mathlib.Data.Int.Order.Basic
import Mathlib.Data.List.Induction
import Mathlib.Order.Bounds.Basic

-- packages/session-realtime/src/event-sequence.ts
--
-- An argument of type `unknown` stands for the integer that `Number` makes of it, and is `none`
-- where `Number` gives no integer: a fraction, an infinity or `NaN`.
namespace SessionRealtime

abbrev Unknown := Option ℤ

-- `Number.MAX_SAFE_INTEGER`
def maxSafeInteger : ℕ := 2 ^ 53 - 1

def positiveSequence : Unknown → ℕ
  | some seq => if 0 < seq ∧ seq ≤ maxSafeInteger then seq.toNat else 0
  | none     => 0

structure Gap where
  expectedSeq    : ℕ
  observedSeq    : ℕ
  missingFromSeq : ℕ
  missingToSeq   : ℕ
  deriving DecidableEq, Repr

-- The cursor is the only caller that is modelled, and its prefix is never negative.
def detectSessionRuntimeEventGap (observedSeq : Unknown) (contiguous : ℕ) : Option Gap :=
  let observed := positiveSequence observedSeq
  if observed = 0 ∨ observed ≤ contiguous + 1 then none
  else some {
    expectedSeq    := contiguous + 1
    observedSeq    := observed
    missingFromSeq := contiguous + 1
    missingToSeq   := observed - 1
  }

structure Continuity where
  seq                : ℕ
  contiguousSeq      : ℕ
  highestObservedSeq : ℕ
  gap                : Option Gap
  deriving DecidableEq, Repr

inductive ObservationReason
  | pendingDuplicate
  | snapshotCovered
  | contiguousDuplicate
  deriving DecidableEq, Repr

structure Observation extends Continuity where
  acceptEvent       : Bool
  observationReason : Option ObservationReason
  deriving DecidableEq, Repr

-- `SessionRuntimeEventContiguousCursor`
structure Cursor where
  contiguous      : ℕ
  highest         : ℕ
  snapshotCovered : ℕ
  pending         : Finset ℕ
  deriving DecidableEq

namespace Cursor

-- The constructor
def new (initialCoveredSeq : Unknown) : Cursor where
  contiguous      := positiveSequence initialCoveredSeq
  highest         := positiveSequence initialCoveredSeq
  snapshotCovered := positiveSequence initialCoveredSeq
  pending         := ∅

-- Each turn of the loop takes a number out of `pending`.
def advanceFrom (pending : Finset ℕ) (contiguous : ℕ) : ℕ × Finset ℕ :=
  if _h : contiguous + 1 ∈ pending
  then advanceFrom (pending.erase (contiguous + 1)) (contiguous + 1)
  else (contiguous, pending)
  termination_by pending.card
  decreasing_by exact Finset.card_erase_lt_of_mem ‹_›

def advanceContiguousPrefix (cur : Cursor) : Cursor :=
  let (contiguous, pending) := advanceFrom cur.pending cur.contiguous
  { cur with contiguous, pending }

def snapshot (cur : Cursor) (seq : ℕ) : Continuity where
  seq                := seq
  contiguousSeq      := cur.contiguous
  highestObservedSeq := cur.highest
  gap :=
    if cur.contiguous < cur.highest
    then detectSessionRuntimeEventGap (some cur.highest) cur.contiguous
    else none

def coverThrough (cur : Cursor) (coveredSeq : Unknown) : Continuity × Cursor :=
  let seq := positiveSequence coveredSeq
  let cur := { cur with snapshotCovered := max cur.snapshotCovered seq }
  let cur :=
    if cur.contiguous < seq
    then { cur with contiguous := seq, pending := cur.pending.filter (seq < ·) }
    else cur
  let cur := { cur with highest := max cur.highest seq }.advanceContiguousPrefix
  (cur.snapshot seq, cur)

def observe (cur : Cursor) (observedSeq : Unknown) : Observation × Cursor :=
  let seq := positiveSequence observedSeq
  let (acceptEvent, observationReason, cur) :=
    if 0 < seq ∧ seq ≤ cur.snapshotCovered then (false, some .snapshotCovered, cur)
    else if 0 < seq ∧ seq ∈ cur.pending then (false, some .pendingDuplicate, cur)
    else if 0 < seq ∧ seq ≤ cur.contiguous then (false, some .contiguousDuplicate, cur)
    else if cur.contiguous < seq then (true, none, { cur with pending := insert seq cur.pending })
    else (true, none, cur)
  let cur := { cur with highest := max cur.highest seq }.advanceContiguousPrefix
  ({ cur.snapshot seq with acceptEvent, observationReason }, cur)

end Cursor

inductive Call
  | observe (observedSeq : Unknown)
  | coverThrough (coveredSeq : Unknown)

namespace Cursor

def call (cur : Cursor) : Call → Cursor
  | .observe observedSeq     => (cur.observe observedSeq).2
  | .coverThrough coveredSeq => (cur.coverThrough coveredSeq).2

-- A cursor's life, from its construction
def run (initialCoveredSeq : Unknown) (calls : List Call) : Cursor :=
  calls.foldl call (new initialCoveredSeq)

end Cursor
end SessionRealtime

namespace SessionRealtime

open Cursor

variable {init : Unknown} {calls calls' : List Call} {cur : Cursor} {x : Unknown} {s : ℕ}

def Call.seq : Call → ℕ
  | observe x      => positiveSequence x
  | coverThrough x => positiveSequence x

-- A snapshot covers the number.
def Covered (init : Unknown) (calls : List Call) (s : ℕ) : Prop :=
  s ≤ positiveSequence init ∨ ∃ x, .coverThrough x ∈ calls ∧ s ≤ positiveSequence x

def Observed (calls : List Call) (s : ℕ) : Prop :=
  ∃ x, .observe x ∈ calls ∧ positiveSequence x = s

-- The numbers whose whole prefix is known.
def Prefixes (init : Unknown) (calls : List Call) : Set ℕ :=
  { c | ∀ s, 0 < s → s ≤ c → Covered init calls s ∨ Observed calls s }

-- The numbers that the cursor was told of.
def Told (init : Unknown) (calls : List Call) : Set ℕ :=
  { n | n = positiveSequence init ∨ ∃ c ∈ calls, c.seq = n }

theorem covered_observe : Covered init (calls ++ [.observe x]) s ↔ Covered init calls s := by
  simp [Covered]

theorem covered_coverThrough :
    Covered init (calls ++ [.coverThrough x]) s ↔ Covered init calls s ∨ s ≤ positiveSequence x := by
  simp only [Covered, List.mem_append, List.mem_singleton, Call.coverThrough.injEq, or_assoc,
    or_and_right, exists_or, exists_eq_left]

theorem observed_observe :
    Observed (calls ++ [.observe x]) s ↔ Observed calls s ∨ positiveSequence x = s := by
  simp only [Observed, List.mem_append, List.mem_singleton, Call.observe.injEq, or_and_right,
    exists_or, exists_eq_left]

theorem observed_coverThrough :
    Observed (calls ++ [.coverThrough x]) s ↔ Observed calls s := by
  simp [Observed]

theorem told_append {n : ℕ} {c : Call} (h : IsGreatest (Told init calls) n) :
    IsGreatest (Told init (calls ++ [c])) (max n c.seq) := by
  have told : Told init (calls ++ [c]) = insert c.seq (Told init calls) := by
    ext n
    simp only [Told, List.mem_append, List.mem_singleton, or_and_right, exists_or, exists_eq_left,
      Set.mem_ofPred_eq, Set.mem_insert_iff]
    grind
  rw [told, max_comm]
  exact h.insert _

theorem told_known {n : ℕ} (h : n ∈ Told init calls) : Covered init calls n ∨ Observed calls n := by
  cases h
  case inl hn => exact .inl (.inl hn.le)
  case inr hc =>
    have ⟨c, hc, hn⟩ := hc
    cases c
    case observe x      => exact .inr ⟨x, hc, hn⟩
    case coverThrough x => exact .inl (.inr ⟨x, hc, hn.ge⟩)

theorem positiveSequence_self {n : ℕ} (h : n = positiveSequence x) :
    positiveSequence (some n) = n := by
  have : n ≤ maxSafeInteger := by
    cases x <;> grind [positiveSequence]
  grind [positiveSequence]

namespace Cursor

-- What the loop makes of the numbers above the prefix.
structure Advanced (pending : Finset ℕ) (c : ℕ) (after : ℕ × Finset ℕ) : Prop where
  le      : c ≤ after.1
  filled  : ∀ s, c < s → s ≤ after.1 → s ∈ pending
  pending : ∀ s, s ∈ after.2 ↔ after.1 < s ∧ s ∈ pending
  next    : after.1 + 1 ∉ after.2

theorem advanceFrom_advanced {pending : Finset ℕ} {c : ℕ} (h : ∀ s ∈ pending, c < s) :
    Advanced pending c (advanceFrom pending c) := by
  induction pending, c using advanceFrom.induct
  case case1 pending c hc hi =>
    rw [advanceFrom, dif_pos hc]
    have above : ∀ s ∈ pending.erase (c + 1), c + 1 < s := by
      intro s hs
      have ⟨hne, hs⟩ := Finset.mem_erase.mp hs
      have := h s hs
      omega
    have hi := hi above
    have hle := hi.le
    constructor
    case le => omega
    case filled =>
      intro s hs hle
      by_cases he : s = c + 1
      case pos => exact he ▸ hc
      case neg => exact Finset.mem_of_mem_erase (hi.filled s (by omega) hle)
    case pending =>
      intro s
      rw [hi.pending, Finset.mem_erase]
      constructor
      · exact fun ⟨hs, _, hp⟩ => ⟨hs, hp⟩
      · exact fun ⟨hs, hp⟩ => ⟨hs, by omega, hp⟩
    case next => exact hi.next
  case case2 pending c hc =>
    rw [advanceFrom, dif_neg hc]
    constructor
    case le      => exact Nat.le_refl _
    case filled  => intro s _ _; omega
    case pending => exact fun s => ⟨fun hs => ⟨h s hs, hs⟩, And.right⟩
    case next    => exact hc

-- How a cursor stands to the calls that were made, before its prefix is advanced.
structure Tracks (init : Unknown) (calls : List Call) (cur : Cursor) : Prop where
  covered : ∀ s, s ≤ cur.snapshotCovered ↔ Covered init calls s
  within  : cur.snapshotCovered ≤ cur.contiguous
  pending : ∀ s, s ∈ cur.pending ↔ cur.contiguous < s ∧ Observed calls s
  filled  : cur.contiguous ∈ Prefixes init calls
  highest : IsGreatest (Told init calls) cur.highest

structure Settled (init : Unknown) (calls : List Call) (cur : Cursor) : Prop
  extends Tracks init calls cur where
  next : cur.contiguous + 1 ∉ cur.pending

theorem Settled.new : Settled init [] (new init) := by
  refine ⟨?_, Finset.notMem_empty _⟩
  constructor
  case covered => simp [Covered, Cursor.new]
  case within  => exact Nat.le_refl _
  case pending => simp [Observed, Cursor.new]
  case filled  => exact fun s _ hs => .inl (.inl hs)
  case highest => simp [Told, Cursor.new]

theorem Tracks.advance (h : Tracks init calls cur) :
    Settled init calls cur.advanceContiguousPrefix := by
  have ha := advanceFrom_advanced fun s hs => ((h.pending s).mp hs).left
  refine ⟨?_, ha.next⟩
  constructor
  case covered => exact h.covered
  case within  => exact h.within.trans ha.le
  case highest => exact h.highest
  case pending =>
    intro s
    have := ha.le
    show s ∈ (advanceFrom _ _).2 ↔ (advanceFrom _ _).1 < s ∧ _
    rw [ha.pending, h.pending]
    constructor
    · exact fun ⟨hs, _, ho⟩ => ⟨hs, ho⟩
    · exact fun ⟨hs, ho⟩ => ⟨hs, by omega, ho⟩
  case filled =>
    intro s hp hs
    by_cases hc : s ≤ cur.contiguous
    case pos => exact h.filled s hp hc
    case neg => exact .inr ((h.pending s).mp (ha.filled s (by omega) hs)).right

theorem Tracks.coverThrough (h : Tracks init calls cur) :
    Settled init (calls ++ [.coverThrough x]) (cur.coverThrough x).2 := by
  refine Tracks.advance ?_
  -- The same holds whether the snapshot goes beyond the prefix or not.
  have filled : max cur.contiguous (positiveSequence x) ∈ Prefixes init (calls ++ [.coverThrough x]) := by
    intro s hp hs
    rw [covered_coverThrough, observed_coverThrough]
    cases le_max_iff.mp hs
    case inl hs => exact (h.filled s hp hs).imp_left .inl
    case inr hs => exact .inl (.inr hs)
  have := h.within
  split
  case isTrue hlt =>
    have hlt : cur.contiguous < positiveSequence x := hlt
    constructor
    case covered => intro s; rw [covered_coverThrough, ← h.covered]; exact le_max_iff
    case within  => show max cur.snapshotCovered (positiveSequence x) ≤ positiveSequence x; omega
    case filled  => exact max_eq_right_of_lt hlt ▸ filled
    case highest => exact told_append h.highest
    case pending =>
      intro s
      rw [observed_coverThrough, Finset.mem_filter, h.pending]
      show (_ ∧ _) ∧ positiveSequence x < s ↔ positiveSequence x < s ∧ _
      constructor
      · exact fun ⟨⟨_, ho⟩, hs⟩ => ⟨hs, ho⟩
      · exact fun ⟨hs, ho⟩ => ⟨⟨by omega, ho⟩, hs⟩
  case isFalse hle =>
    have hle : ¬cur.contiguous < positiveSequence x := hle
    constructor
    case covered => intro s; rw [covered_coverThrough, ← h.covered]; exact le_max_iff
    case within  => show max cur.snapshotCovered (positiveSequence x) ≤ cur.contiguous; omega
    case filled  => exact max_eq_left (Nat.le_of_not_lt hle) ▸ filled
    case highest => exact told_append h.highest
    case pending => intro s; rw [observed_coverThrough]; exact h.pending s

-- A number is accepted exactly when it was not known.
theorem observe_accepts (h : Tracks init calls cur) (hx : 0 < positiveSequence x) :
    (cur.observe x).1.acceptEvent ↔
      ¬Covered init calls (positiveSequence x) ∧ ¬Observed calls (positiveSequence x) := by
  have hf := h.filled _ hx
  simp only [Cursor.observe, hx, true_and]
  split_ifs with hc hp hk hn
  case pos => simp [(h.covered _).mp hc]
  case pos => simp [((h.pending _).mp hp).right]
  case pos =>
    rw [h.covered] at hc
    simp [hc, (hf hk).resolve_left hc]
  case pos =>
    rw [h.covered] at hc
    rw [h.pending] at hp
    simpa [hc] using fun ho => hp ⟨hn, ho⟩
  case neg => exact absurd hk (by omega)

-- The reasons for a refusal leave only one way to change the pending numbers.
theorem observe_snd (h : cur.snapshotCovered ≤ cur.contiguous) :
    (cur.observe x).2 = {
      cur with
      highest := max cur.highest (positiveSequence x)
      pending :=
        if cur.contiguous < positiveSequence x
        then insert (positiveSequence x) cur.pending
        else cur.pending
    : Cursor }.advanceContiguousPrefix := by
  simp only [Cursor.observe]
  split_ifs with hc hn hp hn hk hn hn
  case pos => omega
  case neg => rfl
  case pos => rw [Finset.insert_eq_of_mem hp.right]
  case neg => rfl
  case pos => omega
  case neg => rfl
  case pos => rfl
  case neg => rfl

theorem Tracks.observe (h : Tracks init calls cur) :
    Settled init (calls ++ [.observe x]) (cur.observe x).2 := by
  rw [observe_snd h.within]
  refine Tracks.advance ?_
  constructor
  case covered => intro s; rw [covered_observe, h.covered]
  case within  => exact h.within
  case highest => exact told_append h.highest
  case filled =>
    intro s hp hs
    rw [covered_observe, observed_observe]
    exact (h.filled s hp hs).imp_right .inl
  case pending =>
    intro s
    rw [observed_observe]
    show s ∈ ite _ _ _ ↔ cur.contiguous < s ∧ _
    split
    case isTrue hn =>
      rw [Finset.mem_insert, h.pending]
      constructor
      · intro hs
        cases hs
        case inl he => exact ⟨he ▸ hn, .inr he.symm⟩
        case inr hs => exact ⟨hs.left, .inl hs.right⟩
      · exact fun ⟨hs, ho⟩ => ho.elim (fun ho => .inr ⟨hs, ho⟩) fun he => .inl he.symm
    case isFalse hn =>
      rw [h.pending]
      exact and_congr_right fun hs => ⟨.inl, fun ho => ho.resolve_right fun he => hn (he ▸ hs)⟩

theorem run_append {c : Call} : run init (calls ++ [c]) = (run init calls).call c :=
  List.foldl_concat _ _ _ _

theorem run_settled : Settled init calls (run init calls) := by
  induction calls using List.reverseRecOn
  case nil => exact .new
  case append_singleton calls c hi =>
    rw [run_append]
    cases c
    case observe      => exact hi.toTracks.observe
    case coverThrough => exact hi.toTracks.coverThrough

-- The number after the prefix is not known, since it would be pending.
theorem Settled.missing (h : Settled init calls cur) :
    ¬(Covered init calls (cur.contiguous + 1) ∨ Observed calls (cur.contiguous + 1)) := by
  intro hn
  cases hn
  case inl hs =>
    have := (h.covered _).mpr hs
    have := h.within
    omega
  case inr hs => exact h.next ((h.pending _).mpr ⟨by omega, hs⟩)

theorem Settled.contiguous (h : Settled init calls cur) :
    IsGreatest (Prefixes init calls) cur.contiguous := by
  refine ⟨h.filled, fun c hc => ?_⟩
  by_contra hlt
  exact h.missing (hc (cur.contiguous + 1) (by omega) (by omega))

-- A snapshot reports a gap whenever a later number was told of.
theorem Settled.gap (h : Settled init calls cur) {seq : ℕ} :
    (cur.snapshot seq).gap =
      if cur.contiguous < cur.highest
      then some ⟨cur.contiguous + 1, cur.highest, cur.contiguous + 1, cur.highest - 1⟩
      else none := by
  simp only [snapshot]
  split
  case isFalse => rfl
  case isTrue hlt =>
    have same : positiveSequence (some cur.highest) = cur.highest := by
      cases h.highest.left
      case inl hn => exact positiveSequence_self hn
      case inr hn =>
        have ⟨c, _, hn⟩ := hn
        cases c <;> exact positiveSequence_self hn.symm
    have beyond : cur.contiguous + 1 ≠ cur.highest :=
      fun he => h.missing (he ▸ told_known h.highest.left)
    rw [detectSessionRuntimeEventGap, same, if_neg (by omega)]

-- The numbers that are accepted, in the order of the calls
def accepted (cur : Cursor) : List Call → List ℕ
  | []                       => []
  | .coverThrough x :: calls => accepted (cur.coverThrough x).2 calls
  | .observe x :: calls      =>
    let (observation, cur') := cur.observe x
    if observation.acceptEvent ∧ 0 < observation.seq
    then observation.seq :: accepted cur' calls
    else accepted cur' calls

theorem accepted_append :
    accepted cur (calls ++ calls') = accepted cur calls ++ accepted (calls.foldl call cur) calls' := by
  induction calls generalizing cur
  case nil => rfl
  case cons c calls hi =>
    cases c
    case coverThrough => exact hi
    case observe =>
      simp only [List.cons_append, accepted, hi, List.foldl_cons, call]
      split <;> rfl

theorem accepted_observed (h : s ∈ accepted (new init) calls) : Observed calls s := by
  induction calls using List.reverseRecOn
  case nil => exact absurd h List.not_mem_nil
  case append_singleton calls c hi =>
    rw [accepted_append, List.mem_append] at h
    cases h
    case inl h =>
      cases c
      case observe      => exact observed_observe.mpr (.inl (hi h))
      case coverThrough => exact observed_coverThrough.mpr (hi h)
    case inr h =>
      cases c
      case coverThrough => exact absurd h List.not_mem_nil
      case observe x =>
        refine observed_observe.mpr (.inr ?_)
        simp only [accepted] at h
        split at h
        case isTrue  => exact (List.mem_singleton.mp h).symm
        case isFalse => exact absurd h List.not_mem_nil

theorem accepted_nodup : (accepted (new init) calls).Nodup := by
  induction calls using List.reverseRecOn
  case nil => exact .nil
  case append_singleton calls c hi =>
    rw [accepted_append]
    cases c
    case coverThrough => simpa [accepted] using hi
    case observe x =>
      simp only [accepted]
      split
      case isFalse => simpa using hi
      case isTrue h =>
        refine List.nodup_append.mpr ⟨hi, List.nodup_singleton _, ?_⟩
        intro s hs s' hs' he
        -- A number that is accepted was not observed.
        have hn := ((observe_accepts run_settled.toTracks h.right).mp h.left).right
        have he : s = positiveSequence x := he.trans (List.mem_singleton.mp hs')
        exact hn (he ▸ accepted_observed hs)

end Cursor

theorem prefixes_perm (h : calls'.Perm calls) : Prefixes init calls' = Prefixes init calls := by
  simp only [Prefixes, Covered, Observed, h.mem_iff]

theorem told_perm (h : calls'.Perm calls) : Told init calls' = Told init calls := by
  simp only [Told, h.mem_iff]

-- The number's first observation, at which a snapshot did not cover it, is the one that is accepted.
theorem cursor_exact (init : Unknown) (calls : List Call) :
    IsGreatest (Prefixes init calls) (run init calls).contiguous ∧
    IsGreatest (Told init calls) (run init calls).highest ∧
    (∀ before x after, calls = before ++ .observe x :: after → 0 < positiveSequence x →
      (((run init before).observe x).1.acceptEvent ↔
        ¬Covered init before (positiveSequence x) ∧ ¬Observed before (positiveSequence x))) ∧
    (accepted (new init) calls).Nodup ∧
    ∀ calls', calls'.Perm calls → (run init calls').contiguous = (run init calls).contiguous ∧
      (run init calls').highest = (run init calls).highest := by
  refine ⟨run_settled.contiguous, run_settled.highest, ?_, accepted_nodup, ?_⟩
  · intro before x _ _ hx
    exact observe_accepts run_settled.toTracks hx
  · intro calls' hp
    have hc : IsGreatest (Prefixes init calls') (run init calls').contiguous := run_settled.contiguous
    have hh : IsGreatest (Told init calls') (run init calls').highest := run_settled.highest
    rw [prefixes_perm hp] at hc
    rw [told_perm hp] at hh
    exact ⟨hc.unique run_settled.contiguous, hh.unique run_settled.highest⟩

end SessionRealtime
