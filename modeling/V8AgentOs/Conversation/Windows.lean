import V8AgentOs.Conversation.Turns

-- A window shows whole turns where the rows that were scanned for it say where its first turn begins.
namespace Conversation

open Python (Json Text strip)
open Segments (segments cut headAfter heads Lasting)

section Grouping

variable (text : Text)

def isUser (m : Message) : Bool :=
  text.lower (strip m.role) = "user"

-- Whether a row begins a turn, after a turn with a first row
def breaks (first m : Message) : Bool :=
  isUser text m || (!isUser text first && orphanKeyOf text first ≠ "" && orphanKeyOf text m ≠ "" &&
    orphanKeyOf text first ≠ orphanKeyOf text m)

variable {text} {first m : Message} {rows l : List Message} {g : Grouping}

theorem breaks_of_user (h : isUser text m = true) : breaks text first m = true := by
  simp [breaks, h]

-- The state of the loop in a turn
structure InTurn (text : Text) (g : Grouping) (first : Message) : Prop where
  current   : g.current ≠ []
  orphanKey : g.orphanKey = if isUser text first then "" else orphanKeyOf text first
  user      : g.startsWithUser = isUser text first

theorem add_of_breaks (hg : InTurn text g first) (hb : breaks text first m = true) :
    InTurn text (g.add text m) m ∧ (g.add text m).groups = g.groups ++ [g.current] ∧ (g.add text m).current = [m] := by
  have hne : g.current.isEmpty = false := by simpa using hg.current
  cases hm : isUser text m
  case true =>
    have hrole : text.lower (strip m.role) = "user" := by simpa [isUser] using hm
    have hadd : g.add text m = ⟨g.groups ++ [g.current], [m], "", true⟩ := by simp [Grouping.add, hrole, hne]
    rw [hadd]
    exact ⟨⟨by simp, by simp [hm], by simp [hm]⟩, rfl, rfl⟩
  case false =>
    have hrole : text.lower (strip m.role) ≠ "user" := by simpa [isUser] using hm
    simp only [breaks, hm, Bool.false_or, Bool.and_eq_true, Bool.not_eq_true', decide_eq_true_eq] at hb
    obtain ⟨⟨⟨hfirst, hkey⟩, hmkey⟩, hdiff⟩ := hb
    have hstarts : g.startsWithUser = false := hg.user.trans hfirst
    have horphan : g.orphanKey = orphanKeyOf text first := by simpa [hfirst] using hg.orphanKey
    have hadd : g.add text m = ⟨g.groups ++ [g.current], [m], orphanKeyOf text m, false⟩ := by
      simp [Grouping.add, hrole, hstarts, hg.current, horphan, hkey, hmkey, hdiff]
    rw [hadd]
    exact ⟨⟨by simp, by simp [hm], by simp [hm]⟩, rfl, rfl⟩

theorem add_of_stays (hg : InTurn text g first) (hb : breaks text first m = false) :
    InTurn text (g.add text m) first ∧ (g.add text m).groups = g.groups ∧
      (g.add text m).current = g.current ++ [m] := by
  have hne : g.current.isEmpty = false := by simpa using hg.current
  simp only [breaks, Bool.or_eq_false_iff] at hb
  have hrole : text.lower (strip m.role) ≠ "user" := by simpa [isUser] using hb.left
  have hadd : g.add text m = { g with current := g.current ++ [m] } := by
    cases hfirst : isUser text first
    case true => simp [Grouping.add, hrole, hg.user.trans hfirst]
    case false =>
      have horphan : g.orphanKey = orphanKeyOf text first := by simpa [hfirst] using hg.orphanKey
      have hstay : ¬(!g.current.isEmpty && g.orphanKey ≠ "" && orphanKeyOf text m ≠ "" &&
          g.orphanKey ≠ orphanKeyOf text m) = true := by
        simpa [hne, horphan, hfirst] using hb.right
      rw [Grouping.add, if_neg hrole, if_neg (by simp [hg.user.trans hfirst])]
      dsimp only
      rw [if_neg hstay, if_neg (by simp [hne])]
  rw [hadd]
  exact ⟨⟨by simp, hg.orphanKey, hg.user⟩, rfl, rfl⟩

def Grouping.finish (g : Grouping) : List (List Message) :=
  if g.current.isEmpty then g.groups else g.groups ++ [g.current]

theorem finish_foldl (rows : List Message) (hg : InTurn text g first) :
    (rows.foldl (Grouping.add text) g).finish =
      g.groups ++ (g.current ++ (cut (breaks text) (some first) rows).1) ::
        (cut (breaks text) (some first) rows).2 := by
  induction rows generalizing g first
  case nil =>
    have hne : g.current.isEmpty = false := by simpa using hg.current
    simp [Grouping.finish, hne, cut]
  case cons m rows hi =>
    rw [List.foldl_cons]
    cases hb : breaks text first m
    case true =>
      obtain ⟨hin, hgroups, hcurrent⟩ := add_of_breaks hg hb
      rw [hi hin, hgroups, hcurrent, Segments.cut_some_of_breaks hb]
      simp
    case false =>
      obtain ⟨hin, hgroups, hcurrent⟩ := add_of_stays hg hb
      rw [hi hin, hgroups, hcurrent, Segments.cut_some_of_stays hb]
      simp

-- The turns are segments: where a turn ends is said by its first row.
theorem groupTurns_eq_segments : groupTurns text rows = segments (breaks text) rows := by
  cases rows
  case nil => rfl
  case cons m rows =>
    have hg : InTurn text (({} : Grouping).add text m) m ∧ (({} : Grouping).add text m).groups = [] ∧
        (({} : Grouping).add text m).current = [m] := by
      cases hm : isUser text m
      case true =>
        have hrole : text.lower (strip m.role) = "user" := by simpa [isUser] using hm
        have hadd : ({} : Grouping).add text m = ⟨[], [m], "", true⟩ := by simp [Grouping.add, hrole]
        rw [hadd]
        exact ⟨⟨by simp, by simp [hm], by simp [hm]⟩, rfl, rfl⟩
      case false =>
        have hrole : text.lower (strip m.role) ≠ "user" := by simpa [isUser] using hm
        have hadd : ({} : Grouping).add text m = ⟨[], [m], orphanKeyOf text m, false⟩ := by
          simp [Grouping.add, hrole]
        rw [hadd]
        exact ⟨⟨by simp, by simp [hm], by simp [hm]⟩, rfl, rfl⟩
    obtain ⟨hin, hgroups, hcurrent⟩ := hg
    have hfold := finish_foldl rows hin
    rw [hgroups, hcurrent] at hfold
    rw [Segments.segments_cons]
    exact hfold

theorem flatten_groupTurns (text : Text) (rows : List Message) : (groupTurns text rows).flatten = rows := by
  rw [groupTurns_eq_segments, Segments.flatten_segments]

theorem lasting_of_user (h : isUser text first = true) : Lasting (breaks text) (isUser text) (some first) := by
  intro m hm
  simpa [breaks, h] using hm

theorem lasting_of_no_key (h : orphanKeyOf text first = "") : Lasting (breaks text) (isUser text) (some first) := by
  intro m hm
  simpa [breaks, h] using hm

-- A turn without a user message that other runs end
def Keyed (text : Text) (first : Message) : Prop :=
  isUser text first = false ∧ orphanKeyOf text first ≠ ""

theorem keyed_headAfter (hf : Keyed text first) (hl : ∀ m ∈ l, isUser text m = false) :
    ∃ last, headAfter (breaks text) (some first) l = some last ∧ Keyed text last := by
  induction l generalizing first
  case nil => exact ⟨first, rfl, hf⟩
  case cons m l hi =>
    have hl' : ∀ m ∈ l, isUser text m = false := fun b hb => hl b (List.mem_cons_of_mem m hb)
    rw [headAfter]
    cases hb : breaks text first m
    case false => simpa [hb] using hi hf hl'
    case true  =>
      have hm := hl m List.mem_cons_self
      have hkey : orphanKeyOf text m ≠ "" := by
        simp only [breaks, hm, Bool.false_or, Bool.and_eq_true, decide_eq_true_eq] at hb
        exact hb.left.right
      simpa [hb] using hi ⟨hm, hkey⟩ hl'

theorem lasting_headAfter (hf : Lasting (breaks text) (isUser text) (some first)) :
    Lasting (breaks text) (isUser text) (headAfter (breaks text) (some first) l) := by
  induction l generalizing first
  case nil => exact hf
  case cons m l hi =>
    rw [headAfter]
    cases hb : breaks text first m
    case false => simpa [hb] using hi hf
    case true  => simpa [hb] using hi (lasting_of_user (hf m hb))

theorem lasting_headAfter_of_user {h : Option Message} (hl : ∃ m ∈ l, isUser text m = true) :
    Lasting (breaks text) (isUser text) (headAfter (breaks text) h l) := by
  induction l generalizing h
  case nil => obtain ⟨m, hm, -⟩ := hl; cases hm
  case cons a l hi =>
    rw [headAfter]
    cases ha : isUser text a
    case true =>
      have hb : h.all (breaks text · a) = true := Segments.breaks_of_hard (fun _ _ => breaks_of_user) ha
      rw [if_pos hb]
      exact lasting_headAfter (lasting_of_user ha)
    case false =>
      obtain ⟨m, hm, hu⟩ := hl
      cases hm
      case head    => rw [hu] at ha; cases ha
      case tail hm => exact hi ⟨m, hm, hu⟩

-- The rows that were scanned for a window say where its turns begin: they are all rows before the cursor, or the window
-- is not full, or they have enough user messages, or the turn in which they begin is one that other runs end, as all
-- turns are before the first user message of a session that begins with a run.
def Bounded (text : Text) (limit : ℕ) (earlier scanned : List Message) : Prop :=
  earlier = [] ∨ (groupTurns text scanned).length ≤ limit ∨ limit ≤ scanned.countP (isUser text) ∨
    (∀ m ∈ earlier, isUser text m = false) ∧ ∀ m ∈ earlier.head?, orphanKeyOf text m ≠ ""

variable {limit : ℕ} {earlier scanned : List Message}

theorem suffix_of_keyed {last : Message} (hlast : Keyed text last) (hb : breaks text last m = false) :
    (cut (breaks text) (some m) l).2 <:+ (cut (breaks text) (some last) l).2 := by
  by_cases hkey : orphanKeyOf text m = ""
  case pos => exact Segments.cut_of_lasting (fun _ _ => breaks_of_user) (lasting_of_no_key hkey)
  case neg =>
    simp only [breaks, Bool.or_eq_false_iff] at hb
    have hsame : orphanKeyOf text last = orphanKeyOf text m := by simpa [hlast.left, hlast.right, hkey] using hb.right
    have hcut : (cut (breaks text) (some m) l).2 = (cut (breaks text) (some last) l).2 := by
      apply Segments.cut_congr
      intro a _
      show breaks text m a = breaks text last a
      rw [breaks, breaks, hsame, hb.left, hlast.left]
    rw [hcut]

-- The window shows the last turns of all rows before the cursor.
theorem rtake_of_bounded (hb : Bounded text limit earlier scanned)
    (hstop : earlier = [] ∨ limit < (groupTurns text scanned).length) :
    (groupTurns text (earlier ++ scanned)).rtake limit = (groupTurns text scanned).rtake limit := by
  rw [groupTurns_eq_segments, groupTurns_eq_segments]
  by_cases hnil : earlier = []
  case pos => rw [hnil, List.nil_append]
  case neg =>
    have hlong := hstop.resolve_left hnil
    have hsuffix : (cut (breaks text) (headAfter (breaks text) none earlier) scanned).2 <:+
        segments (breaks text) (earlier ++ scanned) := Segments.cut_append
    obtain hshort | husers | ⟨horphan, hkey⟩ := hb.resolve_left hnil
    · omega
    · have hsharp : ∀ first m, isUser text m = true → breaks text first m = true := fun _ _ => breaks_of_user
      rw [Segments.rtake_of_suffix hsuffix (Nat.le_trans husers (Segments.countP_le_length_cut hsharp))]
      exact Segments.rtake_cut hsharp husers
    · cases earlier
      case nil => exact absurd rfl hnil
      case cons first earlier =>
        have hfirst : Keyed text first := ⟨horphan first List.mem_cons_self, hkey first rfl⟩
        obtain ⟨last, hlast, hkeyed⟩ := keyed_headAfter hfirst fun m hm => horphan m (List.mem_cons_of_mem first hm)
        have hafter : headAfter (breaks text) none (first :: earlier) = some last := hlast
        rw [groupTurns_eq_segments] at hlong
        rw [hafter] at hsuffix
        cases scanned
        case nil => exact absurd hlong (Nat.not_lt_zero _)
        case cons m scanned =>
          rw [Segments.segments_cons, List.length_cons] at hlong
          rw [Segments.segments_cons]
          have htail : (cut (breaks text) (some m) scanned).2 <:+
              (cut (breaks text) (some last) (m :: scanned)).2 := by
            cases hb : breaks text last m
            case true =>
              rw [Segments.cut_some_of_breaks hb]
              exact List.suffix_cons _ _
            case false =>
              rw [Segments.cut_some_of_stays hb]
              exact suffix_of_keyed hkeyed hb
          rw [Segments.rtake_of_suffix (htail.trans hsuffix) (Nat.le_of_lt_succ hlong),
            Segments.rtake_of_suffix (List.suffix_cons _ _) (Nat.le_of_lt_succ hlong)]

theorem lasting_of_unbounded (hb : ¬Bounded text limit earlier scanned) :
    Lasting (breaks text) (isUser text) (headAfter (breaks text) none earlier) := by
  simp only [Bounded, not_or] at hb
  obtain ⟨hnil, -, -, horphan⟩ := hb
  by_cases hu : ∃ m ∈ earlier, isUser text m = true
  case pos => exact lasting_headAfter_of_user hu
  case neg =>
    cases earlier
    case nil => exact absurd rfl hnil
    case cons first earlier =>
      have hkey : orphanKeyOf text first = "" := by
        by_contra hkey
        apply horphan
        refine ⟨fun m hm => by simpa using fun h => hu ⟨m, hm, h⟩, fun m hm => ?_⟩
        cases hm
        exact hkey
      exact lasting_headAfter (lasting_of_no_key hkey)

-- Otherwise it begins in the middle of a turn.
theorem not_head_of_unbounded (hb : ¬Bounded text limit earlier scanned) (hnodup : (earlier ++ scanned).Nodup)
    (hx : ((groupTurns text scanned).rtake limit).flatten.head? = some m) :
    m ∉ heads (groupTurns text (earlier ++ scanned)) := by
  intro hhead
  have hlasting := lasting_of_unbounded hb
  simp only [Bounded, not_or, not_le] at hb
  obtain ⟨-, hlong, hfew, -⟩ := hb
  rw [groupTurns_eq_segments] at hx hlong hhead
  have hsegmented : Segments.Segmented (breaks text) ((segments (breaks text) scanned).rtake limit) :=
    Segments.segmented_split.behind
  have hsuffix : ((segments (breaks text) scanned).rtake limit).flatten <:+ scanned := by
    refine ⟨((segments (breaks text) scanned).rdrop limit).flatten, ?_⟩
    rw [← List.flatten_append, Segments.rdrop_append_rtake, Segments.flatten_segments]
  have hlength : ((segments (breaks text) scanned).rtake limit).length = limit := by
    rw [List.rtake, List.length_drop]
    omega
  have hmem : m ∈ scanned := hsuffix.subset (List.mem_of_mem_head? hx)
  have huser : isUser text m = true := by
    cases Segments.heads_append hhead
    case inl he => exact absurd hmem ((List.nodup_append.mp hnodup).right.right m he m · rfl)
    case inr hh => exact Segments.hard_of_heads (fun _ => lasting_of_user) hlasting hh
  cases hw : (segments (breaks text) scanned).rtake limit
  case nil => rw [hw] at hx; cases hx
  case cons g gs =>
    rw [hw] at hsegmented hx hlength hsuffix
    obtain ⟨a, l, rfl, -, -⟩ := And.left hsegmented
    cases hx
    have hmany : gs.length + 1 ≤ ((m :: l) :: gs).flatten.countP (isUser text) :=
      Segments.length_le_countP (fun _ => lasting_of_user) hsegmented huser
    have hle := hsuffix.sublist.countP_le (p := isUser text)
    rw [List.length_cons] at hlength
    omega

end Grouping
end Conversation
