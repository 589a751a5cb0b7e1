import V8AgentOs.Conversation.Branches

-- A branch shows what its source has shown up to the turn, and a revised question ends it.
namespace Conversation

-- What a reader sees of a message
def Message.said (row : Message) : ℤ × String × String × Option String × Option String :=
  (row.ordinal, row.role, row.state, row.contentText, row.reasoningText)

namespace Database

variable {db db' : Database} {child s id : String} {m : Moment} {r : Rules} {row : Message} {v : Revising}
  {c : CreateBranch} {found : Found} {rows : List Message}

theorem pairwise_visible : (db.visible s).Pairwise (·.ordinal ≤ ·.ordinal) := by
  have : IsTrans Message (·.ordinal ≤ ·.ordinal) := ⟨fun _ _ _ => le_trans⟩
  have : Std.Total fun a b : Message => a.ordinal ≤ b.ordinal := ⟨fun _ _ => le_total _ _⟩
  exact List.pairwise_insertionSort _ _

-- Messages that are stored in their order are shown in it.
theorem visible_of_pairwise (h : (db.messages.rows.filter (db.shows s)).Pairwise (·.ordinal ≤ ·.ordinal)) :
    db.visible s = db.messages.rows.filter (db.shows s) :=
  h.insertionSort_eq

-- A row of the session after the revision
def rewritten (v : Revising) (content now : String) (row : Message) : Message :=
  if row.id = v.row.id then v.row.revised content now else row

theorem place_rewritten {content now : String} (hrevised : v.row ∈ db.messages.rows) (hrow : row ∈ db.messages.rows) :
    (rewritten v content now row).place = row.place := by
  unfold rewritten
  split
  case isFalse => rfl
  case isTrue hid =>
    have hsame : row = v.row := eq_of_id hrevised hrow hid
    rw [hsame]
    rfl

-- The messages that a revision buries are the visible ones after the revised one.
theorem mem_descendants (hrows : v.rows = db.visible v.sessionId) (hrow : row ∈ db.visible v.sessionId) :
    row.id ∈ v.descendants.map (·.id) ↔ v.row.ordinal < row.ordinal := by
  constructor
  case mp =>
    intro hids
    obtain ⟨descendant, hdescendant, hid⟩ := List.mem_map.mp hids
    obtain ⟨hin, hlt⟩ := List.mem_filter.mp hdescendant
    have hsame : descendant = row := eq_of_id (mem_visible.mp hrow).left (mem_visible.mp (hrows ▸ hin)).left hid
    exact hsame ▸ of_decide_eq_true hlt
  case mpr =>
    intro hlt
    exact List.mem_map_of_mem (List.mem_filter.mpr ⟨hrows ▸ hrow, decide_eq_true hlt⟩)

theorem shows_rewritten {content now : String} (hb : Backed db) (hrows : v.rows = db.visible v.sessionId)
    (hrevised : v.row ∈ db.messages.rows) (hrow : row ∈ db.messages.rows)
    (hsuper : Supersedes v.sessionId (v.descendants.map (·.id)) db db') :
    db'.shows v.sessionId (rewritten v content now row) =
      (decide (row.ordinal ≤ v.row.ordinal) && db.shows v.sessionId row) := by
  have hplace : (rewritten v content now row).place = row.place := place_rewritten hrevised hrow
  have hs : (rewritten v content now row).sessionId = row.sessionId := congrArg Prod.fst hplace
  have hid : (rewritten v content now row).id = row.id := congrArg (·.2.1) hplace
  have hvisible : db.shows v.sessionId row → row ∈ db.visible v.sessionId := by
    intro hshows
    simpa [mem_visible, hrow, shows] using hshows
  unfold shows at hvisible ⊢
  rw [hidden_eq hsuper.evolves.backed, hidden_eq hb, hs, hid, hsuper.marks]
  rw [hidden_eq hb] at hvisible
  by_cases hsession : row.sessionId = v.sessionId
  case neg => simp [hsession]
  case pos =>
    rw [hsession] at hvisible ⊢
    cases hnone : db.mark v.sessionId row.id
    case some => split <;> simp
    case none =>
      have hburied := mem_descendants hrows (hvisible (by simp [hnone]))
      by_cases hlt : v.row.ordinal < row.ordinal
      case pos => simp [hburied.mpr hlt, hlt]
      case neg => simp [mt hburied.mp hlt, not_lt.mp hlt]

-- What a session shows after a revision, if its messages are stored in their order: the messages up to the revised one
theorem visible_of_revise (hsound : Sound db) (hb : Backed db) (hrows : v.rows = db.visible v.sessionId)
    (hrow : v.row ∈ v.rows) (hstored : db.visible v.sessionId = db.messages.rows.filter (db.shows v.sessionId))
    (hr : db.revise m v = some (db', id)) : ∃ content, v.content = some content ∧
      db'.visible v.sessionId =
        ((db.visible v.sessionId).filter (·.ordinal ≤ v.row.ordinal)).map (rewritten v content m.now) := by
  have hmem := mem_visible.mp (hrows ▸ hrow)
  obtain ⟨content, hcontent, hmessages⟩ := rows_of_revise ⟨hmem.left, hmem.right.left⟩ hr
  have hmessages : db'.messages.rows = db.messages.rows.map (rewritten v content m.now) := hmessages
  have hsuper := (supersedes_of_visible hsound hb hrows hrow hr).left
  refine ⟨content, hcontent, ?_⟩
  have hshown : db'.messages.rows.filter (db'.shows v.sessionId) =
      ((db.visible v.sessionId).filter (·.ordinal ≤ v.row.ordinal)).map (rewritten v content m.now) := by
    rw [hmessages, List.filter_map, hstored, List.filter_filter]
    apply congrArg (List.map _)
    exact List.filter_congr fun row hin => shows_rewritten hb hrows hmem.left hin hsuper
  have hordered : (((db.visible v.sessionId).filter (·.ordinal ≤ v.row.ordinal)).map
      (rewritten v content m.now)).Pairwise (·.ordinal ≤ ·.ordinal) := by
    have hordinal : ∀ row ∈ (db.visible v.sessionId).filter (·.ordinal ≤ v.row.ordinal),
        (rewritten v content m.now row).ordinal = row.ordinal := by
      intro row hin
      have hvisible := mem_visible.mp (List.mem_of_mem_filter hin)
      exact congrArg (·.2.2) (place_rewritten hmem.left hvisible.left)
    rw [List.pairwise_map]
    apply (pairwise_visible.filter _).imp_of_mem
    intro row other hrow hother hle
    rw [hordinal row hrow, hordinal other hother]
    exact hle
  rw [visible_of_pairwise (hshown ▸ hordered), hshown]

-- What the copies agree on with the messages
theorem filter_copiesOf {α : Type} {p : Message → Bool} {f : Message → α}
    (hp : ∀ id row, p (copy r m.now m.child.val id row) = p row)
    (hf : ∀ id row, f (copy r m.now m.child.val id row) = f row) :
    ((copiesOf r m rows).filter p).map f = (rows.filter p).map f := by
  let k := fun row : Message × ℕ => copy r m.now m.child.val (m.copies row.2) row.1
  have hpk : p ∘ k = p ∘ Prod.fst := funext fun row => hp _ _
  have hfk : f ∘ k = f ∘ Prod.fst := funext fun row => hf _ _
  calc ((copiesOf r m rows).filter p).map f
    _ = (rows.zipIdx.filter (p ∘ k)).map (f ∘ k)               := by rw [copiesOf, List.filter_map, List.map_map]
    _ = (rows.zipIdx.filter (p ∘ Prod.fst)).map (f ∘ Prod.fst) := by rw [hpk, hfk]
    _ = ((rows.zipIdx.map Prod.fst).filter p).map f            := by rw [List.filter_map, List.map_map]
    _ = (rows.filter p).map f                                  := by rw [List.zipIdx_map_fst]

theorem pairwise_copiesOf (h : rows.Pairwise (·.ordinal ≤ ·.ordinal)) :
    (copiesOf r m rows).Pairwise (·.ordinal ≤ ·.ordinal) := by
  have hsame : (copiesOf r m rows).map (·.ordinal) = rows.map (·.ordinal) := by
    simpa using filter_copiesOf (p := fun _ => true) (f := (·.ordinal)) (fun _ _ => rfl) fun _ _ => rfl
  have hordered : (rows.map (·.ordinal)).Pairwise (· ≤ ·) := List.pairwise_map.mpr h
  exact List.pairwise_map.mp (hsame ▸ hordered)

-- Messages that are written to one session, one after the other
theorem rows_of_insertMessages (hrows : ∀ row ∈ rows, row.sessionId = child)
    (hr : rows.foldlM insertMessage db = some db') :
    db'.messages.rows = db.messages.rows ++ rows ∧ db'.tombstones = db.tombstones ∧
      (∀ other ∈ db.messages.rows, other.sessionId = child → ∀ row ∈ rows, other.ordinal ≠ row.ordinal) ∧
      rows.Pairwise fun a b => a.ordinal ≠ b.ordinal := by
  induction rows generalizing db
  case nil => cases hr; simp
  case cons row rows hi =>
    rw [List.foldlM_cons, Option.bind_eq_bind, Option.bind_eq_some_iff] at hr
    obtain ⟨next, hnext, hr⟩ := hr
    have hsession := hrows row List.mem_cons_self
    obtain ⟨_, hordinal, hnextRows, hnextTombstones, _⟩ := Chronicle.of_insertMessage hnext
    obtain ⟨hall, htombstones, hother, hpairwise⟩ := hi (fun other h => hrows other (List.mem_cons_of_mem row h)) hr
    refine ⟨?_, htombstones.trans hnextTombstones, ?_, ?_⟩
    case _ => simp [hall, hnextRows]
    case _ =>
      intro other hmem hs new hnew
      cases List.mem_cons.mp hnew
      case inl heq  => exact heq ▸ hordinal other hmem (hs.trans hsession.symm)
      case inr hnew => exact hother other (hnextRows ▸ List.mem_append_left _ hmem) hs new hnew
    case _ => exact List.pairwise_cons.mpr ⟨hother row (by simp [hnextRows]) hsession, hpairwise⟩

-- What a branch finds of its source
theorem rows_of_findTurn (hf : db.findTurn r m c = some found) :
    found.rows = (db.visible c.sessionId).filter (·.ordinal ≤ found.last.ordinal) := by
  simp only [findTurn, Option.bind_eq_bind] at hf
  split at hf
  case isTrue => cases hf
  split at hf
  case isTrue => cases hf
  obtain ⟨source, _, hf⟩ := Option.bind_eq_some_iff.mp hf
  obtain ⟨group, _, hf⟩ := Option.bind_eq_some_iff.mp hf
  obtain ⟨last, _, hf⟩ := Option.bind_eq_some_iff.mp hf
  -- The anchor is named, or it is the last message.
  split at hf
  all_goals
    obtain ⟨anchor, _, hf⟩ := Option.bind_eq_some_iff.mp hf
    split at hf
    case isTrue => cases hf
    split at hf
    case isTrue => cases hf
    case isFalse => cases hf; rfl

theorem tables_of_openBranch (ho : db.openBranch r m c found = some db') :
    db'.messages = db.messages ∧ db'.tombstones = db.tombstones := by
  simp only [openBranch, insertSession, Option.bind_eq_bind, Option.bind_eq_some_iff] at ho
  obtain ⟨opened, ⟨sessions, _, hopened⟩, branches, _, ho⟩ := ho
  cases hopened
  cases ho
  exact ⟨rfl, rfl⟩

-- The session of a branch after the copies have been written
structure Filled (m : Moment) (copies : List Message) (db : Database) : Prop where
  sound    : Sound db
  backed   : Backed db
  stored   : ∀ row ∈ copies, row ∈ db.messages.rows
  shown    : db.messages.rows.filter (db.shows m.child.val) = copies
  distinct : (copies.map (·.ordinal)).Nodup

theorem filled_of_insertCopies {opened filled : Database} (hsound : Sound db) (hb : Backed db) (hbranched : Branched db)
    (ho : db.openBranch r m c found = some opened) (hf : opened.insertCopies r m found.rows = some filled) :
    Filled m (copiesOf r m found.rows) filled := by
  have hnew := (elsewhere_openBranch ho).left
  obtain ⟨hmessages, htombstones⟩ := tables_of_openBranch ho
  have hopen := keeps_openBranch hsound ho
  have hopened := evolves_openBranch hb ho
  obtain ⟨hrows, htables, _, hdistinct⟩ := rows_of_insertMessages (fun row hrow => (mem_copiesOf hrow).left) hf
  have hhidden : ∀ row : Message, row.sessionId = m.child.val → filled.hidden row = false := by
    intro row hrow
    apply List.any_eq_false.mpr
    intro t ht hides
    have hsession : t.sessionId = row.sessionId := of_decide_eq_true (Bool.and_eq_true_iff.mp hides).left
    rw [htables, htombstones] at ht
    exact hnew (hrow ▸ hsession ▸ hbranched.housed t ht)
  constructor
  case sound    => exact (keeps_insertCopies hopen.sound hf).sound
  case backed   => exact (evolves_insertCopies hopened.backed hf).backed
  case stored   => exact fun row hrow => hrows ▸ List.mem_append_right _ hrow
  case distinct => exact List.pairwise_map.mpr hdistinct
  case shown =>
    have hothers : db.messages.rows.filter (filled.shows m.child.val) = [] := by
      apply List.filter_eq_nil_iff.mpr
      intro row hrow hshows
      have hsession : row.sessionId = m.child.val := of_decide_eq_true (Bool.and_eq_true_iff.mp hshows).left
      exact hnew (hsession ▸ hsound.home row hrow)
    have hcopies : (copiesOf r m found.rows).filter (filled.shows m.child.val) = copiesOf r m found.rows := by
      apply List.filter_eq_self.mpr
      intro row hrow
      have hsession := (mem_copiesOf hrow).left
      simp [shows, hsession, hhidden row hsession]
    rw [hrows, hmessages, List.filter_append, hothers, hcopies, List.nil_append]

namespace Filled

variable {copies : List Message}

theorem rotate {thread : String} (h : Filled m copies db) : Filled m copies (db.rotate m.child.val thread) := by
  have hkeeps : Sound _ ∧ Moves (fun _ => False) db (db.rotate m.child.val thread) := keeps_rotate h.sound
  exact ⟨hkeeps.left, h.backed.of_eq rfl, h.stored, h.shown, h.distinct⟩

-- What the branch shows after the revision of the copy of the anchor
theorem reviseCopy (h : Filled m copies db) (hordered : copies.Pairwise (·.ordinal ≤ ·.ordinal)) {anchor : Message}
    (hr : db.reviseCopy m c anchor = some db') : db'.visible m.child.val = match c.content with
      | none         => copies
      | some content => (copies.filter (·.ordinal ≤ anchor.ordinal)).map fun row =>
          if row.ordinal = anchor.ordinal then row.revised content m.now else row := by
  have hstored : db.visible m.child.val = db.messages.rows.filter (db.shows m.child.val) :=
    visible_of_pairwise (h.shown ▸ hordered)
  have hvisible : db.visible m.child.val = copies := hstored.trans h.shown
  unfold Database.reviseCopy at hr
  cases hcontent : c.content
  case none =>
    rw [hcontent] at hr
    cases hr
    exact hvisible
  case some content =>
    rw [hcontent] at hr
    simp only [Option.bind_eq_bind, Option.bind_eq_some_iff] at hr
    obtain ⟨row, hrow, revised, hrevised, hr⟩ := hr
    cases hr
    have hin := List.mem_of_find?_eq_some hrow
    have hordinal : row.ordinal = anchor.ordinal := by simpa using List.find?_some hrow
    obtain ⟨replacement, hreplacement, hrevise⟩ := visible_of_revise h.sound h.backed rfl hin hstored hrevised
    cases hreplacement
    simp only [hrevise, hvisible, hordinal]
    apply List.map_congr_left
    intro copy hcopy
    have hcopy : copy ∈ copies := List.mem_of_mem_filter hcopy
    have hrow : row ∈ copies := hvisible ▸ hin
    by_cases hid : copy.id = row.id
    case pos =>
      have hsame : copy = row := eq_of_id (h.stored row hrow) (h.stored copy hcopy) hid
      simp [rewritten, hsame, hordinal]
    case neg =>
      have hne : copy.ordinal ≠ anchor.ordinal := by
        intro heq
        have hsame : copy = row := List.inj_on_of_nodup_map h.distinct hcopy hrow (heq.trans hordinal.symm)
        exact hid (congrArg Message.id hsame)
      simp [rewritten, hid, hne]

end Filled
end Database

open Database

-- The main result on what a branch shows: it says what the source has said up to the last message of the turn, in its
-- order. With a new text it ends at the anchor, which says this text. No message is one of a run.
theorem branch_copies {r : Rules} {m : Moment} {c : CreateBranch} {db db' : Database}
    (h : (conversation r).Reachable db) (hc : db.createBranch r m c = some db') :
    (∀ row ∈ db'.visible m.child.val, row.runId = none) ∧ ∃ found, db.findTurn r m c = some found ∧
      found.rows = (db.visible c.sessionId).filter (·.ordinal ≤ found.last.ordinal) ∧
      (db'.visible m.child.val).map Message.said = match c.content with
        | none         => found.rows.map Message.said
        | some content => (found.rows.filter (·.ordinal ≤ found.anchor.ordinal)).map fun row =>
            if row.ordinal = found.anchor.ordinal then Message.said { row with contentText := some content }
            else row.said := by
  simp only [createBranch, Option.bind_eq_bind, Option.bind_eq_some_iff] at hc
  obtain ⟨found, hfound, opened, hopened, filled, hfilled, revised, hrevised, told, htold, hc⟩ := hc
  have hrows := rows_of_findTurn hfound
  have hordered : (copiesOf r m found.rows).Pairwise (·.ordinal ≤ ·.ordinal) :=
    pairwise_copiesOf (hrows ▸ pairwise_visible.filter _)
  have hfill := filled_of_insertCopies (.of_reachable h) (.of_reachable h) (.of_reachable h) hopened hfilled
  have hrevise := hfill.rotate.reviseCopy hordered hrevised
  have hevents : db'.visible m.child.val = revised.visible m.child.val := by
    obtain ⟨events, _, htold⟩ := Option.bind_eq_some_iff.mp htold
    obtain ⟨events', _, hc⟩ := Option.bind_eq_some_iff.mp hc
    cases htold
    cases hc
    rfl
  rw [hevents, hrevise]
  constructor
  case left =>
    intro row hrow
    split at hrow
    case h_1 => exact (mem_copiesOf hrow).right
    case h_2 =>
      obtain ⟨copy, hcopy, hrow⟩ := List.mem_map.mp hrow
      have hrun := (mem_copiesOf (List.mem_of_mem_filter hcopy)).right
      split at hrow
      case isTrue  => exact hrow ▸ hrun
      case isFalse => exact hrow ▸ hrun
  case right =>
    refine ⟨found, hfound, hrows, ?_⟩
    cases c.content
    case none =>
      simpa using filter_copiesOf (p := fun _ => true) (f := Message.said) (fun _ _ => rfl) fun _ _ => rfl
    case some content =>
      let f := fun row : Message =>
        if row.ordinal = found.anchor.ordinal then Message.said { row with contentText := some content } else row.said
      have hsaid (row : Message) : Message.said (if row.ordinal = found.anchor.ordinal then row.revised content m.now
          else row) = f row :=
        apply_ite Message.said ..
      simp only [List.map_map, Function.comp_def, hsaid]
      exact filter_copiesOf (fun _ _ => rfl) fun _ _ => rfl

section Sample

theorem branch_copies_sample :
    (branched.visible "branch").map Message.said = [(1, "user", "completed", some "why", none)] ∧
    (∀ row ∈ branched.visible "branch", row.runId = none) ∧
      ∃ found, answered.findTurn sampleRules (branchMoment "5" ⟨"branch", by decide⟩) branchCall = some found ∧
        (branched.visible "branch").map Message.said =
          (found.rows.filter (·.ordinal ≤ found.anchor.ordinal)).map fun row =>
            if row.ordinal = found.anchor.ordinal then Message.said { row with contentText := some "why" }
            else row.said := by
  have hempty : (conversation sampleRules).Reachable .empty := .init rfl
  have hanswered : (conversation sampleRules).Reachable answered := hempty.run (run_performAll _ _ answeredCalls)
  have hc : answered.createBranch sampleRules (branchMoment "5" ⟨"branch", by decide⟩) branchCall = some branched :=
    eq_some_getD _ (by decide +kernel)
  obtain ⟨hruns, found, hfound, _, hsaid⟩ := branch_copies hanswered hc
  refine ⟨?_, hruns, found, hfound, hsaid⟩
  decide +kernel

end Sample
end Conversation
