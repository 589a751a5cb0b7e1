import V8AgentOs.Canvas.History
import V8AgentOs.Canvas.Normal

-- The history of a canvas graph against an editor that forgets nothing.
--
-- Undo and redo normalise a stored graph again. The service is such an editor, of which the oldest edits may be
-- forgotten, as long as normalising a saved graph again changes nothing.
namespace Canvas

open Python (Dict Json)
open UndoLog (Entry Legal Seen replay)

-- What is edited, and the edits that can be undone and redone: what each of them found and what it made of it
structure Editor (α : Type) where
  content : α
  undo    : List (α × α)
  redo    : List (α × α)

namespace Editor

variable {α : Type} (same : α → α → Bool) (e : Editor α)

def save (content : α) : Editor α :=
  if same e.content content then { e with content := content }
  else ⟨content, (e.content, content) :: e.undo, []⟩

def back : Way → Option (Editor α)
  | .undo => match e.undo with
    | []              => none
    | edit :: older   => some ⟨edit.1, older, edit :: e.redo⟩
  | .redo => match e.redo with
    | []              => none
    | edit :: others  => some ⟨edit.2, edit :: e.undo, others⟩

end Editor

inductive Request
  | save (graphId : String) (graph : Dict)
  | history (way : Way)

-- A call, and the revision that it expects
structure Op where
  call             : Call
  expectedRevision : ℤ
  request          : Request

namespace Op

variable (r : Rules)

def perform (op : Op) (s : Store) : Option Store :=
  match op.request with
  | .save graphId graph => saveGraph r op.call graphId graph op.expectedRevision s
  | .history way        => applyHistory r op.call way op.expectedRevision s

-- What the editor does, to whom a saved graph comes validated
def edit (op : Op) (e : Editor Document) : Option (Editor Document) :=
  match op.request with
  | .save graphId graph =>
    (r.validateGraph op.call.available (graph.set "graphId" (.str graphId))).map (e.save unchanged ·)
  | .history way        => e.back way

end Op

def performs (r : Rules) (ops : List Op) : Option Store :=
  ops.foldlM (fun s op => op.perform r s) Store.empty

def edits (r : Rules) (ops : List Op) : Option (Editor Document) :=
  ops.foldlM (fun e op => op.edit r e) ⟨.empty "", [], []⟩

-- Neither can be told from the other.
def Alike (a b : Document) : Prop :=
  unchanged a b ∧ unchanged b a

-- The commands of a stack that are kept, with what they found and what they made of it
def Store.kept (s : Store) (ids : List String) : List (Document × Document) :=
  ids.filterMap fun id => (s.commands.find? (·.commandId = id)).map fun c => (c.before, c.after)

def AlikeEdits : List (Document × Document) → List (Document × Document) → Prop :=
  List.Forall₂ fun a b => Alike a.1 b.1 ∧ Alike a.2 b.2

-- The service shows the graph of the editor, its newest edits, and all that it could redo or nothing.
structure Shows (s : Store) (e : Editor Document) : Prop where
  content : Alike (s.document "") e.content
  undo    : AlikeEdits (s.kept (historyStacks s.commands).undo)
    (e.undo.take (historyStacks s.commands).undo.length)
  redo    : AlikeEdits (s.kept (historyStacks s.commands).redo) e.redo ∨ (historyStacks s.commands).redo = []

-- A graph that stays as it is however often it is normalised again
inductive Again (r : Rules) (d : Document) : Document → Prop
  | refl : Again r d d
  | normalize {a b : Document} {graphId : String} : Again r d a →
    r.normalizeGraph { a with graphId := graphId }.toDict graphId = some b → Again r d b

def Settled (r : Rules) (d : Document) : Prop :=
  ∀ a, Again r d a → Alike a d

-- A graph to be saved is such a graph once it is normalised.
def Op.Settled (r : Rules) (op : Op) : Prop :=
  match op.request with
  | .save graphId graph =>
    ∀ d, r.normalizeGraph (graph.set "graphId" (.str graphId)) graphId = some d → Canvas.Settled r d
  | .history _          => True

section Documents

variable {r : Rules} {a b c d : Document} {graphId : String}

theorem Alike.symm (h : Alike a b) : Alike b a :=
  ⟨h.right, h.left⟩

theorem Alike.trans (hab : Alike a b) (hbc : Alike b c) : Alike a c :=
  ⟨Json.eq_trans hab.left hbc.left, Json.eq_trans hbc.right hab.right⟩

theorem unchanged_congr (hab : Alike a b) (hcd : Alike c d) : unchanged a c = unchanged b d := by
  apply Bool.eq_iff_iff.mpr
  constructor
  case mp  => exact fun h => Json.eq_trans (Json.eq_trans hab.right h) hcd.left
  case mpr => exact fun h => Json.eq_trans (Json.eq_trans hab.left h) hcd.right

theorem Again.trans (hab : Again r a b) (hbc : Again r b c) : Again r a c := by
  induction hbc
  case refl                => exact hab
  case normalize _ hn hi => exact .normalize hi hn

theorem Settled.again (h : Settled r d) (ha : Again r d a) : Settled r a :=
  fun b hb => (h b (ha.trans hb)).trans (h a ha).symm

theorem Settled.refl (h : Settled r d) : Alike d d :=
  h d .refl

theorem again_of_graphId (h : Again r { d with graphId := graphId } a) :
    a = { d with graphId := graphId } ∨ Again r d a := by
  induction h
  case refl => exact .inl rfl
  case normalize a b g _ hn hi =>
    cases hi
    case inl ha => subst ha; exact .inr (.normalize .refl hn)
    case inr ha => exact .inr (.normalize ha hn)

theorem Settled.withId (h : Settled r d) : Settled r { d with graphId := graphId } := by
  intro a ha
  cases again_of_graphId ha
  case inl ha => subst ha; exact h.refl
  case inr ha => exact h a ha

theorem normalize_of_validate {available : Dict → Bool} {graph : Dict} (h : r.validateGraph available graph = some d)
    (hg : graph.lookup "graphId" = some (.str graphId)) : r.normalizeGraph graph graphId = some d := by
  have hid : r.text.orEmpty (graph.get "graphId") = graphId := by
    simp only [Dict.get, hg, Option.getD_some, Python.Text.orEmpty, Python.Text.str, Json.truthy]
    by_cases hempty : graphId = ""
    case pos => simp [hempty]
    case neg => simp [hempty]
  rw [Rules.validateGraph, Option.filter_eq_some_iff, hid] at h
  exact h.left

theorem again_of_validate {available : Dict → Bool}
    (h : r.validateGraph available { d with graphId := graphId }.toDict = some a) : Again r d a :=
  .normalize .refl (normalize_of_validate h (by simp [Document.toDict, List.lookup_cons]))

-- A graph that is normalised to itself
theorem settled_of_fixed (hn : (d.nodes.map Json.dict).zipIdx.mapM (fun v => r.normalizeNode v.2 v.1) = some d.nodes)
    (he : (d.edges.map Json.dict).zipIdx.mapM (fun v => r.normalizeEdge (d.nodes.map (r.member · "nodeId")) v.2 v.1) =
      some d.edges) (hself : unchanged d d) : Settled r d := by
  intro a ha
  have hfixed : a.nodes = d.nodes ∧ a.edges = d.edges := by
    induction ha
    case refl => exact ⟨rfl, rfl⟩
    case normalize a b g _ hb hi =>
      obtain ⟨hbn, hbe⟩ := lists_of_normalize hb
      have hnodes : b.nodes = d.nodes := by
        simpa [Document.toDict, Dict.get, List.lookup_cons, listOf, hi, hn] using hbn.symm
      have hedges : b.edges = d.edges := by
        simpa [Document.toDict, Dict.get, List.lookup_cons, listOf, hi, he, hnodes] using hbe.symm
      exact ⟨hnodes, hedges⟩
  have hsame : graphWithoutViewport a = graphWithoutViewport d := by
    rw [graphWithoutViewport, graphWithoutViewport, hfixed.left, hfixed.right]
  constructor
  case left  => rw [unchanged, hsame]; exact hself
  case right => rw [unchanged, hsame]; exact hself

theorem settled_empty : Settled r (.empty graphId) :=
  settled_of_fixed rfl rfl rfl

end Documents

section Invariant

-- A command stands for an edit.
def Stands (all : List Command) (id : String) (edit : Document × Document) : Prop :=
  ∃ c ∈ all, c.commandId = id ∧ Alike c.before edit.1 ∧ Alike c.after edit.2

-- What holds after all commands that were ever written
structure Kept (r : Rules) (all : List Command) (s : Store) (e : Editor Document) : Prop where
  rows     : s.commands = lastOf maxCommandHistory all
  ids      : (all.map (·.commandId)).Nodup
  seen     : Seen maxCommandHistory (all.map (·.entry))
  undo     : List.Forall₂ (Stands all) (replay (all.map (·.entry))).undo e.undo
  redo     : List.Forall₂ (Stands all) (replay (all.map (·.entry))).redo e.redo
  content  : Alike (s.document "") e.content
  settled  : Settled r (s.document "")
  restored : ∀ c ∈ all, Settled r c.before ∧ Settled r c.after

variable {r : Rules} {all : List Command} {s : Store} {e : Editor Document} {id : String}
  {edit : Document × Document} {c : Command}

theorem Stands.mono (h : Stands all id edit) : Stands (all ++ [c]) id edit := by
  obtain ⟨d, hd, h⟩ := h
  exact ⟨d, List.mem_append_left _ hd, h⟩

theorem lastOf_concat {α : Type} {n : ℕ} {items : List α} {item : α} :
    lastOf n (lastOf n items ++ [item]) = lastOf n (items ++ [item]) := by
  simp only [lastOf, List.length_append, List.length_drop, List.length_cons, List.length_nil]
  by_cases h : items.length ≤ n
  case pos =>
    have hd : items.length - n = 0 := by omega
    simp [hd]
  case neg =>
    rw [List.drop_append, List.drop_append, List.drop_drop]
    simp only [List.length_drop]
    congr 2
    all_goals omega

theorem document_alike : Alike (s.document id) e.content ↔ Alike (s.document "") e.content := by
  cases hg : s.graph
  case none   => simp only [Store.document, hg]; rfl
  case some g => simp only [Store.document, hg]; rfl

theorem settled_before (h : Kept r all s e) : Settled r { s.document id with graphId := id } := by
  cases hg : s.graph
  case none   => simp only [Store.document, hg]; exact settled_empty
  case some g =>
    have hs := h.settled
    simp only [Store.document, hg] at hs ⊢
    exact hs.withId

theorem Kept.entries (h : Kept r all s e) :
    s.commands.map (·.entry) = UndoLog.recent maxCommandHistory (all.map (·.entry)) := by
  rw [h.rows, lastOf, UndoLog.recent, List.map_drop, List.length_map]

theorem Kept.legal (h : Kept r all s e) :
    Legal (all.map (·.entry)) ∧ UndoLog.Whole maxCommandHistory (all.map (·.entry)) :=
  UndoLog.legal_of_seen (by decide) h.seen

-- What a call finds on top is on top of all.
theorem Kept.top {way : Way} {target : String} (h : Kept r all s e)
    (ht : (way.stack (historyStacks s.commands)).head? = some target) :
    (way.stack (replay (all.map (·.entry)))).head? = some target := by
  rw [historyStacks, h.entries] at ht
  cases way
  case undo => exact (UndoLog.undo_of_recent h.legal.left ht).left
  case redo => exact (UndoLog.redo_of_recent h.legal.left h.legal.right ht).left

theorem Kept.found (h : Kept r all s e) {d : Command} (hd : s.commands.find? (·.commandId = id) = some d)
    (hs : Stands all id edit) : Alike d.before edit.1 ∧ Alike d.after edit.2 := by
  obtain ⟨c, hc, hid, halike⟩ := hs
  have hmem : d ∈ all := by
    have := List.mem_of_find?_eq_some hd
    rw [h.rows, lastOf] at this
    exact List.mem_of_mem_drop this
  have hdid : d.commandId = id := by simpa using List.find?_some hd
  have : d = c := List.inj_on_of_nodup_map h.ids hmem hc (hdid.trans hid.symm)
  rwa [this]

variable {d : Document} {g : Graph}

-- A saved graph without a change
theorem Kept.stay (h : Kept r all s e) (hg : Alike g.document d) (hs : Settled r g.document) :
    Kept r all ⟨some g, s.commands⟩ { e with content := d } where
  rows     := h.rows
  ids      := h.ids
  seen     := h.seen
  undo     := h.undo
  redo     := h.redo
  content  := hg
  settled  := hs
  restored := h.restored

-- What every command keeps
theorem Kept.command {e' : Editor Document} (h : Kept r all s e) (hnew : c.commandId ∉ all.map (·.commandId))
    (hb : Settled r c.before) (hg : Settled r g.document) (ha : Settled r c.after)
    (hseen : Seen maxCommandHistory ((all ++ [c]).map (·.entry))) (hc : Alike g.document e'.content)
    (hu : List.Forall₂ (Stands (all ++ [c])) (replay ((all ++ [c]).map (·.entry))).undo e'.undo)
    (hr : List.Forall₂ (Stands (all ++ [c])) (replay ((all ++ [c]).map (·.entry))).redo e'.redo) :
    Kept r (all ++ [c]) ⟨some g, insertHistoryCommand s.commands c⟩ e' where
  rows     := by rw [insertHistoryCommand, h.rows, lastOf_concat]
  ids      := by
    rw [List.map_append, List.map_singleton, List.nodup_append]
    exact ⟨h.ids, List.nodup_singleton _, fun x hx y hy => by grind⟩
  seen     := hseen
  undo     := hu
  redo     := hr
  content  := hc
  settled  := hg
  restored := by
    intro x hx
    cases List.mem_append.mp hx
    case inl hx => exact h.restored x hx
    case inr hx => cases List.mem_singleton.mp hx; exact ⟨hb, ha⟩

theorem entries_concat : (all ++ [c]).map (·.entry) = all.map (·.entry) ++ [c.entry] := by
  simp

theorem mem_entries (h : Entry.forward id ∈ all.map (·.entry)) : id ∈ all.map (·.commandId) := by
  obtain ⟨c, hc, he⟩ := List.mem_map.mp h
  cases hd : c.direction
  case forward =>
    simp only [Command.entry, hd] at he
    cases he
    exact List.mem_map.mpr ⟨c, hc, rfl⟩
  all_goals simp [Command.entry, hd] at he

-- A saved graph with a change
theorem Kept.forward (h : Kept r all s e) (hnew : c.commandId ∉ all.map (·.commandId)) (hd : c.direction = .forward)
    (hb : Settled r c.before) (ha : Settled r c.after) (hg : Settled r g.document) (halike : Alike g.document d)
    (hbefore : Alike c.before e.content) (hafter : Alike c.after d) :
    Kept r (all ++ [c]) ⟨some g, insertHistoryCommand s.commands c⟩ ⟨d, (e.content, d) :: e.undo, []⟩ := by
  have hentry : c.entry = .forward c.commandId := by simp [Command.entry, hd]
  apply h.command hnew hb hg ha
  case hc => exact halike
  case hseen =>
    rw [entries_concat, hentry]
    exact .forward h.seen fun hmem => hnew (mem_entries hmem)
  case hu =>
    rw [entries_concat, hentry, UndoLog.replay_concat]
    apply List.Forall₂.cons
    case _ => exact ⟨c, by simp, rfl, hbefore, hafter⟩
    case _ => exact h.undo.imp fun _ _ => Stands.mono
  case hr =>
    rw [entries_concat, hentry, UndoLog.replay_concat]
    exact .nil

theorem head_of_forall₂ {α β : Type} {R : α → β → Prop} {xs : List α} {ys : List β} {x : α} (h : List.Forall₂ R xs ys)
    (hx : xs.head? = some x) : ∃ y rest, ys = y :: rest ∧ R x y ∧ List.Forall₂ R xs.tail rest := by
  cases h
  case nil => cases hx
  case cons y xs rest hxy hrest =>
    cases hx
    exact ⟨y, rest, rfl, hxy, hrest⟩

variable {target : String}

theorem Kept.undone (h : Kept r all s e) (ht : (historyStacks s.commands).undo.head? = some target) :
    ∃ edit older, e.undo = edit :: older ∧ Stands all target edit ∧ ∀ c g, c.direction = .undo target →
      c.commandId ∉ all.map (·.commandId) → Settled r c.before → Settled r c.after → Settled r g.document →
      Alike g.document edit.1 →
      Kept r (all ++ [c]) ⟨some g, insertHistoryCommand s.commands c⟩ ⟨edit.1, older, edit :: e.redo⟩ := by
  have htop : (Way.undo.stack (replay (all.map (·.entry)))).head? = some target := h.top ht
  obtain ⟨edit, older, he, hstands, holder⟩ := head_of_forall₂ h.undo htop
  refine ⟨edit, older, he, hstands, fun c g hd hnew hb ha hg halike => ?_⟩
  have hentry : c.entry = .undo target := by simp [Command.entry, hd]
  apply h.command hnew hb hg ha
  case hc => exact halike
  case hseen =>
    rw [entries_concat, hentry]
    apply Seen.undo h.seen
    rwa [← h.entries]
  case hu =>
    rw [entries_concat, hentry, UndoLog.replay_concat, UndoLog.add_undo htop]
    exact holder.imp fun _ _ => Stands.mono
  case hr =>
    rw [entries_concat, hentry, UndoLog.replay_concat, UndoLog.add_undo htop]
    exact .cons hstands.mono (h.redo.imp fun _ _ => Stands.mono)

theorem Kept.redone (h : Kept r all s e) (ht : (historyStacks s.commands).redo.head? = some target) :
    ∃ edit others, e.redo = edit :: others ∧ Stands all target edit ∧ ∀ c g, c.direction = .redo target →
      c.commandId ∉ all.map (·.commandId) → Settled r c.before → Settled r c.after → Settled r g.document →
      Alike g.document edit.2 →
      Kept r (all ++ [c]) ⟨some g, insertHistoryCommand s.commands c⟩ ⟨edit.2, edit :: e.undo, others⟩ := by
  have htop : (Way.redo.stack (replay (all.map (·.entry)))).head? = some target := h.top ht
  obtain ⟨edit, others, he, hstands, hothers⟩ := head_of_forall₂ h.redo htop
  refine ⟨edit, others, he, hstands, fun c g hd hnew hb ha hg halike => ?_⟩
  have hentry : c.entry = .redo target := by simp [Command.entry, hd]
  apply h.command hnew hb hg ha
  case hc => exact halike
  case hseen =>
    rw [entries_concat, hentry]
    apply Seen.redo h.seen
    rwa [← h.entries]
  case hu =>
    rw [entries_concat, hentry, UndoLog.replay_concat, UndoLog.add_redo htop]
    exact .cons hstands.mono (h.undo.imp fun _ _ => Stands.mono)
  case hr =>
    rw [entries_concat, hentry, UndoLog.replay_concat, UndoLog.add_redo htop]
    exact hothers.imp fun _ _ => Stands.mono

-- What the editor does with an edit
def Way.made : Way → Document × Document → Document
  | .undo, edit => edit.1
  | .redo, edit => edit.2

theorem Kept.back {way : Way} (h : Kept r all s e) (ht : (way.stack (historyStacks s.commands)).head? = some target) :
    ∃ edit e', e.back way = some e' ∧ Stands all target edit ∧ e'.content = way.made edit ∧
      ∀ c g, c.direction = way.direction target → c.commandId ∉ all.map (·.commandId) → Settled r c.before →
        Settled r c.after → Settled r g.document → Alike g.document (way.made edit) →
        Kept r (all ++ [c]) ⟨some g, insertHistoryCommand s.commands c⟩ e' := by
  cases way
  case undo =>
    obtain ⟨edit, older, he, hstands, hkept⟩ := h.undone ht
    exact ⟨edit, _, by rw [Editor.back, he], hstands, rfl, hkept⟩
  case redo =>
    obtain ⟨edit, others, he, hstands, hkept⟩ := h.redone ht
    exact ⟨edit, _, by rw [Editor.back, he], hstands, rfl, hkept⟩

end Invariant

section Steps

variable {r : Rules} {call : Call} {graphId id : String} {graph : Dict} {expected : ℤ} {way : Way} {s s' : Store}
  {all : List Command} {e : Editor Document}

theorem saved (h : saveGraph r call graphId graph expected s = some s') :
    ∃ d persisted, r.validateGraph call.available (graph.set "graphId" (.str graphId)) = some d ∧
      call.active = false ∧
      s'.graph = some ⟨persisted, s.revision + 1, { d with graphId := persisted }⟩ ∧
      s'.commands = if unchanged (s.document "") d then s.commands
        else insertHistoryCommand s.commands ⟨call.commandId, .forward,
          { s.document persisted with graphId := persisted }, { d with graphId := persisted }⟩ := by
  simp only [saveGraph, Option.bind_eq_bind, Option.bind_eq_some_iff, ite_eq_iff, reduceCtorEq, and_false, false_or,
    not_or, Option.some.injEq] at h
  obtain ⟨d, hd, hfree, hs⟩ := h
  refine ⟨d, s.graph.elim graphId (·.graphId), hd, by simpa using hfree.left, ?_, ?_⟩
  case refine_1 => rw [← hs]
  case refine_2 =>
    have hdoc : graphWithoutViewport (s.document (s.graph.elim graphId (·.graphId))) =
        graphWithoutViewport (s.document "") := by
      cases hg : s.graph
      case none   => simp only [Store.document, hg]; rfl
      case some g => simp only [Store.document, hg]; rfl
    rw [← hs]
    have hsame : unchanged { s.document (s.graph.elim graphId (·.graphId)) with
        graphId := s.graph.elim graphId (·.graphId) } { d with graphId := s.graph.elim graphId (·.graphId) } =
        unchanged (s.document "") d := congrArg (fun before => Json.eq before _) hdoc
    rw [hsame]

theorem applied (h : applyHistory r call way expected s = some s') :
    ∃ row target command d, s.graph = some row ∧ call.active = false ∧
      (way.stack (historyStacks s.commands)).head? = some target ∧
      s.commands.find? (·.commandId = target) = some command ∧
      r.validateGraph call.available { way.graph command with graphId := row.graphId }.toDict = some d ∧
      s' = ⟨some ⟨row.graphId, row.revision + 1, { d with graphId := row.graphId }⟩,
        insertHistoryCommand s.commands ⟨call.commandId, way.direction target, row.document,
          { d with graphId := row.graphId }⟩⟩ := by
  simp only [applyHistory, Option.bind_eq_bind, Option.bind_eq_some_iff] at h
  obtain ⟨row, hrow, h⟩ := h
  split at h
  case isTrue => simp at h
  case isFalse hfree =>
    simp only [Option.bind_eq_some_iff, Option.some.injEq] at h
    obtain ⟨target, ht, command, hc, d, hd, hs⟩ := h
    exact ⟨row, target, command, d, hrow, by simpa using (not_or.mp hfree).left, ht, hc, hd, hs.symm⟩

theorem Kept.save {d : Document} {persisted : String} {revision : ℕ} (h : Kept r all s e)
    (hnew : id ∉ all.map (·.commandId)) (hd : Settled r d)
    (hg : s'.graph = some ⟨persisted, revision, { d with graphId := persisted }⟩)
    (hc : s'.commands = if unchanged (s.document "") d then s.commands
      else insertHistoryCommand s.commands ⟨id, .forward, { s.document persisted with graphId := persisted },
        { d with graphId := persisted }⟩) :
    ∃ all', Kept r all' s' (e.save unchanged d) ∧ (all' = all ∨ ∃ c, all' = all ++ [c] ∧ c.commandId = id) := by
  have hsame : unchanged e.content d = unchanged (s.document "") d := unchanged_congr h.content.symm hd.refl
  have hs' : s' = ⟨s'.graph, s'.commands⟩ := rfl
  rw [hs', hg, hc, Editor.save, hsame]
  cases unchanged (s.document "") d
  case true =>
    refine ⟨all, ?_, .inl rfl⟩
    simp only [if_true]
    exact h.stay hd.refl hd.withId
  case false =>
    refine ⟨all ++ [⟨id, .forward, { s.document persisted with graphId := persisted },
      { d with graphId := persisted }⟩], ?_, .inr ⟨_, rfl, rfl⟩⟩
    simp only [if_neg Bool.false_ne_true]
    apply h.forward hnew rfl
    case hb => exact settled_before h
    case ha => exact hd.withId
    case hg => exact hd.withId
    case halike => exact hd.refl
    case hbefore => exact document_alike.mpr h.content
    case hafter => exact hd.refl

theorem Kept.goes (h : Kept r all s e) (hop : applyHistory r call way expected s = some s') :
    ∃ e', e.back way = some e' ∧ Alike (s'.document "") e'.content ∧
      (call.commandId ∉ all.map (·.commandId) → ∃ c, c.commandId = call.commandId ∧ Kept r (all ++ [c]) s' e') := by
  obtain ⟨row, target, command, d, hrow, -, ht, hcommand, hd, hs'⟩ := applied hop
  obtain ⟨edit, e', he, hstands, hcontent, hkept⟩ := h.back ht
  have hfound := h.found hcommand hstands
  have hmem : command ∈ all := by
    have := List.mem_of_find?_eq_some hcommand
    rw [h.rows, lastOf] at this
    exact List.mem_of_mem_drop this
  have hagain : Again r (way.graph command) d := again_of_validate hd
  have hgraph : Settled r (way.graph command) ∧ Alike (way.graph command) (way.made edit) := by
    cases way
    case undo => exact ⟨(h.restored command hmem).left, hfound.left⟩
    case redo => exact ⟨(h.restored command hmem).right, hfound.right⟩
  have hsettled : Settled r { d with graphId := row.graphId } := (hgraph.left.again hagain).withId
  have halike : Alike { d with graphId := row.graphId } (way.made edit) :=
    (hgraph.left d hagain).trans hgraph.right
  have hrowSettled : Settled r row.document := by simpa [Store.document, hrow] using h.settled
  subst hs'
  refine ⟨e', he, by rwa [hcontent], fun hnew => ?_⟩
  exact ⟨_, rfl, hkept ⟨call.commandId, way.direction target, row.document, { d with graphId := row.graphId }⟩
    _ rfl hnew hrowSettled hsettled hsettled halike⟩

theorem Kept.perform {op : Op} (h : Kept r all s e) (hnew : op.call.commandId ∉ all.map (·.commandId))
    (hset : op.Settled r) (hop : op.perform r s = some s') :
    ∃ all' e', op.edit r e = some e' ∧ Kept r all' s' e' ∧
      (all' = all ∨ ∃ c, all' = all ++ [c] ∧ c.commandId = op.call.commandId) := by
  cases hr : op.request
  case save graphId graph =>
    simp only [Op.perform, hr] at hop
    simp only [Op.Settled, hr] at hset
    simp only [Op.edit, hr]
    obtain ⟨d, persisted, hd, -, hg, hc⟩ := saved hop
    have hsettled := hset d (normalize_of_validate hd Dict.lookup_set_self)
    obtain ⟨all', hkept, hall⟩ := h.save hnew hsettled hg hc
    exact ⟨all', _, by rw [hd]; rfl, hkept, hall⟩
  case history way =>
    simp only [Op.perform, hr] at hop
    simp only [Op.edit, hr]
    obtain ⟨e', he, -, hkept⟩ := h.goes hop
    obtain ⟨c, hc, hkept⟩ := hkept hnew
    exact ⟨_, e', he, hkept, .inr ⟨c, rfl, hc⟩⟩

end Steps

section Runs

variable {r : Rules} {s : Store} {e : Editor Document} {all : List Command} {ids : List String}
  {es : List (Document × Document)}

theorem kept_start : Kept r [] Store.empty ⟨.empty "", [], []⟩ where
  rows     := rfl
  ids      := List.nodup_nil
  seen     := .nil
  undo     := .nil
  redo     := .nil
  content  := (settled_empty (r := r)).refl
  settled  := settled_empty
  restored := fun _ hc => absurd hc List.not_mem_nil

theorem Kept.alikeEdits (h : Kept r all s e) (hs : List.Forall₂ (Stands all) ids es)
    (hids : ∀ id ∈ ids, Entry.forward id ∈ s.commands.map (·.entry)) : AlikeEdits (s.kept ids) es := by
  induction hs
  case nil => exact .nil
  case cons id edit ids es hstands _ hi =>
    obtain ⟨c, hc, hid⟩ : ∃ c ∈ s.commands, c.commandId = id := by
      simpa using mem_entries (hids id List.mem_cons_self)
    cases hfind : s.commands.find? (·.commandId = id)
    case none   => simpa [hid] using List.find?_eq_none.mp hfind c hc
    case some d =>
      rw [Store.kept, List.filterMap_cons, hfind]
      apply List.Forall₂.cons
      case _ => exact h.found hfind hstands
      case _ => exact hi fun id hid => hids id (List.mem_cons_of_mem _ hid)

theorem Kept.shows (h : Kept r all s e) : Shows s e := by
  have hl := h.legal
  have hrecent : replay (s.commands.map (·.entry)) =
      (replay (all.map (·.entry))).known (UndoLog.recent maxCommandHistory (all.map (·.entry))) := by
    rw [h.entries, UndoLog.replay_recent hl.left]
  constructor
  case content => exact h.content
  case undo =>
    have hstarts := UndoLog.undo_prefix (n := maxCommandHistory) hl.left
    rw [← h.entries] at hstarts
    apply h.alikeEdits
    case hs =>
      have htake := List.prefix_iff_eq_take.mp hstarts
      conv => lhs; rw [historyStacks, htake]
      exact List.forall₂_take _ h.undo
    case hids =>
      intro id hid
      rw [historyStacks, hrecent] at hid
      rw [h.entries]
      exact of_decide_eq_true (List.mem_filter.mp hid).right
  case redo =>
    have hall := UndoLog.redo_all hl.left hl.right
    rw [← h.entries] at hall
    cases hall
    case inr hnone => exact .inr hnone
    case inl hall =>
      left
      apply h.alikeEdits
      case hs => rw [historyStacks, hall]; exact h.redo
      case hids =>
        intro id hid
        rw [historyStacks, hrecent] at hid
        rw [h.entries]
        exact of_decide_eq_true (List.mem_filter.mp hid).right

theorem kept_of_performs {ops : List Op} (hids : (ops.map (·.call.commandId)).Nodup) (hset : ∀ op ∈ ops, op.Settled r)
    (h : performs r ops = some s) : ∃ all e, edits r ops = some e ∧ Kept r all s e ∧
      ∀ id ∈ all.map (·.commandId), id ∈ ops.map (·.call.commandId) := by
  induction ops using List.reverseRecOn generalizing s
  case nil =>
    cases h
    exact ⟨[], _, rfl, kept_start, fun id hid => absurd hid List.not_mem_nil⟩
  case append_singleton ops op hi =>
    rw [List.map_append, List.nodup_append] at hids
    rw [performs, List.foldlM_append, Option.bind_eq_bind, Option.bind_eq_some_iff] at h
    obtain ⟨s₁, h₁, hop⟩ := h
    obtain ⟨all, e, he, hkept, hall⟩ := hi hids.left (fun op hop => hset op (List.mem_append_left _ hop)) h₁
    have hnew : op.call.commandId ∉ all.map (·.commandId) :=
      fun hmem => hids.right.right _ (hall _ hmem) _ (by simp) rfl
    have hop : op.perform r s₁ = some s := by simpa using hop
    obtain ⟨all', e', he', hkept', hall'⟩ := hkept.perform hnew (hset op (by simp)) hop
    refine ⟨all', e', ?_, hkept', ?_⟩
    case refine_1 =>
      rw [edits] at he
      rw [edits, List.foldlM_append, he]
      simpa using he'
    case refine_2 =>
      intro id hid
      rw [List.map_append, List.mem_append]
      cases hall'
      case inl hsame => exact .inl (hall id (hsame ▸ hid))
      case inr hone =>
        obtain ⟨c, hc, hcid⟩ := hone
        rw [hc, List.map_append, List.mem_append] at hid
        cases hid
        case inl hid => exact .inl (hall id hid)
        case inr hid => right; simpa [hcid] using hid

-- After any calls the service shows what the editor has, and a call that goes back or forth does what the editor does.
theorem history_shown (r : Rules) (ops : List Op) (hids : (ops.map (·.call.commandId)).Nodup)
    (hset : ∀ op ∈ ops, op.Settled r) (s : Store) (h : performs r ops = some s) :
    ∃ e, edits r ops = some e ∧ Shows s e ∧
      ∀ call way expectedRevision s', applyHistory r call way expectedRevision s = some s' →
        ∃ e', e.back way = some e' ∧ Alike (s'.document "") e'.content := by
  obtain ⟨all, e, he, hkept, -⟩ := kept_of_performs hids hset h
  refine ⟨e, he, hkept.shows, fun call way expectedRevision s' hback => ?_⟩
  obtain ⟨e', he', halike, -⟩ := hkept.goes hback
  exact ⟨e', he', halike⟩

section Sample

def sampleRules : Rules where
  text           := Python.asciiText
  numbers        := {
    float v := match v with
      | .int n       => .finite (n < 0) n.natAbs 0
      | .float s d e => .finite s d e
      | _            => .invalid
    int v   := match v with
      | .int n => some n
      | _      => none }
  definitions _  := none
  normalizeScene := some

def sampleCall (commandId : String) : Call where
  active    := false
  available := fun _ => true
  commandId := commandId

def previewNode (nodeId : String) : Json :=
  .dict [("nodeId", .str nodeId), ("kind", .str "sink")]

-- A relation between two nodes, of a data type that is blank
def blankGraph : Dict :=
  [("nodes", .list [previewNode "a", previewNode "b"]),
    ("edges", .list [.dict [("from", .str "a"), ("to", .str "b"), ("dataType", .str " ")]])]

-- The graph is saved, saved without the relation, and the second edit is undone.
def blankOps : List Op :=
  [⟨sampleCall "c1", 0, .save "g" blankGraph⟩,
    ⟨sampleCall "c2", 1, .save "g" [("nodes", .list [previewNode "a", previewNode "b"])]⟩,
    ⟨sampleCall "c3", 2, .history .undo⟩]

-- The blank type was saved as an empty one, which normalising again takes for a missing one.
theorem blank_not_shown : ∃ s e, performs sampleRules blankOps = some s ∧ edits sampleRules blankOps = some e ∧
    ¬ Alike (s.document "") e.content ∧ ¬ Shows s e := by
  have h : ((performs sampleRules blankOps).bind fun s => (edits sampleRules blankOps).map fun e =>
      unchanged (s.document "") e.content) = some false := by decide +kernel
  obtain ⟨s, hs, h⟩ := Option.bind_eq_some_iff.mp h
  obtain ⟨e, he, h⟩ := Option.map_eq_some_iff.mp h
  have hnot : ¬ Alike (s.document "") e.content := fun halike => by simp [halike.left] at h
  exact ⟨s, e, hs, he, hnot, fun hshows => hnot hshows.content⟩

def previewOps : List Op :=
  [⟨sampleCall "c1", 0, .save "g" [("nodes", .list [previewNode "a"])]⟩, ⟨sampleCall "c2", 1, .save "g" []⟩,
    ⟨sampleCall "c3", 2, .history .undo⟩]

theorem previewOps_settled : ∀ op ∈ previewOps, op.Settled sampleRules := by
  suffices h : previewOps.Forall (Op.Settled sampleRules ·) from List.forall_iff_forall_mem.mp h
  refine ⟨fun d hd => ?_, fun d hd => ?_, trivial⟩
  case refine_1 =>
    have hd := Option.some.inj hd
    subst hd
    exact settled_of_fixed rfl rfl rfl
  case refine_2 =>
    have hd := Option.some.inj hd
    subst hd
    exact settled_of_fixed rfl rfl rfl

theorem history_shown_sample : ∃ s, performs sampleRules previewOps = some s ∧
    ∃ e, edits sampleRules previewOps = some e ∧ Shows s e ∧
      ∀ call way expectedRevision s', applyHistory sampleRules call way expectedRevision s = some s' →
        ∃ e', e.back way = some e' ∧ Alike (s'.document "") e'.content := by
  have h : (performs sampleRules previewOps).isSome := by decide +kernel
  obtain ⟨s, hs⟩ := Option.isSome_iff_exists.mp h
  exact ⟨s, hs, history_shown sampleRules previewOps (by decide) previewOps_settled s hs⟩

end Sample

end Runs

end Canvas
