import V8AgentOs.Conversation.Restores

-- A restoration undoes a truncation, and shows no more than a state before has shown.
namespace Conversation

open Python (strip Dict Json Text)

namespace Database

variable {db db' : Database} {s id : String} {m row : Message} {moment : Moment} {r : Rules}
  {H : Set (Set (String × ℤ))}

theorem chronicle_perform (hsound : Sound db) (hb : Backed db) (hp : Placed db) (h : Chronicle s H db) {o : Operation}
    (ha : Appends db (moment, o)) (hperform : perform r moment db o = some db') :
    Placed db' ∧ Chronicle s (insert (db'.view s) H) db' := by
  have he : Evolves db db' := evolves_perform hsound hb hperform
  cases o
  case branch => cases ha
  case create message =>
    simp only [perform, create] at hperform
    split at hperform
    case isTrue  => cases hperform
    case isFalse =>
      apply h.appended hb hp _ hperform
      exact ha
  case update arguments =>
    simp only [perform, update, Option.bind_eq_bind] at hperform
    obtain ⟨existing, -, hperform⟩ := Option.bind_eq_some_iff.mp hperform
    split at hperform
    case isTrue => cases hperform
    split at hperform
    case isTrue => cases hperform
    case isFalse =>
      cases hperform
      exact h.quiet he hp (fun _ => places_update fun _ => rfl) rfl rfl
  case delete => exact h.erased hp (erases_deleteMessage hsound hb hperform)
  case revise =>
    obtain ⟨⟨next, id⟩, hr, hperform⟩ := Option.map_eq_some_iff.mp hperform
    cases hperform
    obtain ⟨row, hrow, hr⟩ := of_reviseMessage hr
    exact h.revised hsound hb hp rfl (List.mem_of_find?_eq_some hrow) hr
  case restore =>
    obtain ⟨⟨next, id⟩, hr, hperform⟩ := Option.map_eq_some_iff.mp hperform
    cases hperform
    obtain ⟨ledger, row, -, hr⟩ := restoration_of_restore hsound hb hr
    exact h.restored hb hp hr
  case createRun runId sessionId named =>
    simp only [perform, Database.createRun, Option.bind_eq_bind] at hperform
    split at hperform
    case isTrue => cases hperform
    case isFalse =>
      obtain ⟨runs, -, hperform⟩ := Option.bind_eq_some_iff.mp hperform
      cases hperform
      apply h.quiet he hp
      case ht => rfl
      case hr => rfl
      case hplaces =>
        intro s
        have horphaned : (db.updateMessages (fun m => m.runId = some runId) (fun m => { m with runId := none })
            fun _ => rfl).places s = db.places s := places_update fun _ => rfl
        exact horphaned
  case createSession =>
    obtain ⟨sessions, -, hperform⟩ := Option.bind_eq_some_iff.mp hperform
    cases hperform
    exact h.quiet he hp (fun _ => rfl) rfl rfl
  case addMessage =>
    simp only [perform, Option.bind_eq_bind, Option.bind_eq_some_iff] at hperform
    obtain ⟨legacy, -, hperform⟩ := hperform
    cases hperform
    exact h.quiet he hp (fun _ => rfl) rfl rfl
  case emit =>
    simp only [perform, Option.bind_eq_bind, Option.bind_eq_some_iff] at hperform
    obtain ⟨events, -, hperform⟩ := hperform
    cases hperform
    exact h.quiet he hp (fun _ => rfl) rfl rfl

theorem Backed.empty : Backed .empty := by
  constructor
  case backs   => exact fun t ht => by cases ht
  case revised => exact fun t ht => by cases ht

theorem evolves_step {e : Moment × Operation} (hsound : Sound db) (hb : Backed db)
    (hs : (conversation r).step db e db') : Evolves db db' := by
  cases hp : perform r e.1 db e.2
  case none =>
    have hs : db' = db := by simpa [conversation, hp] using hs
    subst hs
    exact .refl hb
  case some next =>
    have hs : db' = next := by simpa [conversation, hp] using hs
    exact hs ▸ evolves_perform hsound hb hp

theorem evolves_run {es : List (Moment × Operation)} (hsound : Sound db) (hb : Backed db)
    (hr : (conversation r).Run db es db') : Evolves db db' := by
  induction hr
  case refl => exact .refl hb
  case trans hs _ hi =>
    have hstep := evolves_step hsound hb hs
    exact hstep.trans (hi (keeps_step hsound hs).sound hstep.backed)

theorem Backed.of_reachable (h : (conversation r).Reachable db) : Backed db := by
  obtain ⟨db₀, es, hinit, hr⟩ := h.exists_run
  have hinit : db₀ = .empty := hinit
  subst hinit
  exact (evolves_run .empty .empty hr).backed

-- The views of the states that some calls have led through
def past (r : Rules) (s : String) (es : List (Moment × Operation)) : Set (Set (String × ℤ)) :=
  { S | ∃ before, before <+: es ∧ S = (performAll r .empty before).view s }

theorem performAll_concat {es : List (Moment × Operation)} {e : Moment × Operation} :
    performAll r db (es ++ [e]) = (perform r e.1 (performAll r db es) e.2).getD (performAll r db es) := by
  simp [performAll, List.foldl_append]

theorem past_concat {es : List (Moment × Operation)} {e : Moment × Operation} :
    past r s (es ++ [e]) = insert ((performAll r .empty (es ++ [e])).view s) (past r s es) := by
  ext S
  constructor
  case mp =>
    intro hS
    obtain ⟨before, hbefore, hS⟩ := hS
    cases List.prefix_concat_iff.mp hbefore
    case inl h => exact .inl (h ▸ hS)
    case inr h => exact .inr ⟨before, h, hS⟩
  case mpr =>
    intro hS
    cases hS
    case inl hS => exact ⟨_, List.prefix_rfl, hS⟩
    case inr hS =>
      obtain ⟨before, hbefore, hS⟩ := hS
      exact ⟨before, hbefore.trans (List.prefix_append _ _), hS⟩

-- What is known of a conversation after some calls
structure Told (r : Rules) (s : String) (es : List (Moment × Operation)) (db : Database) : Prop where
  state     : db = performAll r .empty es
  sound     : Sound db
  backed    : Backed db
  placed    : Placed db
  chronicle : Chronicle s (past r s es) db

theorem Told.empty : Told r s [] .empty := by
  have hnone : ∀ s, Database.empty.places s = ∅ := fun s =>
    Set.eq_empty_of_forall_notMem fun x hx => by cases hx
  have hpast : ∀ S ∈ past r s [], S = ∅ := by
    intro S hS
    obtain ⟨before, hbefore, hS⟩ := hS
    rw [List.prefix_nil.mp hbefore] at hS
    rw [hS]
    exact Set.eq_empty_of_forall_notMem fun x hx => absurd (hnone s ▸ hx.left) (Set.notMem_empty x)
  constructor
  case state  => rfl
  case sound  => exact .empty
  case backed => exact .empty
  case placed => exact fun s x hx => absurd hx (hnone s ▸ Set.notMem_empty x)
  case chronicle =>
    constructor
    case now      => exact ⟨[], List.prefix_rfl, rfl⟩
    case coherent => exact fun S hS T _ z hz => absurd hz (hpast S hS ▸ Set.notMem_empty z)
    case written  => exact fun S hS x hx => absurd hx (hpast S hS ▸ Set.notMem_empty x)
    case alone    => exact fun S hS x hx => absurd hx (hpast S hS ▸ Set.notMem_empty x)
    case founded  => exact fun ledger hl => by cases hl

theorem Told.step {es : List (Moment × Operation)} {e : Moment × Operation} (h : Told r s es db)
    (hs : ((conversation r).restrict Appends).step db e db') : Told r s (es ++ [e]) db' := by
  obtain ⟨ha, hs⟩ := hs
  have hstate : db' = performAll r .empty (es ++ [e]) := by
    rw [performAll_concat, ← h.state]
    exact hs
  have hrest : Placed db' ∧ Chronicle s (insert (db'.view s) (past r s es)) db' := by
    cases hp : perform r e.1 db e.2
    case some next =>
      have hs : db' = next := by simpa [conversation, hp] using hs
      exact hs ▸ chronicle_perform h.sound h.backed h.placed h.chronicle ha hp
    case none =>
      have hs : db' = db := by simpa [conversation, hp] using hs
      subst hs
      exact ⟨h.placed, h.chronicle.extend (.refl h.backed) h.placed (h.chronicle.unchanged (.refl h.backed) rfl)
        fun ledger hl => .inl hl⟩
  constructor
  case state     => exact hstate
  case sound     => exact (keeps_step h.sound hs).sound
  case backed    => exact (evolves_step h.sound h.backed hs).backed
  case placed    => exact hrest.left
  case chronicle => rw [past_concat, ← hstate]; exact hrest.right

theorem told_of_run {es : List (Moment × Operation)} (hr : ((conversation r).restrict Appends).Run .empty es db) :
    Told r s es db :=
  Transition.Run.from_start hr .empty fun _ _ _ _ h hs => h.step hs

end Database

namespace Message

variable {text : Text} {content : String} {node : Dict} {nodes : List Dict} {m : Message}

-- The narrative text of a message, all in one (`derive_text_fields`)
def narrativeText (text : Text) : List Dict → String
  | []            => ""
  | node :: nodes =>
    if narrative node then text.orEmpty (node.get "content") ++ narrativeText text nodes else narrativeText text nodes

theorem narrative_set : narrative (node.set "content" (.str content)) = narrative node := by
  have hkind : (node.set "content" (.str content)).get "kind" = node.get "kind" := by
    simp only [Dict.get, Python.Dict.lookup_set_of_ne (show "kind" ≠ "content" by decide)]
  rw [narrative, hkind, narrative]

theorem orEmpty_str : text.orEmpty (.str content) = content := by
  by_cases h : content = ""
  case pos => subst h; simp [Text.orEmpty, Json.truthy]
  case neg => simp [Text.orEmpty, Json.truthy, Text.str, h]

theorem filter_narrate : (narrate content nodes).filter (!narrative ·) = nodes.filter (!narrative ·) := by
  induction nodes generalizing content
  case nil => rfl
  case cons node nodes hi =>
    unfold narrate
    cases h : narrative node
    case true  => simp [h, narrative_set, hi]
    case false => simp [h, hi]

theorem narrativeText_narrate_empty : narrativeText text (narrate "" nodes) = "" := by
  induction nodes
  case nil => rfl
  case cons node nodes hi =>
    unfold narrate
    cases h : narrative node
    case true  => simp [h, narrativeText, narrative_set, Python.Dict.get_set_self, orEmpty_str, hi]
    case false => simp [h, narrativeText, hi]

theorem narrativeText_narrate (h : nodes.any narrative) : narrativeText text (narrate content nodes) = content := by
  induction nodes
  case nil => cases h
  case cons node nodes hi =>
    unfold narrate
    cases hn : narrative node
    case true =>
      simp [hn, narrativeText, narrative_set, Python.Dict.get_set_self, orEmpty_str, narrativeText_narrate_empty]
    case false => simp [hn, narrativeText, hi (by simpa [hn] using h)]

theorem narrativeText_append {other : List Dict} :
    narrativeText text (nodes ++ other) = narrativeText text nodes ++ narrativeText text other := by
  induction nodes
  case nil => simp [narrativeText]
  case cons node nodes hi =>
    cases h : narrative node
    case true  => simp [narrativeText, h, hi, String.append_assoc]
    case false => simp [narrativeText, h, hi]

theorem narrativeText_of_none (h : nodes.any narrative = false) : narrativeText text nodes = "" := by
  induction nodes
  case nil => rfl
  case cons node nodes hi =>
    obtain ⟨hn, h⟩ := Bool.or_eq_false_iff.mp h
    simp [narrativeText, hn, hi h]

theorem narrative_added {id : String} :
    narrative [("id", .str id), ("kind", .str "narrative"), ("content", .str content)] = true := by
  simp [narrative, Dict.get, Python.Dict.lookup_cons]

-- Whatever content a message is rewritten to, its other nodes stay.
theorem filter_rewritten : (m.rewritten content).filter (!narrative ·) = m.nodes.filter (!narrative ·) := by
  unfold rewritten
  split
  case isTrue  => exact filter_narrate
  case isFalse => simp [narrative_added]

theorem narrativeText_rewritten : narrativeText text (m.rewritten content) = content := by
  unfold rewritten
  split
  case isTrue h => exact narrativeText_narrate h
  case isFalse h =>
    rw [narrativeText_append, narrativeText_of_none (Bool.eq_false_iff.mpr h)]
    simp [narrativeText, narrative_added, Dict.get, Python.Dict.lookup_cons, orEmpty_str]

end Message

-- What a truncation and its restoration leave of a session
structure Undone (text : Text) (db db' : Database) (s anchorId : String) : Prop where
  order  : (db'.visible s).map (·.id) = (db.visible s).map (·.id)
  tail   : ∀ m ∈ db.visible s, m.id ≠ anchorId → m ∈ db'.visible s
  anchor : ∀ row ∈ db.visible s, row.id = anchorId → ∃ last ∈ db'.visible s, last.id = anchorId ∧
    last.contentText = row.contentText ∧ last.contentText = some (Message.narrativeText text last.nodes) ∧
    last.nodes.filter (!Message.narrative ·) = row.nodes.filter (!Message.narrative ·)

namespace Database

variable {db db' : Database} {s id : String} {m row : Message} {moment : Moment} {r : Rules}

-- A session whose rows are rewritten one by one, and whose deletions are back
theorem visible_map {g : Message → Message} (hb : Backed db) (hb' : Backed db')
    (hrows : db'.messages.rows = db.messages.rows.map g) (hg : ∀ m ∈ db.messages.rows, (g m).place = m.place)
    (hmarks : ∀ s id, db'.mark s id = db.mark s id) : db'.visible s = (db.visible s).map g := by
  have hfilter : (db'.messages.rows.filter fun m => m.sessionId = s && !db'.hidden m) =
      (db.messages.rows.filter fun m => m.sessionId = s && !db.hidden m).map g := by
    rw [hrows, List.filter_map]
    congr 1
    apply List.filter_congr
    intro m hm
    have hplace := hg m hm
    have hs : (g m).sessionId = m.sessionId := congrArg Prod.fst hplace
    have hid : (g m).id = m.id := congrArg (Prod.fst ∘ Prod.snd) hplace
    simp [hidden_eq hb, hidden_eq hb', hs, hid, hmarks]
  unfold visible
  rw [hfilter]
  symm
  apply List.map_insertionSort
  intro a ha b hb
  have hoa : (g a).ordinal = a.ordinal := congrArg (Prod.snd ∘ Prod.snd) (hg a (List.mem_of_mem_filter ha))
  have hob : (g b).ordinal = b.ordinal := congrArg (Prod.snd ∘ Prod.snd) (hg b (List.mem_of_mem_filter hb))
  rw [hoa, hob]

-- The rows of a session in which one message has been rewritten
theorem rows_of_revise {v : Revising} (ho : v.Owned db) (hr : db.revise moment v = some (db', id)) :
    ∃ content, v.content = some content ∧ db'.messages.rows =
      db.messages.rows.map fun m => if m.id = v.row.id then v.row.revised content moment.now else m := by
  obtain ⟨content, hcontent, hmessages⟩ := messages_revise hr
  refine ⟨content, hcontent, ?_⟩
  rw [hmessages]
  apply List.map_congr_left
  intro m hm
  have hget : db.messages.get? m.id = some m := Table.get?_of_mem hm
  have hget' : db.messages.get? v.row.id = some v.row := Table.get?_of_mem ho.row
  by_cases hid : m.id = v.row.id
  case neg => simp [Revising.names, hid]
  case pos =>
    have hsame : m = v.row := Option.some.inj (hget.symm.trans (hid ▸ hget'))
    simp [Revising.names, hsame]

theorem undone_of_restore (hsound : Sound db) (hb : Backed db) (text : Text) {c : Revise} {c' : Restore}
    {moment' : Moment} {db₁ : Database} {id' : String}
    (hrevise : db.reviseMessage moment c = some (db₁, id)) (hid : c'.revisionId = id)
    (hrestore : db₁.restoreRevision moment' c' = some (db', id')) : Undone text db db' c.sessionId c.messageId := by
  obtain ⟨row, hrow, hr⟩ := of_reviseMessage hrevise
  have hshown := List.mem_of_find?_eq_some hrow
  have hrowId : row.id = c.messageId := by simpa using List.find?_some hrow
  have hmem := mem_visible.mp hshown
  obtain ⟨hsuper, ledger, hledgers, hledgerId, hledgerSession, hledgerMessage, hsnapshot, hids⟩ :=
    supersedes_of_visible hsound hb rfl hshown hr
  obtain ⟨content, -, hrows₁⟩ := rows_of_revise ⟨hmem.left, hmem.right.left⟩ hr
  have hsound₁ := (keeps_reviseMessage hsound hrevise).sound
  -- The restoration finds the revision that has been made, and the message as it is now.
  obtain ⟨found, row', hfound, hrestored⟩ := restoration_of_restore hsound₁ hsuper.evolves.backed hrestore
  obtain ⟨found', row'', hfound', hs', hm', hrow', -, -, -, hr'⟩ := of_restoreRevision hrestore
  have hget : db₁.revisions.get? ledger.revisionId = some ledger := Table.get?_of_mem (by rw [hledgers]; simp)
  have hsame : found = ledger ∧ found' = ledger := by
    rw [hid, ← hledgerId, hget] at hfound hfound'
    exact ⟨(Option.some.inj hfound).symm, (Option.some.inj hfound').symm⟩
  obtain ⟨hsame, hsame'⟩ := hsame
  subst hsame hsame'
  have hsession : c'.sessionId = c.sessionId := hs'.symm.trans hledgerSession
  have hmem' := mem_visible.mp (List.mem_of_find?_eq_some hrow')
  have hrowId' : row''.id = row.id := by
    have hfoundId : row''.id = c'.messageId := by simpa using List.find?_some hrow'
    exact hfoundId.trans (hm'.symm.trans hledgerMessage)
  obtain ⟨content', hcontent', hrows'⟩ := rows_of_revise (Revising.Owned.mk hmem'.left hmem'.right.left) hr'
  have hrows₁ : db₁.messages.rows =
      db.messages.rows.map fun m => if m.id = row.id then row.revised content moment.now else m := hrows₁
  have hlast : row'' = row.revised content moment.now := by
    have hin := hmem'.left
    rw [hrows₁] at hin
    obtain ⟨m, -, hm⟩ := List.mem_map.mp hin
    split at hm
    case isTrue  => exact hm.symm
    case isFalse hne => exact absurd ((congrArg Message.id hm).trans hrowId') hne
  let last := row''.revised content' moment'.now
  let g := fun m : Message => if m.id = row.id then last else m
  have hlastPlace : row''.place = row.place := by rw [hlast]; rfl
  have hplace : ∀ m ∈ db.messages.rows, (g m).place = m.place := by
    intro m hm
    by_cases hmid : m.id = row.id
    case neg => exact congrArg Message.place (if_neg hmid)
    case pos =>
      have hget : db.messages.get? m.id = some m := Table.get?_of_mem hm
      have hget' : db.messages.get? row.id = some row := Table.get?_of_mem hmem.left
      have hrow : m = row := Option.some.inj (hget.symm.trans (hmid ▸ hget'))
      exact (congrArg Message.place (if_pos hmid)).trans (hlastPlace.trans (congrArg Message.place hrow.symm))
  have hrowsAll : db'.messages.rows = db.messages.rows.map g := by
    have hmiddle : db'.messages.rows = db₁.messages.rows.map fun m => if m.id = row''.id then last else m := hrows'
    rw [hmiddle, hrows₁, List.map_map]
    apply List.map_congr_left
    intro m _
    by_cases hmid : m.id = row.id
    case pos => simp [g, hmid, hrowId', Message.id_revised]
    case neg => simp [g, hmid, hrowId']
  have hmarks : ∀ s id, db'.mark s id = db.mark s id := by
    intro s id
    rw [← hids] at hsuper
    rw [hrestored.marks, hsuper.marks, hsession]
    by_cases hc : s = c.sessionId ∧ id ∈ found'.supersededIds
    case neg => rw [if_neg hc, if_neg fun hc' => hc ⟨hc'.left, hc'.right.left⟩]
    case pos =>
      rw [if_pos hc, if_pos ⟨hc.left, hc.right, rfl⟩]
      obtain ⟨d, hd, hdid⟩ := List.mem_map.mp (hids ▸ hc.right)
      rw [hc.left, ← hdid]
      exact (mark_of_visible hb (List.mem_of_mem_filter hd)).symm
  have hvisible : db'.visible c.sessionId = (db.visible c.sessionId).map g :=
    visible_map hb hrestored.evolves.backed hrowsAll hplace hmarks
  constructor
  case order =>
    rw [hvisible, List.map_map]
    apply List.map_congr_left
    intro m hm
    exact congrArg (Prod.fst ∘ Prod.snd) (hplace m (mem_visible.mp hm).left)
  case tail =>
    intro m hm hne
    rw [hvisible]
    exact List.mem_map.mpr ⟨m, hm, if_neg fun h => hne (h.trans hrowId)⟩
  case anchor =>
    intro other hother hotherId
    have hsame : other = row := by
      have hget : db.messages.get? other.id = some other := Table.get?_of_mem (mem_visible.mp hother).left
      have hget' : db.messages.get? row.id = some row := Table.get?_of_mem hmem.left
      exact Option.some.inj (hget.symm.trans ((hotherId.trans hrowId.symm) ▸ hget'))
    subst hsame
    have hcontent : some content' = other.contentText := hcontent'.symm.trans (congrArg Message.contentText hsnapshot)
    refine ⟨last, ?_, hrowId'.trans hrowId, hcontent, ?_, ?_⟩
    case _ =>
      rw [hvisible]
      exact List.mem_map.mpr ⟨other, hother, if_pos rfl⟩
    case _ => exact congrArg some Message.narrativeText_rewritten.symm
    case _ =>
      calc last.nodes.filter (!Message.narrative ·)
        _ = row''.nodes.filter (!Message.narrative ·) := Message.filter_rewritten
        _ = other.nodes.filter (!Message.narrative ·) := by rw [hlast]; exact Message.filter_rewritten

-- What a call of the user has deleted: the row of a message, or what a deletion has come to hide
def Deletes (db db' : Database) (m : Message) : Prop :=
  m ∈ db.messages.rows ∧ (m ∉ db'.messages.rows ∨ (db.hidden m = false ∧ db'.hidden m = true))

theorem buried_of_deletes (hb : Backed db) (he : Erases db db') (hd : Deletes db db' m) :
    db'.Buried m.sessionId m.id := by
  cases hd.right
  case inl hrow => exact (he.erased m hd.left).resolve_left hrow
  case inr hhidden =>
    apply (he.marks m.sessionId m.id).resolve_left
    intro hmark
    have hbefore := hidden_eq hb (m := m)
    have hafter := hidden_eq he.evolves.backed (m := m)
    rw [hhidden.left] at hbefore
    rw [hhidden.right, hmark, ← hbefore] at hafter
    cases hafter

end Database

open Database

-- The main result, of a truncation that is undone at once, of restorations over all orders of the calls, and of what
-- the user has deleted.
theorem restore_holds (r : Rules) :
    (∀ db, (conversation r).Reachable db → ∀ m c db₁ id, db.reviseMessage m c = some (db₁, id) →
      c.tailPolicy = .truncate → ∀ m' c' db' id', c'.revisionId = id → db₁.restoreRevision m' c' = some (db', id') →
        Undone r.text db db' c.sessionId c.messageId) ∧
    (∀ es db, ((conversation r).restrict Appends).Run .empty es db → ∀ m c db' id,
      db.restoreRevision m c = some (db', id) → ∃ before, before <+: es ∧ ∀ x : String × ℤ,
        x ∈ (db'.visible c.sessionId).map (fun row => (row.id, row.ordinal)) ↔
          x ∈ ((performAll r .empty before).visible c.sessionId).map (fun row => (row.id, row.ordinal)) ∧
            ¬db'.Buried c.sessionId x.1) ∧
    ∀ db, (conversation r).Reachable db → ∀ now messageId sessionId db₁,
      db.deleteMessage r.text now messageId sessionId = some db₁ → ∀ row, Deletes db db₁ row →
        ∀ es db', (conversation r).Run db₁ es db' → ∀ other ∈ db'.visible row.sessionId, other.id ≠ row.id := by
  refine ⟨?undone, ?restored, ?deleted⟩
  case undone =>
    intro db hdb m c db₁ id hrevise _ m' c' db' id' hid hrestore
    exact undone_of_restore (.of_reachable hdb) (.of_reachable hdb) r.text hrevise hid hrestore
  case restored =>
    intro es db hrun m c db' id hrestore
    have htold := told_of_run (s := c.sessionId) hrun
    obtain ⟨ledger, row, -, hr⟩ := restoration_of_restore htold.sound htold.backed hrestore
    obtain ⟨D, hD, hview⟩ := view_of_restoration htold.chronicle htold.backed hr
    obtain ⟨before, hbefore, hD⟩ := hD
    subst hD
    have hbacked : Backed (performAll r .empty before) := .of_reachable ((Transition.Reachable.init rfl).run
      (run_performAll r .empty before))
    refine ⟨before, hbefore, fun x => ?_⟩
    rw [List.mem_map, List.mem_map, ← mem_view hr.evolves.backed, ← mem_view hbacked]
    exact hview x
  case deleted =>
    intro db hdb now messageId sessionId db₁ hdelete row hd es db' hrun other hother hid
    have hsound : Sound db := .of_reachable hdb
    have he := erases_deleteMessage hsound (.of_reachable hdb) hdelete
    have hburied := buried_of_deletes (.of_reachable hdb) he hd
    have hlater := evolves_run (keeps_deleteMessage hsound hdelete).sound he.evolves.backed hrun
    exact not_buried_of_visible hlater.backed hother (hid ▸ hlater.buried _ _ hburied)

section Sample

def sampleRevise (messageId : String) (version revision : ℕ) : Revise where
  sessionId                  := "s"
  messageId                  := messageId
  owner                      := "u"
  content                    := "why"
  expectedMessageVersion     := version
  expectedTranscriptRevision := revision
  tailPolicy                 := .truncate

def sampleRestore (messageId revisionId : String) (version revision : ℕ) : Restore where
  sessionId                  := "s"
  messageId                  := messageId
  revisionId                 := revisionId
  owner                      := "u"
  expectedMessageVersion     := version
  expectedTranscriptRevision := revision

def Message.bare (m : Message) : Message :=
  { m with nodes := [] }

-- Three messages, the first of which has a content but no narrative node
def nestedCalls : List (Moment × Operation) :=
  [(sampleMoment "0", .createSession sampleSession),
    (sampleMoment "1", .create (sampleMessage "x" "user" "hi" 1 none (by decide) (by decide)).bare),
    (sampleMoment "2", .create (sampleMessage "y" "user" "so" 2 none (by decide) (by decide))),
    (sampleMoment "3", .create (sampleMessage "z" "user" "and" 3 none (by decide) (by decide)))]

-- The second message is revised, then the first one, and both revisions are restored.
def restoredCalls : List (Moment × Operation) :=
  nestedCalls ++ [(sampleMoment "4", .revise (sampleRevise "y" 1 3)),
    (sampleMoment "5", .revise (sampleRevise "x" 1 5)),
    (sampleMoment "6", .restore (sampleRestore "x" "revision_5" 2 7)),
    (sampleMoment "7", .restore (sampleRestore "y" "revision_4" 2 9))]

def textsOf (db : Database) (s : String) : List (String × String) :=
  (db.visible s).map fun m => (m.id, Message.narrativeText Python.asciiText m.nodes)

-- The messages that the two revisions had superseded are visible together, and the narrative text of the first message
-- is not the one that it had.
theorem superseded_together :
    (performAll sampleRules .empty restoredCalls).revisions.rows.map (·.supersededIds) = [["z"], ["y"], [], []] ∧
      textsOf (performAll sampleRules .empty nestedCalls) "s" = [("x", ""), ("y", "so"), ("z", "and")] ∧
      textsOf (performAll sampleRules .empty restoredCalls) "s" = [("x", "hi"), ("y", "so"), ("z", "and")] := by
  decide +kernel

theorem eq_some_getD {α : Type} {o : Option α} (d : α) (h : o.isSome) : o = some (o.getD d) := by
  cases o
  case none   => cases h
  case some _ => rfl

def answered : Database :=
  performAll sampleRules .empty answeredCalls

def revised : Database × String :=
  (answered.reviseMessage (sampleMoment "5") (sampleRevise "a" 1 2)).getD (.empty, "")

def restored : Database × String :=
  (revised.1.restoreRevision (sampleMoment "6") (sampleRestore "a" "revision_5" 2 4)).getD (.empty, "")

def erased : Database :=
  (restored.1.deleteMessage sampleRules.text "7" "b" "s").getD .empty

def appending (db : Database) (o : Operation) : Bool :=
  match o with
  | .create message => db.messages.rows.all fun other =>
    other.sessionId ≠ message.sessionId || other.ordinal < message.ordinal
  | .branch _       => false
  | _               => true

theorem appends_of_appending {db : Database} {e : Moment × Operation} (h : appending db e.2) : Appends db e := by
  obtain ⟨m, o⟩ := e
  cases o
  case create message =>
    intro other hother hs
    have hall := List.all_eq_true.mp h other hother
    simpa [hs] using hall
  case branch => cases h
  all_goals trivial

def appendingAll (r : Rules) (db : Database) : List (Moment × Operation) → Bool
  | []      => true
  | e :: es => appending db e.2 && appendingAll r ((perform r e.1 db e.2).getD db) es

theorem run_of_appending {r : Rules} {db : Database} {es : List (Moment × Operation)} (h : appendingAll r db es) :
    ((conversation r).restrict Appends).Run db es (performAll r db es) := by
  induction es generalizing db
  case nil => exact .refl
  case cons e es hi =>
    obtain ⟨he, h⟩ := Bool.and_eq_true_iff.mp h
    exact .trans ⟨appends_of_appending he, rfl⟩ (hi h)

theorem restore_holds_sample :
    (answered.visible "s").map (·.id) = ["a", "b"] ∧ (revised.1.visible "s").map (·.id) = ["a"] ∧
      (restored.1.visible "s").map (·.id) = ["a", "b"] ∧ (erased.visible "s").map (·.id) = ["a"] ∧
      Undone sampleRules.text answered restored.1 "s" "a" ∧
      (∃ before, before <+: answeredCalls ++ [revisedCall] ∧ ∀ x : String × ℤ,
        x ∈ (restored.1.visible "s").map (fun row => (row.id, row.ordinal)) ↔
          x ∈ ((performAll sampleRules .empty before).visible "s").map (fun row => (row.id, row.ordinal)) ∧
            ¬restored.1.Buried "s" x.1) ∧
      ∀ other ∈ erased.visible "s", other.id ≠ "b" := by
  have hempty : (conversation sampleRules).Reachable .empty := .init rfl
  have hanswered : (conversation sampleRules).Reachable answered := hempty.run (run_performAll _ _ answeredCalls)
  have hrevise : answered.reviseMessage (sampleMoment "5") (sampleRevise "a" 1 2) = some revised :=
    eq_some_getD _ (by decide +kernel)
  have hrestore : revised.1.restoreRevision (sampleMoment "6") (sampleRestore "a" "revision_5" 2 4) = some restored :=
    eq_some_getD _ (by decide +kernel)
  have herase : restored.1.deleteMessage sampleRules.text "7" "b" "s" = some erased :=
    eq_some_getD _ (by decide +kernel)
  have happending : appendingAll sampleRules .empty (answeredCalls ++ [revisedCall]) := by decide +kernel
  have hstate : performAll sampleRules .empty (answeredCalls ++ [revisedCall]) = revised.1 := by
    have hstep : (perform sampleRules (sampleMoment "5") answered (.revise (sampleRevise "a" 1 2))) = some revised.1 :=
      congrArg (Option.map Prod.fst) hrevise
    rw [performAll_concat]
    exact congrArg (Option.getD · answered) hstep
  have hrun := run_of_appending happending
  rw [hstate] at hrun
  have hrevised : (conversation sampleRules).Reachable revised.1 := hempty.run hrun.of_restrict
  have hrestored : (conversation sampleRules).Reachable restored.1 := by
    have hstep : perform sampleRules (sampleMoment "6") revised.1 (.restore (sampleRestore "a" "revision_5" 2 4)) =
        some restored.1 := congrArg (Option.map Prod.fst) hrestore
    apply hrevised.step (e := (sampleMoment "6", .restore (sampleRestore "a" "revision_5" 2 4)))
    exact (congrArg (Option.getD · revised.1) hstep).symm
  obtain ⟨hundone, hbefore, hdeleted⟩ := restore_holds sampleRules
  refine ⟨?_, ?_, ?_, ?_, ?_, ?_, ?_⟩
  case _ => decide +kernel
  case _ => decide +kernel
  case _ => decide +kernel
  case _ => decide +kernel
  case _ => exact hundone answered hanswered _ _ _ _ hrevise rfl _ _ _ _ (by decide +kernel) hrestore
  case _ => exact hbefore _ _ hrun _ _ _ _ hrestore
  case _ =>
    have hany : restored.1.messages.rows.any fun m =>
        m.id = "b" && m.sessionId = "s" && !erased.messages.rows.any (·.id = "b") := by
      decide +kernel
    obtain ⟨row, hmem, hrow⟩ := List.any_eq_true.mp hany
    simp only [Bool.and_eq_true, decide_eq_true_eq, Bool.not_eq_true'] at hrow
    obtain ⟨⟨hid, hs⟩, hgone⟩ := hrow
    have hdeletes : Deletes restored.1 erased row := ⟨hmem, .inl fun h => by
      have := List.any_eq_false.mp hgone row h
      simp [hid] at this⟩
    have h := hdeleted restored.1 hrestored _ _ _ _ herase row hdeletes [] erased .refl
    exact hs ▸ hid ▸ h

end Sample
end Conversation
