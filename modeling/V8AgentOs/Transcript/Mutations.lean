import V8AgentOs.Transcript.Consistent

-- Every interleaving of the calls that change a canonical message
namespace Transcript

open Python

variable {text : Unicode} {nodes : List CanonicalNode} {s t : State} {e : Event} {id : ℕ}

-- A row that has been read is the stored one, or an older version.
structure Seen (row existing : CanonicalMessage) : Prop where
  stored  : 0 < existing.version
  older   : existing.version ≤ row.version
  current : existing.version = row.version → existing = row

-- What `mutate_message` passes to the update
structure Computes (text : Unicode) (mutation : Mutation) (row : CanonicalMessage) (update : Update) (next : Json)
    (metadata : Dict) : Prop where
  mutator   : mutation.mutator row.nodes (row.metadata.merge mutation.metadata_updates) = some (next, metadata)
  version   : update.expected_version = row.currentVersion
  nodes     : update.nodes = normalizeCanonicalNodes text (asNodes next) row.role
  content   : update.content_text = (deriveTextFields text update.nodes).1
  reasoning : update.reasoning_text = orNone (deriveTextFields text update.nodes).2

theorem computes_of_update {mutation : Mutation} {row : CanonicalMessage} {update : Update} {now : String}
    (h : mutation.update text row now = some update) :
    ∃ next metadata, Computes text mutation row update next metadata := by
  have ⟨⟨next, metadata⟩, hm, heq⟩ := Option.map_eq_some_iff.mp h
  refine ⟨next, metadata, hm, ?_, ?_, ?_, ?_⟩
  all_goals
    rw [← heq]

-- What a call holds was computed from a row that it has read.
def Phase.Holds (text : Unicode) (row : CanonicalMessage) : Phase → Prop
  | .computed mutation update         =>
    ∃ existing now, Seen row existing ∧ mutation.update text existing now = some update
  | .checked mutation update existing => Seen row existing ∧ ∃ now, mutation.update text existing now = some update
  | _                                 => True

-- The nodes of the row have been normalized, and its content is the text of its nodes.
structure Invariant (text : Unicode) (s : State) : Prop where
  assistant : isAssistant text s.row.role
  version   : 0 < s.row.version
  nodes     : ∃ nodes, s.row.nodes = normalizeCanonicalNodes text nodes s.row.role
  content   : s.row.content_text = some (deriveTextFields text s.row.nodes).1
  calls     : ∀ id phase, s.calls id = some phase → phase.Holds text s.row

theorem Seen.refl {row : CanonicalMessage} (h : 0 < row.version) : Seen row row :=
  ⟨h, le_rfl, fun _ => rfl⟩

-- A row that is written over has been seen by nobody.
theorem Seen.next {row row' existing : CanonicalMessage} (h : Seen row existing) (hv : row'.version = row.version + 1) :
    Seen row' existing := by
  have hle := h.older
  refine ⟨h.stored, by omega, ?_⟩
  intro heq
  omega

theorem Phase.Holds.next {row row' : CanonicalMessage} {phase : Phase} (h : phase.Holds text row)
    (hv : row'.version = row.version + 1) : phase.Holds text row' := by
  cases phase
  case computed =>
    have ⟨existing, now, hs, hu⟩ := h
    exact ⟨existing, now, hs.next hv, hu⟩
  case checked => exact ⟨h.1.next hv, h.2⟩
  all_goals trivial

theorem currentVersion_of_pos {row : CanonicalMessage} (h : 0 < row.version) : row.currentVersion = row.version :=
  if_pos (Nat.ne_of_gt h)

@[simp] theorem calls_advance_self {phase : Phase} : (s.advance id phase).calls id = some phase :=
  Function.update_self ..

theorem calls_advance_of_ne {id' : ℕ} {phase : Phase} (h : id' ≠ id) : (s.advance id phase).calls id' = s.calls id' :=
  Function.update_of_ne h ..

theorem Invariant.advance (h : Invariant text s) {phase : Phase} (hp : phase.Holds text s.row) :
    Invariant text (s.advance id phase) := by
  refine ⟨h.assistant, h.version, h.nodes, h.content, ?_⟩
  intro id' phase' hcall
  by_cases hid : id' = id
  case pos =>
    rw [hid, calls_advance_self] at hcall
    cases hcall
    exact hp
  case neg =>
    rw [calls_advance_of_ne hid] at hcall
    exact h.calls id' phase' hcall

-- What one step can do: it changes nothing but the phase of a call, or a call that has read the stored row writes.
inductive Effect (text : Unicode) (s : State) (e : Event) (t : State) : Prop
  | keeps (id : ℕ) (phase : Phase) (after : t = s.advance id phase) (unreturned : phase ≠ .returned)
    (holds : phase.Holds text s.row)
  | writes (id : ℕ) (mutation : Mutation) (update : Update) (now : String) (event : e = .write id true)
    (phase : s.calls id = some (.checked mutation update s.row))
    (computed : mutation.update text s.row now = some update)
    (after : t = { s.advance id .returned with row := update.apply s.row s.row })

theorem effect_of_step (h : Invariant text s) (hs : s.step text e = some t) : Effect text s e t := by
  cases e
  case call id mutation =>
    simp only [State.step] at hs
    split_ifs at hs
    cases hs
    exact .keeps id _ rfl (by simp) trivial
  case read id now =>
    simp only [State.step] at hs
    split at hs
    case h_2 => cases hs
    case h_1 mutation _ =>
      split at hs
      case h_2 =>
        cases hs
        exact .keeps id _ rfl (by simp) trivial
      case h_1 update hu =>
        cases hs
        exact .keeps id _ rfl (by simp) ⟨s.row, now, .refl h.version, hu⟩
  case check id =>
    simp only [State.step] at hs
    split at hs
    case h_2 => cases hs
    case h_1 mutation update hcall =>
      split_ifs at hs with hv
      case neg =>
        cases hs
        exact .keeps id _ rfl (by simp) trivial
      case pos =>
        cases hs
        have ⟨existing, now, hseen, hu⟩ := h.calls id _ hcall
        have hexpected : update.expected_version = existing.version := by
          have ⟨_, _, hcomputes⟩ := computes_of_update hu
          rw [hcomputes.version, currentVersion_of_pos hseen.stored]
        rw [currentVersion_of_pos h.version, hexpected] at hv
        rw [hseen.current hv.symm] at hu
        exact .keeps id _ rfl (by simp) ⟨.refl h.version, now, hu⟩
  case write id epoch =>
    simp only [State.step] at hs
    split at hs
    case h_2 => cases hs
    case h_1 mutation update existing hcall =>
      split_ifs at hs with hv
      case neg =>
        cases hs
        exact .keeps id _ rfl (by simp) trivial
      case pos =>
        cases hs
        have ⟨hseen, now, hu⟩ := h.calls id _ hcall
        rw [currentVersion_of_pos hseen.stored] at hv
        have heq := hseen.current hv.2.symm
        rw [heq] at hu hcall
        have hepoch : epoch = true := hv.1
        rw [heq, hepoch]
        exact .writes id mutation update now rfl hcall hu rfl

theorem Invariant.step (h : Invariant text s) (hs : s.step text e = some t) : Invariant text t := by
  cases effect_of_step h hs
  case keeps id phase after _ holds => exact after ▸ h.advance holds
  case writes id mutation update now _ _ computed after =>
    have ⟨next, _, hcomputes⟩ := computes_of_update computed
    cases after
    refine ⟨h.assistant, Nat.succ_pos _, ⟨_, hcomputes.nodes⟩, congrArg some hcomputes.content, ?_⟩
    intro id' phase' hcall
    by_cases hid : id' = id
    case pos =>
      have hcall : (s.advance id .returned).calls id' = some phase' := hcall
      rw [hid, calls_advance_self] at hcall
      cases hcall
      trivial
    case neg =>
      have hcall : (s.advance id .returned).calls id' = some phase' := hcall
      rw [calls_advance_of_ne hid] at hcall
      exact (h.calls id' phase' hcall).next rfl

-- The row as it has been created
structure Created (text : Unicode) (nodes : List CanonicalNode) (row : CanonicalMessage) : Prop where
  nodes     : row.nodes = normalizeCanonicalNodes text nodes row.role
  content   : row.content_text = some (deriveTextFields text row.nodes).1
  reasoning : row.reasoning_text = orNone (deriveTextFields text row.nodes).2
  version   : row.version = 1

theorem State.Initial.created_row (h : s.Initial text nodes) : Created text nodes s.row := by
  have ⟨run_id, ordinal, state, metadata, content_text, reasoning_text, hrow⟩ := h.created
  have hany : (normalizeCanonicalNodes text nodes s.row.role).any
      fun node => isNarrative text node || isReasoning text node := by
    have ⟨node, hmem, htext⟩ := exists_text h.assistant h.texts
    exact List.any_eq_true.mpr ⟨node, hmem, by simpa using htext⟩
  generalize s.row.role = role at *
  rw [hrow]
  refine ⟨rfl, ?_, ?_, rfl⟩
  case refine_1 => simp [createMessage, hany]
  case refine_2 => simp [createMessage, hany]

theorem Invariant.initial (h : s.Initial text nodes) : Invariant text s where
  assistant := h.assistant
  version   := by
    rw [h.created_row.version]
    exact Nat.one_pos
  nodes     := ⟨nodes, h.created_row.nodes⟩
  content   := h.created_row.content
  calls id phase hcall := by
    rw [h.calls id] at hcall
    cases hcall

theorem Invariant.reachable (h : (system text nodes).Reachable s) : Invariant text s :=
  h.invariant (fun _ => .initial) fun _ _ _ hi hs => hi.step hs

theorem getD_orNone (value : String) : (orNone value).getD "" = value := by
  unfold orNone
  split_ifs with h
  case pos => rfl
  case neg =>
    rw [not_not] at h
    exact h.symm

theorem consistent_created (h : s.Initial text nodes) : Consistent text s.row ↔ Clean text nodes := by
  have hcreated := h.created_row
  rw [consistent_iff h.assistant hcreated.nodes (by simp [hcreated.content]), hcreated.reasoning, getD_orNone]
  exact and_iff_left rfl

-- The nodes that the mutator returns for the stored row have no thoughts left in their narratives, and they have some
-- reasoning if the row has.
def Mends (text : Unicode) (s : State) (e : Event) : Prop :=
  ∀ id mutation update next metadata, e = .write id true → s.calls id = some (.checked mutation update s.row) →
    mutation.mutator s.row.nodes (s.row.metadata.merge mutation.metadata_updates) = some (next, metadata) →
    Clean text (asNodes next) ∧ (s.row.reasoning_text.getD "" ≠ "" → Reasons text (asNodes next))

theorem consistent_apply {mutation : Mutation} {update : Update} {row : CanonicalMessage} {next : Json}
    {metadata : Dict} (ha : isAssistant text row.role) (h : Computes text mutation row update next metadata) :
    Consistent text (update.apply row row) ↔
      Clean text (asNodes next) ∧ (row.reasoning_text.getD "" ≠ "" → Reasons text (asNodes next)) := by
  have ha' : isAssistant text (update.apply row row).role := ha
  have hnodes : (update.apply row row).nodes =
      normalizeCanonicalNodes text (asNodes next) (update.apply row row).role := h.nodes
  have hreasoning : (update.apply row row).reasoning_text =
      (orNone (deriveTextFields text (update.apply row row).nodes).2 <|> row.reasoning_text) :=
    congrArg (· <|> row.reasoning_text) h.reasoning
  have hcontent : (update.apply row row).content_text.getD "" =
      (deriveTextFields text (update.apply row row).nodes).1 := h.content
  rw [consistent_iff ha' hnodes hcontent, ← reasons_iff ha', hreasoning, hnodes]
  generalize (deriveTextFields text (normalizeCanonicalNodes text (asNodes next) (update.apply row row).role)).2 =
    reasoning
  apply and_congr_right
  intro _
  unfold orNone
  split_ifs with hr
  case pos => simp [hr]
  case neg =>
    have hr : reasoning = "" := by simpa using hr
    simp [hr]

theorem consistent_step (h : Invariant text s) (hc : Consistent text s.row) (hs : s.step text e = some t) :
    Consistent text t.row ↔ Mends text s e := by
  cases effect_of_step h hs
  case keeps id phase after unreturned _ =>
    have hrow : t.row = s.row := by rw [after]; rfl
    rw [hrow, iff_true_left hc]
    rintro id' mutation update next metadata rfl hcall _
    have hwrites : t.calls id' = some .returned := by
      simp only [State.step, hcall, currentVersion_of_pos h.version, and_self, if_true, Option.some.injEq] at hs
      rw [← hs]
      exact calls_advance_self
    rw [after] at hwrites
    by_cases hid : id' = id
    case pos =>
      rw [hid, calls_advance_self] at hwrites
      cases hwrites
      exact absurd rfl unreturned
    case neg =>
      rw [calls_advance_of_ne hid, hcall] at hwrites
      cases hwrites
  case writes id mutation update now event phase computed after =>
    have ⟨next, metadata, hcomputes⟩ := computes_of_update computed
    have hrow : t.row = update.apply s.row s.row := by rw [after]
    rw [hrow, consistent_apply h.assistant hcomputes]
    constructor
    case mp =>
      intro hmends id' mutation' update' next' metadata' he hcall hm'
      rw [event] at he
      cases he
      rw [phase] at hcall
      cases hcall
      rw [hcomputes.mutator] at hm'
      cases hm'
      exact hmends
    case mpr => exact fun hmends => hmends id mutation update next metadata event phase hcomputes.mutator

-- A call that returns has made one version of the one that it has read; a call that raises, as one does that has lost
-- the race, and every other step leave the row alone.
structure Atomic (text : Unicode) (s : State) (e : Event) (t : State) : Prop where
  returned : ∀ id, t.calls id = some .returned → s.calls id ≠ some .returned →
    t.row.version = s.row.version + 1 ∧ ∃ mutation update now, s.calls id = some (.checked mutation update s.row) ∧
      mutation.update text s.row now = some update ∧ t.row = update.apply s.row s.row
  still    : (∀ id, t.calls id = some .returned → s.calls id = some .returned) → t.row = s.row
  raised   : ∀ id, t.calls id = some .raised → s.calls id ≠ some .raised → t.row = s.row
  lost     : ∀ id mutation update existing epoch, s.calls id = some (.checked mutation update existing) →
    existing.version ≠ s.row.version → e = .write id epoch → t.calls id = some .raised
  stale    : ∀ id mutation update, s.calls id = some (.computed mutation update) →
    update.expected_version ≠ s.row.version → e = .check id → t.calls id = some .raised

theorem atomic_step (h : Invariant text s) (hs : s.step text e = some t) : Atomic text s e t where
  returned id hreturned hnot := by
    cases effect_of_step h hs
    case keeps id' phase after unreturned _ =>
      rw [after] at hreturned
      by_cases hid : id = id'
      case pos =>
        rw [hid, calls_advance_self] at hreturned
        exact absurd (Option.some.inj hreturned) unreturned
      case neg =>
        rw [calls_advance_of_ne hid] at hreturned
        exact absurd hreturned hnot
    case writes id' mutation update now _ phase computed after =>
      have hcalls : t.calls = (s.advance id' .returned).calls := by rw [after]
      rw [hcalls] at hreturned
      by_cases hid : id = id'
      case neg =>
        rw [calls_advance_of_ne hid] at hreturned
        exact absurd hreturned hnot
      case pos =>
        rw [after, hid]
        exact ⟨rfl, mutation, update, now, phase, computed, rfl⟩
  still hstill := by
    cases effect_of_step h hs
    case keeps after _ _ => rw [after]; rfl
    case writes id _ _ _ _ phase _ after =>
      have hcalls : t.calls = (s.advance id .returned).calls := by rw [after]
      have hreturned := hstill id (by rw [hcalls, calls_advance_self])
      rw [phase] at hreturned
      cases hreturned
  raised id hraised hnot := by
    cases effect_of_step h hs
    case keeps after _ _ => rw [after]; rfl
    case writes id' _ _ _ _ _ _ after =>
      have hcalls : t.calls = (s.advance id' .returned).calls := by rw [after]
      rw [hcalls] at hraised
      by_cases hid : id = id'
      case pos =>
        rw [hid, calls_advance_self] at hraised
        cases hraised
      case neg =>
        rw [calls_advance_of_ne hid] at hraised
        exact absurd hraised hnot
  lost id mutation update existing epoch hcall hv he := by
    have ⟨hseen, _⟩ := h.calls id _ hcall
    subst he
    rw [← currentVersion_of_pos hseen.stored] at hv
    simp only [State.step, hcall, Ne.symm hv, and_false, if_false, Option.some.injEq] at hs
    rw [← hs]
    exact calls_advance_self
  stale id mutation update hcall hv he := by
    subst he
    rw [← currentVersion_of_pos h.version] at hv
    simp only [State.step, hcall, Ne.symm hv, if_false, Option.some.injEq] at hs
    rw [← hs]
    exact calls_advance_self

theorem canonical_rows (text : Unicode) (nodes : List CanonicalNode) :
    (∀ s e t, (system text nodes).Reachable s → s.step text e = some t →
      Atomic text s e t ∧ (Consistent text s.row → (Consistent text t.row ↔ Mends text s e))) ∧
    (∀ s : State, s.Initial text nodes → (Consistent text s.row ↔ Clean text nodes)) ∧
    (Clean text nodes → ∀ s, ((system text nodes).restrict (Mends text)).Reachable s → Consistent text s.row) := by
  refine ⟨?step, ?created, ?run⟩
  case step =>
    intro s e t hr hs
    have h := Invariant.reachable hr
    exact ⟨atomic_step h hs, fun hc => consistent_step h hc hs⟩
  case created => exact fun s h => consistent_created h
  case run =>
    intro hclean s hr
    have hboth : Invariant text s ∧ Consistent text s.row := by
      apply hr.invariant
      case h₀ => exact fun _ h => ⟨.initial h, (consistent_created h).mpr hclean⟩
      case hI =>
        intro s e t h hs
        exact ⟨h.1.step hs.right, (consistent_step h.1 h.2 hs.right).mpr hs.left⟩
    exact hboth.2

-- A text that knows ASCII only
def asciiUnicode : Unicode where
  toText            := asciiText
  word c            := c.isAlphanum || c == '_'
  wordAscii _ _     := rfl

def narrative (content : String) : CanonicalNode :=
  [("kind", .str "narrative"), ("content", .str content)]

def reasoning (content : String) : CanonicalNode :=
  [("kind", .str "execution"), ("executionType", .str "reasoning"), ("content", .str content)]

-- A message that has just been created
def fresh (nodes : List CanonicalNode) : State where
  row   := createMessage asciiUnicode none 1 "assistant" "streaming" [] nodes none none
  calls := fun _ => none

-- The mutation that replaces all nodes
def replacement (next : List CanonicalNode) : Mutation where
  mutator _ metadata := some (.list (next.map .dict), metadata)
  state              := none
  metadata_updates   := []
  finalize           := false

theorem asNodes_map (next : List CanonicalNode) : asNodes (.list (next.map .dict)) = next := by
  simp [asNodes, List.filterMap_map]

-- A call that nothing disturbs
theorem run_replacement (ok : State → Event → Prop) (nodes next : List CanonicalNode)
    (hok : ∀ s e, (∀ id epoch, e ≠ .write id epoch) → ok s e)
    (hwrite : ∀ s update, s.row = (fresh nodes).row →
      s.calls 0 = some (.checked (replacement next) update (fresh nodes).row) → ok s (.write 0 true)) :
    ∃ t update metadata, ((system asciiUnicode nodes).restrict ok).Run (fresh nodes)
        [.call 0 (replacement next), .read 0 "now", .check 0, .write 0 true] t ∧
      t.row = update.apply (fresh nodes).row (fresh nodes).row ∧
      Computes asciiUnicode (replacement next) (fresh nodes).row update (.list (next.map .dict)) metadata := by
  have hcalled : (fresh nodes).calls 0 = none := rfl
  have hversion : (fresh nodes).row.currentVersion = (fresh nodes).row.version := rfl
  generalize fresh nodes = s at *
  cases hu : (replacement next).update asciiUnicode s.row "now"
  case none => simp [Mutation.update, replacement] at hu
  case some update =>
    have ⟨next', metadata, hcomputes⟩ := computes_of_update hu
    cases hcomputes.mutator
    generalize hs₁ : s.advance 0 (.called (replacement next)) = s₁
    generalize hs₂ : s₁.advance 0 (.computed (replacement next) update) = s₂
    generalize hs₃ : s₂.advance 0 (.checked (replacement next) update s.row) = s₃
    have hcall : s.step asciiUnicode (.call 0 (replacement next)) = some s₁ := by
      simp [State.step, hcalled, hs₁]
    have hread : s₁.step asciiUnicode (.read 0 "now") = some s₂ := by
      have hrow : s₁.row = s.row := by rw [← hs₁]; rfl
      have hphase : s₁.calls 0 = some (.called (replacement next)) := by rw [← hs₁, calls_advance_self]
      simp [State.step, hphase, hrow, hu, hs₂]
    have hcheck : s₂.step asciiUnicode (.check 0) = some s₃ := by
      have hrow : s₂.row = s.row := by rw [← hs₂, ← hs₁]; rfl
      have hphase : s₂.calls 0 = some (.computed (replacement next) update) := by rw [← hs₂, calls_advance_self]
      simp [State.step, hphase, hrow, hcomputes.version, hs₃]
    have hrow : s₃.row = s.row := by rw [← hs₃, ← hs₂, ← hs₁]; rfl
    have hphase : s₃.calls 0 = some (.checked (replacement next) update s.row) := by
      rw [← hs₃, calls_advance_self]
    have hwritten : s₃.step asciiUnicode (.write 0 true) =
        some { s₃.advance 0 .returned with row := update.apply s.row s.row } := by
      simp [State.step, hphase, hrow, hversion]
    have hother (id : ℕ) (mutation : Mutation) (now : String) :
        (∀ id' epoch, Event.call id mutation ≠ .write id' epoch) ∧
        (∀ id' epoch, Event.read id now ≠ .write id' epoch) ∧ ∀ id' epoch, Event.check id ≠ .write id' epoch := by
      simp
    have hother := hother 0 (replacement next) "now"
    exact ⟨_, update, _, .trans ⟨hok _ _ hother.1, hcall⟩ (.trans ⟨hok _ _ hother.2.1, hread⟩
      (.trans ⟨hok _ _ hother.2.2, hcheck⟩ (.trans ⟨hwrite s₃ update hrow hphase, hwritten⟩ .refl))), rfl, hcomputes⟩

theorem initial_fresh (nodes : List CanonicalNode)
    (h : ∃ node ∈ nodes, isNarrative asciiUnicode node ∨ isReasoning asciiUnicode node) :
    (fresh nodes).Initial asciiUnicode nodes where
  assistant := by
    have hrole : isAssistant asciiUnicode "assistant" := by decide
    exact hrole
  texts     := h
  created   := ⟨_, _, _, _, _, _, rfl⟩
  calls _   := rfl

-- A second narrative is appended.
theorem canonical_rows_sample : ∃ t, (system asciiUnicode [narrative "hi"]).Reachable t ∧ t.row.version = 2 ∧
    Consistent asciiUnicode t.row := by
  have hinitial := initial_fresh [narrative "hi"] ⟨_, List.mem_cons_self, .inl (by decide)⟩
  have hclean (content : String) (h : mentionsThink asciiUnicode content = false) :
      ¬mentionsThink asciiUnicode (splitInlineReasoning asciiUnicode ((narrative content).get "content")).1 := by
    have hcontent : (narrative content).get "content" = .str content := rfl
    have hno : ¬mentionsThink asciiUnicode content := by simp [h]
    rwa [hcontent, splitInlineReasoning_of_clean hno]
  have hmends (s : State) (update : Update) (hrow : s.row = (fresh [narrative "hi"]).row)
      (hphase : s.calls 0 = some (.checked (replacement [narrative "hi", narrative "!"]) update
        (fresh [narrative "hi"]).row)) : Mends asciiUnicode s (.write 0 true) := by
    intro id mutation update' next metadata he hcall hm
    cases he
    rw [hphase] at hcall
    obtain ⟨rfl, _, _⟩ := Phase.checked.inj (Option.some.inj hcall)
    cases hm
    have hnone : s.row.reasoning_text = none := by
      rw [hrow]
      decide
    refine ⟨?_, fun hne => absurd (by simp [hnone]) hne⟩
    rw [asNodes_map]
    intro node hnode _
    simp only [List.mem_cons, List.not_mem_nil, or_false] at hnode
    cases hnode
    case inl h => exact h ▸ hclean "hi" (by decide)
    case inr h => exact h ▸ hclean "!" (by decide)
  have hother (s : State) (e : Event) (he : ∀ id epoch, e ≠ .write id epoch) : Mends asciiUnicode s e :=
    fun id _ _ _ _ hwrite => absurd hwrite (he id true)
  obtain ⟨t, update, _, hrun, hrow, _⟩ :=
    run_replacement (Mends asciiUnicode) [narrative "hi"] [narrative "hi", narrative "!"] hother hmends
  have hreachable := Transition.Reachable.run (.init hinitial) hrun
  refine ⟨t, hreachable.of_restrict, by rw [hrow]; rfl, ?_⟩
  apply (canonical_rows asciiUnicode [narrative "hi"]).2.2 _ t hreachable
  intro node hnode _
  rw [List.mem_singleton.mp hnode]
  exact hclean "hi" (by decide)

-- A mutation that takes all reasoning out leaves its text in the row, and a tag that only starts like a thought stays
-- in the narrative.
theorem canonical_rows_fails :
    (∃ s, (system asciiUnicode [reasoning "why", narrative "hi"]).Reachable s ∧ ¬Consistent asciiUnicode s.row) ∧
    ∃ s, (system asciiUnicode [narrative "hi"]).Reachable s ∧ ¬Consistent asciiUnicode s.row := by
  have hreach (nodes next : List CanonicalNode)
      (h : ∃ node ∈ nodes, isNarrative asciiUnicode node ∨ isReasoning asciiUnicode node)
      (hno : ¬(Clean asciiUnicode next ∧
        ((fresh nodes).row.reasoning_text.getD "" ≠ "" → Reasons asciiUnicode next))) :
      ∃ s, (system asciiUnicode nodes).Reachable s ∧ ¬Consistent asciiUnicode s.row := by
    obtain ⟨t, update, _, hrun, hrow, hcomputes⟩ := run_replacement (fun _ _ => True) nodes next
      (fun _ _ _ => trivial) (fun _ _ _ _ => trivial)
    refine ⟨t, (Transition.Reachable.run (.init (initial_fresh nodes h)) hrun).of_restrict, ?_⟩
    rw [hrow, consistent_apply (initial_fresh nodes h).assistant hcomputes, asNodes_map]
    exact hno
  constructor
  case left =>
    apply hreach _ [narrative "hi"] ⟨_, List.mem_cons_self, .inr (by decide)⟩
    rintro ⟨_, hreasons⟩
    have ⟨node, hnode, h⟩ := hreasons (by decide)
    rw [List.mem_singleton.mp hnode] at h
    cases h
    case inl h => exact absurd h.1 (by decide)
    case inr h => exact h.2 (by decide)
  case right =>
    apply hreach _ [narrative "<thinking"] ⟨_, List.mem_cons_self, .inl (by decide)⟩
    rintro ⟨hclean, _⟩
    exact hclean _ List.mem_cons_self (by decide) (by decide)

end Transcript
