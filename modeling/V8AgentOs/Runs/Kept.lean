import V8AgentOs.Runs.Service

-- What a transaction leaves of the metadata of every run.
namespace Runs

open Python (Dict Json Text)

-- What a merged write does not update is on the row as the call read it.
def Merge.Fresh (m : Merge) (row : RunRecord) : Prop :=
  m.metadata ≠ [] → ∀ key, m.updates.has key = false → row.metadata.lookup key = m.read.lookup key

def Transaction.Fresh (w : World) (runs : RunTable) : Transaction → Prop
  | updateRunRecord run _ _ merge => ∀ m ∈ merge, ∀ row, runs.get? run = some row → m.Fresh row
  | updateRunRecordIfStatus run expected status _ merge =>
    ∀ m ∈ merge, ∀ row, runs.get? run = some row → refusal w.blocked expected status row = none → m.Fresh row
  | _ => True

-- The step does not write metadata over newer metadata.
def Fresh (s : State) (e : Event) : Prop :=
  match e.action with
  | .commit t w _ => t.Fresh w s.runs
  | _             => True

-- What a transaction that wrote gave to a key of the run's metadata: a value, or nothing where it took the key away
def Transaction.gives (id key : String) : Transaction → Option (Option Json)
  | updateRunRecord run _ _ merge =>
    if run = id then (merge.bind (·.updates.lookup key)).map some else none
  | updateRunRecordIfStatus run _ _ _ merge =>
    if run = id then (merge.bind (·.updates.lookup key)).map some else none
  | setControlSignal run command reason payload =>
    if run = id ∧ "control_signal" = key then some (some (.dict (signalValue command reason payload))) else none
  | consumeRunControlSignal run _ =>
    if run = id ∧ "control_signal" = key then some none else none

def Event.gives (id key : String) (e : Event) : Option (Option Json) :=
  match e.action with
  | .commit t _ true => t.gives id key
  | _                => none

variable {text : Text} {w : World} {runs : RunTable} {row : RunRecord} {m : Merge} {merge : Option Merge}
  {id key run status command : String} {errorMessage reason : Option String} {expected : List String}
  {payload signal : Dict} {wanted : Option Dict} {now : Time} {t : Transaction}

theorem valueOf_of_get? (h : runs.get? id = some row) : valueOf runs id key = row.metadata.lookup key := by
  simp [valueOf, h]

section Merges

theorem Merge.lookup_metadata : m.metadata.lookup key = (m.updates.lookup key).or (m.read.lookup key) :=
  Dict.lookup_merge

-- The metadata that a write of a run leaves
def RunRecord.after (merge : Option Merge) (row : RunRecord) : Dict :=
  (dumped (merge.map Merge.metadata)).getD row.metadata

theorem after_none : row.after none = row.metadata := rfl

theorem after_some : row.after (some m) = if m.metadata = [] then row.metadata else m.metadata := by
  cases h : m.metadata
  case nil  => simp [RunRecord.after, dumped, h, Option.filter]
  case cons => simp [RunRecord.after, dumped, h, Option.filter]

theorem not_has : m.updates.has key = false ↔ m.updates.lookup key = none := by
  simp [Dict.has]

theorem after_fresh (h : ∀ m ∈ merge, m.Fresh row) :
    (row.after merge).lookup key = (merge.bind (·.updates.lookup key)).or (row.metadata.lookup key) := by
  cases merge
  case none => rfl
  case some m =>
    rw [after_some]
    split
    case isTrue he =>
      have hn : m.updates.lookup key = none := by
        have : m.metadata.lookup key = (m.updates.lookup key).or (m.read.lookup key) := Merge.lookup_metadata
        rw [he] at this
        cases hu : m.updates.lookup key
        case none   => rfl
        case some v => simp [hu] at this
      simp [hn]
    case isFalse he =>
      rw [Merge.lookup_metadata]
      cases hu : m.updates.lookup key
      case some v => simp [hu]
      case none   => simp [hu, h m rfl he key (not_has.mpr hu)]

-- A merged write that is not fresh undoes a key that it does not update.
theorem fresh_of_after
    (h : ∀ key, (row.after (some m)).lookup key = (m.updates.lookup key).or (row.metadata.lookup key)) :
    m.Fresh row := by
  intro he key hk
  have h := h key
  rw [after_some, if_neg he, Merge.lookup_metadata, not_has.mp hk] at h
  exact h.symm

end Merges

section Rows

-- An update of one run changes what its function makes of this run's metadata.
theorem valueOf_update {f : RunRecord → RunRecord} {hf : ∀ r, (f r).id = r.id} (h : runs.get? run = some row) :
    valueOf (runs.update (·.id = run) f hf) id key =
      if run = id then (f row).metadata.lookup key else valueOf runs id key := by
  unfold valueOf
  rw [Table.get?_update]
  split
  case isTrue hid =>
    subst hid
    simp [h, Table.key_of_get? h]
  case isFalse hid =>
    cases hr : runs.get? id
    case none => rfl
    case some r =>
      have : ¬r.id = run := fun hk => hid (hk.symm.trans (Table.key_of_get? hr))
      simp [this]

theorem update_none {f : RunRecord → RunRecord} {hf : ∀ r, (f r).id = r.id} (h : runs.get? run = none) :
    runs.update (·.id = run) f hf = runs := by
  have hn := Table.any_key (t := runs) (b := run) (q := fun _ => true)
  rw [h] at hn
  apply Table.update_of_not_any
  simpa using hn

-- A write whose merge is fresh
theorem valueOf_written (h : runs.get? run = some row) (hf : ∀ m ∈ merge, m.Fresh row) :
    valueOf (updateRunRecord now runs run status errorMessage (merge.map Merge.metadata)) id key =
      (if run = id then (merge.bind (·.updates.lookup key)).map some else none).getD (valueOf runs id key) := by
  rw [updateRunRecord, valueOf_update h]
  split
  case isFalse => rfl
  case isTrue hid =>
    show (row.after merge).lookup key = _
    rw [after_fresh hf, valueOf_of_get? (hid ▸ h)]
    cases merge.bind (·.updates.lookup key)
    case none   => rfl
    case some v => rfl

-- A write that undoes nothing has a fresh merge.
theorem fresh_of_written (h : runs.get? run = some row)
    (hw : ∀ key, valueOf (updateRunRecord now runs run status errorMessage (merge.map Merge.metadata)) run key =
      (if run = run then (merge.bind (·.updates.lookup key)).map some else none).getD (valueOf runs run key)) :
    ∀ m ∈ merge, m.Fresh row := by
  intro m hm
  cases hm
  apply fresh_of_after
  intro key
  have hw := hw key
  rw [updateRunRecord, valueOf_update h, valueOf_of_get? h, if_pos rfl, if_pos rfl] at hw
  rw [show (row.after (some m)).lookup key = _ from hw, Option.bind_some]
  cases m.updates.lookup key
  case none   => rfl
  case some v => rfl

theorem updated_of_ok {blocked : Json → Option String} {metadata : Option Dict}
    (h : (updateRunRecordIfStatus now blocked runs id expected status errorMessage metadata).1.ok) :
    ∃ row, runs.get? id = some row ∧ refusal blocked expected status row = none ∧
      (updateRunRecordIfStatus now blocked runs id expected status errorMessage metadata).2 =
        updateRunRecord now runs id status errorMessage metadata := by
  unfold updateRunRecordIfStatus at h ⊢
  cases hr : runs.get? id
  case none => simp [hr, Answer.ok] at h
  case some row =>
    cases hf : refusal blocked expected status row
    case some reason => simp [hr, hf, Answer.ok] at h
    case none        => exact ⟨row, rfl, hf, by simp [hf]⟩

theorem updateRunRecordIfStatus_of_refusal {blocked : Json → Option String} {metadata : Option Dict}
    (h : runs.get? id = some row) (hf : refusal blocked expected status row = none) :
    (updateRunRecordIfStatus now blocked runs id expected status errorMessage metadata).1.ok = true := by
  simp [updateRunRecordIfStatus, h, hf, Answer.ok]

theorem unchanged_of_not_ok {blocked : Json → Option String} {metadata : Option Dict}
    (h : (updateRunRecordIfStatus now blocked runs id expected status errorMessage metadata).1.ok = false) :
    (updateRunRecordIfStatus now blocked runs id expected status errorMessage metadata).2 = runs := by
  unfold updateRunRecordIfStatus at h ⊢
  cases hr : runs.get? id
  case none => rfl
  case some row =>
    cases hf : refusal blocked expected status row
    case some reason => simp [hf]
    case none        => simp [hr, hf, Answer.ok] at h

-- The write of the key `control_signal`: refused, with the table unchanged, or a new value of the key
theorem setControlSignal_spec (text : Text) (runs : RunTable) (id : String) (signal : Dict) :
    ((updateRunMetadataKeyIfState text runs id "control_signal" ⟨"", "", none, none⟩ signal).1.ok = false ∧
      (updateRunMetadataKeyIfState text runs id "control_signal" ⟨"", "", none, none⟩ signal).2 = runs) ∨
    ∃ row, runs.get? id = some row ∧
      (updateRunMetadataKeyIfState text runs id "control_signal" ⟨"", "", none, none⟩ signal).1.ok = true ∧
      (updateRunMetadataKeyIfState text runs id "control_signal" ⟨"", "", none, none⟩ signal).2 =
        setMetadata runs id (row.metadata.set "control_signal" (.dict signal)) := by
  have hkey : Python.strip "control_signal" = "control_signal" := by decide
  have hempty : Python.strip "" = "" := by decide
  unfold updateRunMetadataKeyIfState
  rw [hkey]
  cases hr : runs.get? id
  case none => simp [Answer.ok]
  case some row =>
    by_cases hs : markerState text row.metadata "control_signal" = text.lower ""
    case pos => exact .inr ⟨row, by simp [hempty, hs, Answer.ok]⟩
    case neg => exact .inl (by simp [hempty, hs, Answer.ok])

theorem consume_spec (runs : RunTable) (id : String) (wanted : Option Dict) :
    (consumeRunControlSignal runs id wanted = (none, runs)) ∨
    ∃ row d, runs.get? id = some row ∧ controlSignal row.metadata = some d ∧
      consumeRunControlSignal runs id wanted =
        (some d, setMetadata runs id (row.metadata.without "control_signal")) := by
  unfold consumeRunControlSignal
  cases hr : runs.get? id
  case none => exact .inl rfl
  case some row =>
    cases hd : (controlSignal row.metadata).filter (asExpected wanted)
    case none   => exact .inl (by simp [hd])
    case some d => exact .inr ⟨row, d, rfl, (Option.filter_eq_some_iff.mp hd).left, by simp [hd]⟩

end Rows

section Sessions

-- The runs are still there, in their sessions.
def SameSessions (runs runs' : RunTable) : Prop :=
  ∀ id row', runs'.get? id = some row' → ∃ row, runs.get? id = some row ∧ row'.sessionId = row.sessionId

theorem SameSessions.refl : SameSessions runs runs :=
  fun _ row h => ⟨row, h, rfl⟩

theorem SameSessions.trans {runs' runs'' : RunTable} (h : SameSessions runs runs') (h' : SameSessions runs' runs'') :
    SameSessions runs runs'' := by
  intro id row'' hr
  have ⟨row', hr', hs'⟩ := h' id row'' hr
  have ⟨row, hr, hs⟩ := h id row' hr'
  exact ⟨row, hr, hs'.trans hs⟩

theorem SameSessions.update {p : RunRecord → Bool} {f : RunRecord → RunRecord} (hf : ∀ r, (f r).id = r.id)
    (h : ∀ r, (f r).sessionId = r.sessionId) : SameSessions runs (runs.update p f hf) := by
  intro id row' hr
  rw [Table.get?_update] at hr
  have ⟨row, hrow, hf⟩ := Option.map_eq_some_iff.mp hr
  refine ⟨row, hrow, ?_⟩
  rw [← hf]
  split
  case isTrue  => exact h row
  case isFalse => rfl

theorem SameSessions.apply (t : Transaction) : SameSessions runs (t.apply text w runs).2 := by
  cases t
  case updateRunRecord run status errorMessage merge => exact .update RunRecord.written_id fun _ => rfl
  case updateRunRecordIfStatus run expected status errorMessage merge =>
    cases ha : (updateRunRecordIfStatus w.now w.blocked runs run expected status errorMessage
      (merge.map Merge.metadata)).1.ok
    case false =>
      simp only [Transaction.apply, unchanged_of_not_ok ha]
      exact .refl
    case true =>
      have ⟨_, _, _, hw⟩ := updated_of_ok ha
      simp only [Transaction.apply, hw]
      exact .update RunRecord.written_id fun _ => rfl
  case setControlSignal run command reason payload =>
    cases setControlSignal_spec text runs run (signalValue command reason payload)
    case inl h =>
      simp only [Transaction.apply, h.right]
      exact .refl
    case inr h =>
      have ⟨_, _, _, hw⟩ := h
      simp only [Transaction.apply, hw]
      exact .update (by exact fun _ => rfl) fun _ => rfl
  case consumeRunControlSignal run expected =>
    cases consume_spec runs run expected
    case inl h =>
      simp only [Transaction.apply, h]
      exact .refl
    case inr h =>
      have ⟨_, _, _, _, hw⟩ := h
      simp only [Transaction.apply, hw]
      exact .update (by exact fun _ => rfl) fun _ => rfl

theorem SameSessions.step {s t : State} {e : Event} (hs : Step text s e t) : SameSessions s.runs t.runs := by
  cases hs
  case call    => exact .refl
  case recheck => exact .refl
  case stop    => exact .refl
  case commit i t w _ => exact .apply t

end Sessions

section Transactions

-- A transaction changes the keys that it gives a value to, if it wrote, and no others.
theorem valueOf_apply (hf : t.Fresh w runs) :
    valueOf (t.apply text w runs).2 id key =
      (if (t.apply text w runs).1 then t.gives id key else none).getD (valueOf runs id key) := by
  cases t
  case updateRunRecord run status errorMessage merge =>
    cases hr : runs.get? run
    case none => simp [Transaction.apply, hr, updateRunRecord, update_none hr]
    case some row =>
      rw [Transaction.apply, valueOf_written hr fun m hm => hf m hm row hr]
      simp [hr, Transaction.gives]
  case updateRunRecordIfStatus run expected status errorMessage merge =>
    cases ha : (updateRunRecordIfStatus w.now w.blocked runs run expected status errorMessage
      (merge.map Merge.metadata)).1.ok
    case false => simp [Transaction.apply, ha, unchanged_of_not_ok ha]
    case true =>
      have ⟨row, hr, hn, hw⟩ := updated_of_ok ha
      simp only [Transaction.apply, ha, hw, if_true]
      exact valueOf_written hr fun m hm => hf m hm row hr hn
  case setControlSignal run command reason payload =>
    cases setControlSignal_spec text runs run (signalValue command reason payload)
    case inl h => simp [Transaction.apply, h.left, h.right]
    case inr h =>
      have ⟨row, hr, hok, hw⟩ := h
      simp only [Transaction.apply, hok, hw, if_true, Transaction.gives]
      rw [setMetadata, valueOf_update hr]
      by_cases hid : run = id
      case neg => simp [hid]
      case pos =>
        by_cases hk : "control_signal" = key
        case pos => simp [hid, hk.symm, Dict.lookup_set_self]
        case neg => simp [hid, hk, Dict.lookup_set_of_ne (Ne.symm hk), valueOf_of_get? (hid ▸ hr)]
  case consumeRunControlSignal run expected =>
    cases consume_spec runs run expected
    case inl h => simp [Transaction.apply, h]
    case inr h =>
      have ⟨row, d, hr, _, hw⟩ := h
      simp only [Transaction.apply, hw, Option.isSome_some, if_true, Transaction.gives]
      rw [setMetadata, valueOf_update hr]
      by_cases hid : run = id
      case neg => simp [hid]
      case pos =>
        by_cases hk : "control_signal" = key
        case pos => simp [hid, hk.symm, Dict.lookup_without]
        case neg => simp [hid, hk, Dict.lookup_without, Ne.symm hk, valueOf_of_get? (hid ▸ hr)]

theorem fresh_of_apply
    (h : ∀ id key, valueOf (t.apply text w runs).2 id key =
      (if (t.apply text w runs).1 then t.gives id key else none).getD (valueOf runs id key)) : t.Fresh w runs := by
  cases t
  case setControlSignal        => trivial
  case consumeRunControlSignal => trivial
  case updateRunRecord run status errorMessage merge =>
    intro m hm row hr
    have hw := h run
    simp only [Transaction.apply, hr, Option.isSome_some, if_true] at hw
    exact fresh_of_written hr hw m hm
  case updateRunRecordIfStatus run expected status errorMessage merge =>
    intro m hm row hr hn
    have hok : (Runs.updateRunRecordIfStatus w.now w.blocked runs run expected status errorMessage
      (merge.map Merge.metadata)).1.ok := updateRunRecordIfStatus_of_refusal hr hn
    obtain ⟨_, _, _, hwrite⟩ := updated_of_ok hok
    have hw := h run
    simp only [Transaction.apply, hok, hwrite, if_true] at hw
    exact fresh_of_written hr hw m hm

end Transactions

section Stale

theorem valueOf_merged (h : runs.get? run = some row) (hm : ∀ m ∈ merge, m.updates.has key = false) :
    valueOf (updateRunRecord now runs run status errorMessage (merge.map Merge.metadata)) id key = valueOf runs id key ∨
      run = id ∧ ∃ m ∈ merge,
        valueOf (updateRunRecord now runs run status errorMessage (merge.map Merge.metadata)) id key =
          m.read.lookup key := by
  rw [updateRunRecord, valueOf_update h]
  split
  case isFalse => exact .inl rfl
  case isTrue hid =>
    show (row.after merge).lookup key = _ ∨ _ ∧ ∃ m ∈ merge, (row.after merge).lookup key = _
    cases merge
    case none => exact .inl (valueOf_of_get? (hid ▸ h)).symm
    case some m =>
      rw [after_some]
      split
      case isTrue  => exact .inl (valueOf_of_get? (hid ▸ h)).symm
      case isFalse =>
        refine .inr ⟨hid, m, rfl, ?_⟩
        rw [Merge.lookup_metadata, not_has.mp (hm m rfl), Option.none_or]

-- A key that a transaction does not name stays, or becomes what the call had read.
theorem valueOf_stale (hm : ∀ m ∈ t.merge, m.updates.has key = false) (hk : "control_signal" ≠ key) :
    valueOf (t.apply text w runs).2 id key = valueOf runs id key ∨
      t.target = id ∧ ∃ m ∈ t.merge, valueOf (t.apply text w runs).2 id key = m.read.lookup key := by
  cases t
  case updateRunRecord run status errorMessage merge =>
    cases hr : runs.get? run
    case none     => exact .inl (by simp [Transaction.apply, updateRunRecord, update_none hr])
    case some row => exact valueOf_merged hr hm
  case updateRunRecordIfStatus run expected status errorMessage merge =>
    cases ha : (updateRunRecordIfStatus w.now w.blocked runs run expected status errorMessage
      (merge.map Merge.metadata)).1.ok
    case false => exact .inl (by simp [Transaction.apply, unchanged_of_not_ok ha])
    case true =>
      obtain ⟨row, hr, _, hw⟩ := updated_of_ok ha
      simp only [Transaction.apply, hw]
      exact valueOf_merged hr hm
  case setControlSignal run command reason payload =>
    left
    have hf : Transaction.Fresh w runs (.setControlSignal run command reason payload) := trivial
    have hv : valueOf (Transaction.apply text w runs (.setControlSignal run command reason payload)).2 id key = _ :=
      valueOf_apply hf
    simpa [Transaction.gives, hk] using hv
  case consumeRunControlSignal run expected =>
    left
    have hf : Transaction.Fresh w runs (.consumeRunControlSignal run expected) := trivial
    have hv : valueOf (Transaction.apply text w runs (.consumeRunControlSignal run expected)).2 id key = _ :=
      valueOf_apply hf
    simpa [Transaction.gives, hk] using hv

end Stale
end Runs
