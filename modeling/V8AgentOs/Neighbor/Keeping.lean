import V8AgentOs.Neighbor.Steps
import V8AgentOs.Neighbor.Tasks

namespace Neighbor

open Hoare (Triple)
open Rows (Grown)

variable {α β : Type} {host : TaskHost} {w : TaskWorld} {db db' db'' : Database} {envelope : Envelope}
  {a b : Assignment} {id status now : String}

-- An assignment with a final result keeps its status and its result.
structure Assignment.Follows (a b : Assignment) : Prop where
  id      : b.id = a.id
  taskId  : b.taskId = a.taskId
  settled : a.settled → b.status = a.status ∧ b.resultId = a.resultId

namespace Assignment.Follows

theorem refl (a : Assignment) : a.Follows a :=
  ⟨rfl, rfl, fun _ => ⟨rfl, rfl⟩⟩

theorem settled_right (h : a.Follows b) (ha : a.settled) : b.settled := by
  have ⟨hs, hr⟩ := h.settled ha
  unfold Assignment.settled
  rw [hs, hr]
  exact ha

theorem trans (a b c : Assignment) (h₁ : a.Follows b) (h₂ : b.Follows c) : a.Follows c where
  id        := h₂.id.trans h₁.id
  taskId    := h₂.taskId.trans h₁.taskId
  settled h := by
    have ⟨hs, hr⟩ := h₁.settled h
    have ⟨hs', hr'⟩ := h₂.settled (h₁.settled_right h)
    exact ⟨hs'.trans hs, hr'.trans hr⟩

theorem ids {f : Assignment → Assignment} {l : List Assignment} (hf : ∀ a ∈ l, a.Follows (f a)) :
    (l.map f).map (·.id) = l.map (·.id) := by
  rw [List.map_map]
  exact List.map_congr_left fun a ha => (hf a ha).id

theorem of_unsettled (hi : b.id = a.id) (ht : b.taskId = a.taskId) (h : ¬a.settled) : a.Follows b :=
  ⟨hi, ht, fun ha => (h ha).elim⟩

end Assignment.Follows

theorem Assignment.not_settled (h : a.resultId = none) : ¬a.settled := by
  simp [settled, h]

theorem Assignment.not_settled_of_status (h : ¬terminalStatuses.contains a.status) : ¬a.settled := by
  unfold settled
  rw [Bool.and_eq_true]
  exact fun ha => h ha.left

-- The assignment belongs to a task of this device, not to one that a peer sent.
def Database.originates (db : Database) (a : Assignment) : Bool :=
  (db.task? a.taskId).any (·.targetMode ≠ "inbound")

-- The final status of an assignment of this device is that of the stored result.
structure Database.Sound (db : Database) : Prop where
  ids     : (db.assignments.map (·.id)).Nodup
  tasks   : ∀ a ∈ db.assignments, (db.task? a.taskId).isSome
  settled : ∀ a ∈ db.assignments, db.originates a → a.settled → ∃ id r, a.resultId = some id ∧
    db.result? id = some r ∧ r.status = a.status

-- What happens to the tables of tasks, assignments and results while no final status changes
structure Safe (db db' : Database) : Prop where
  modes       : ∀ id t, db.task? id = some t → ∃ t', db'.task? id = some t' ∧ t'.targetMode = t.targetMode
  assignments : Grown Assignment.Follows db.assignments db'.assignments
  results     : ∀ id r, db.result? id = some r → db'.result? id = some r
  sound       : db'.Sound

namespace Safe

theorem refl (h : db.Sound) : Safe db db where
  modes _ t ht := ⟨t, ht, rfl⟩
  assignments  := .refl .refl _
  results _ _  := fun h => h
  sound        := h

theorem trans (h₁ : Safe db db') (h₂ : Safe db' db'') : Safe db db'' where
  modes id t ht := by
    have ⟨t', ht', hm⟩ := h₁.modes id t ht
    have ⟨t'', ht'', hm'⟩ := h₂.modes id t' ht'
    exact ⟨t'', ht'', hm'.trans hm⟩
  assignments       := h₁.assignments.trans Assignment.Follows.trans h₂.assignments
  results id r hr   := h₂.results id r (h₁.results id r hr)
  sound             := h₂.sound

-- Tables that the statement is not about
theorem frame (h : Safe db db') (ht : db''.tasks = db'.tasks) (ha : db''.assignments = db'.assignments)
    (hr : db''.results = db'.results) : Safe db db'' where
  modes       := by
    unfold Database.task?
    rw [ht]
    exact h.modes
  assignments := ha ▸ h.assignments
  results     := by
    unfold Database.result?
    rw [hr]
    exact h.results
  sound       := by
    constructor
    case ids     => exact ha ▸ h.sound.ids
    case tasks   =>
      unfold Database.task?
      rw [ha, ht]
      exact h.sound.tasks
    case settled =>
      unfold Database.originates Database.task? Database.result?
      rw [ha, ht, hr]
      exact h.sound.settled

-- A task keeps its origin.
theorem origin_kept (hm : ∀ id t, db.task? id = some t →
      ∃ t', db'.task? id = some t' ∧ t'.targetMode = t.targetMode) (h : (db.task? a.taskId).isSome)
    (hb : b.taskId = a.taskId) : db'.originates b = db.originates a := by
  have ⟨t, ht⟩ := Option.isSome_iff_exists.mp h
  have ⟨t', ht', he⟩ := hm _ t ht
  unfold Database.originates
  rw [hb, ht, ht', Option.any_some, Option.any_some, he]

-- Rows of tasks that existed
theorem tasks_of_kept (hm : ∀ id t, db.task? id = some t →
      ∃ t', db'.task? id = some t' ∧ t'.targetMode = t.targetMode) (h : (db.task? a.taskId).isSome)
    (hb : b.taskId = a.taskId) : (db'.task? b.taskId).isSome := by
  have ⟨t, ht⟩ := Option.isSome_iff_exists.mp h
  have ⟨t', ht', _⟩ := hm _ t ht
  rw [hb, ht']
  rfl

-- New rows, and rows that had no final result
theorem of_rows (hs : db.Sound) (hm : ∀ id t, db.task? id = some t →
      ∃ t', db'.task? id = some t' ∧ t'.targetMode = t.targetMode)
    (ha : Grown Assignment.Follows db.assignments db'.assignments) (hr : ∀ id r, db.result? id = some r →
      db'.result? id = some r) (ids : (db'.assignments.map (·.id)).Nodup)
    (tasks : ∀ b ∈ db'.assignments, (db'.task? b.taskId).isSome)
    (new : ∀ b ∈ db'.assignments, b.settled → ∃ a ∈ db.assignments, a.settled ∧ a.Follows b) :
    Safe db db' := by
  refine ⟨hm, ha, hr, ids, tasks, ?_⟩
  intro b hb ho hbs
  have ⟨a, ha, has, hf⟩ := new b hb hbs
  have ho' : db.originates a := by
    rwa [origin_kept hm (hs.tasks a ha) hf.taskId] at ho
  have ⟨id, r, hid, hr', hst⟩ := hs.settled a ha ho' has
  have ⟨hs', hi'⟩ := hf.settled has
  exact ⟨id, r, hi'.trans hid, hr id r hr', hst.trans hs'.symm⟩

-- Assignments that do not change
theorem of_tables (hs : db.Sound) (hm : ∀ id t, db.task? id = some t →
      ∃ t', db'.task? id = some t' ∧ t'.targetMode = t.targetMode)
    (ha : db'.assignments = db.assignments) (hr : ∀ id r, db.result? id = some r → db'.result? id = some r) :
    Safe db db' := by
  apply of_rows hs hm (ha ▸ .refl .refl _) hr (ha ▸ hs.ids)
  case tasks => exact fun b hb => tasks_of_kept hm (hs.tasks b (ha ▸ hb)) rfl
  case new   => exact fun b hb hbs => ⟨b, ha ▸ hb, hbs, .refl b⟩

-- Rows that are rewritten in place
theorem of_map {f : Assignment → Assignment} (hs : db.Sound) (hf : ∀ a ∈ db.assignments, a.Follows (f a))
    (hn : ∀ a ∈ db.assignments, ¬a.settled → ¬(f a).settled) :
    Safe db { db with assignments := db.assignments.map f } := by
  apply of_rows hs
  case hm => exact fun _ t ht => ⟨t, ht, rfl⟩
  case ha => exact .of_kept (.map hf)
  case hr => exact fun _ _ h => h
  case ids =>
    rw [Assignment.Follows.ids hf]
    exact hs.ids
  case tasks =>
    intro b hb
    have ⟨a, ha, he⟩ := List.mem_map.mp hb
    subst he
    exact (hf a ha).taskId ▸ hs.tasks a ha
  case new =>
    intro b hb hbs
    have ⟨a, ha, he⟩ := List.mem_map.mp hb
    subst he
    exact ⟨a, ha, by_contra fun h => hn a ha h hbs, hf a ha⟩

-- A status is set on a row that has no final result, and does not make it final.
theorem update {error : Option String} {completed onlyWithoutResult : Bool} (hs : db.Sound)
    (h : ∀ a ∈ db.assignments, a.id = id → (onlyWithoutResult → a.resultId = none) →
      a.resultId = none ∨ ¬a.settled ∧ ¬terminalStatuses.contains status) :
    Safe db (db.updateAssignmentStatus id status now error completed onlyWithoutResult) := by
  apply of_map hs
  case hf =>
    intro a ha
    split
    case isFalse => exact .refl a
    case isTrue hc =>
      refine .of_unsettled rfl rfl ?_
      cases h a ha hc.left hc.right
      case inl h => exact Assignment.not_settled h
      case inr h => exact h.left
  case hn =>
    intro a ha hn
    split
    case isFalse => exact hn
    case isTrue hc =>
      cases h a ha hc.left hc.right
      case inl h => exact Assignment.not_settled h
      case inr h => exact Assignment.not_settled_of_status h.right

theorem insertAssignment (hs : db.Sound) (hn : db.assignment? a.id = none) (ht : (db.task? a.taskId).isSome)
    (ha : ¬a.settled) :
    Safe db { db with assignments := db.assignments ++ [a] } := by
  apply of_rows hs
  case hm => exact fun _ t ht => ⟨t, ht, rfl⟩
  case ha => exact ⟨_, [a], .refl .refl _, rfl⟩
  case hr => exact fun _ _ h => h
  case ids =>
    rw [List.map_append, List.map_singleton, ← List.concat_eq_append]
    apply List.Nodup.concat _ hs.ids
    intro hm
    have ⟨b, hb, he⟩ := List.mem_map.mp hm
    exact List.find?_eq_none.mp hn b hb (by simpa using he)
  case tasks =>
    intro b hb
    cases List.mem_append.mp hb
    case inl hb => exact hs.tasks b hb
    case inr hb =>
      cases List.mem_singleton.mp hb
      exact ht
  case new =>
    intro b hb hbs
    cases List.mem_append.mp hb
    case inl hb => exact ⟨b, hb, hbs, .refl b⟩
    case inr hb =>
      cases List.mem_singleton.mp hb
      exact (ha hbs).elim

theorem insertTask {t : Task} (hs : db.Sound) : Safe db { db with tasks := db.tasks ++ [t] } := by
  refine of_tables hs ?_ rfl fun _ _ h => h
  intro id t' ht
  refine ⟨t', ?_, rfl⟩
  rw [Database.task?, List.find?_append, ← Database.task?, ht]
  rfl

theorem updateTaskStatus {completed : Bool} (hs : db.Sound) :
    Safe db (db.updateTaskStatus id status now completed) := by
  refine of_tables hs ?_ rfl fun _ _ h => h
  intro id' t ht
  refine Rows.Kept.find? (R := fun t t' : Task => t'.id = t.id ∧ t'.targetMode = t.targetMode) ?_ (.map ?_) ht |>.imp
    fun t' h => ⟨h.left, h.right.right⟩
  case refine_1 => exact fun t t' h => by rw [h.left]
  case refine_2 =>
    intro t _
    split
    case isTrue  => exact ⟨rfl, rfl⟩
    case isFalse => exact ⟨rfl, rfl⟩

theorem recomputeTaskStatus (hs : db.Sound) : Safe db (db.recomputeTaskStatus id now) := by
  unfold Database.recomputeTaskStatus
  dsimp only
  split
  case isTrue => exact .refl hs
  split
  case isTrue =>
    split
    case isTrue => exact updateTaskStatus hs
    split
    case isTrue  => exact updateTaskStatus hs
    case isFalse => exact updateTaskStatus hs
  split
  case isTrue  => exact updateTaskStatus hs
  case isFalse => exact updateTaskStatus hs

end Safe

section Receive

variable {d : Delivery} {r : Receipt} {world : World}

theorem Grows.result? (h : Grows db.results db'.results) {r : TaskResult} (hr : db.result? id = some r) :
    db'.result? id = some r :=
  h.find? hr

theorem Safe.of_assigns (hs : db.Sound) (h : Assigns world db d db') : Safe db db' := by
  have ht : Safe db { db with tasks := db'.tasks } := by
    refine of_tables hs ?_ rfl fun _ _ h => h
    exact fun id t ht => ⟨t, h.tasks.find? ht, rfl⟩
  cases h.assignments
  case inl ha => exact ht.frame rfl ha h.results
  case inr ha =>
    have ⟨t, a, _, _, hn, htask, ha⟩ := ha
    have hr : ¬(a.row t.taskId world.now).settled := Assignment.not_settled rfl
    exact ht.trans (insertAssignment (a := a.row t.taskId world.now) ht.sound hn htask hr) |>.frame rfl ha h.results

-- The result is one of a task of this device.
def Delivery.Originates (d : Delivery) (db : Database) : Prop :=
  ∀ r, d.result = some r → ∃ t, db.task? r.taskId = some t ∧ t.targetMode ≠ "inbound"

-- The result of an assignment that has a final one is that one.
theorem Settles.follows (hs : db.Sound) (ho : d.Originates db) (h : Settles world db d db') {r : ResultSeed}
    (hr : d.result = some r) (ha : a ∈ db.assignments) (hid : a.id = r.assignmentId) :
    a.Follows (a.settle r world.now) := by
  refine ⟨rfl, rfl, fun hset => ?_⟩
  have ⟨stored, hst, hown, hn⟩ := h.assignment r hr
  cases hst.symm.trans (Rows.find?_of_nodup hs.ids ha hid)
  have ho : db.originates a := by
    have ⟨t, ht, hmode⟩ := ho r hr
    simp only [Assignment.ownedBy, Bool.and_eq_true, decide_eq_true_eq] at hown
    simp [Database.originates, hown.left.left, ht, hmode]
  have ⟨id, result, hi, hf, hstatus⟩ := hs.settled a ha ho hset
  have hri : id = r.resultId := by
    by_contra hne
    apply hn
    unfold Assignment.settled at hset
    unfold Assignment.settledOtherwise
    rw [hi] at hset ⊢
    simp only [Bool.and_eq_true, Option.any_some, decide_eq_true_eq] at hset ⊢
    exact ⟨hset.left, hset.right, hne⟩
  subst hri
  have hc := h.unchanged r result hr hf
  simp only [resultConflict, Bool.or_eq_true, decide_eq_true_eq, not_or, not_not] at hc
  exact ⟨hc.right.symm.trans hstatus, hi.symm⟩

theorem Safe.of_settles (hs : db.Sound) (ho : d.Originates db) (h : Settles world db d db') : Safe db db' := by
  have hm (id) (t) (ht : db.task? id = some t) : ∃ t', db'.task? id = some t' ∧ t'.targetMode = t.targetMode := by
    unfold Database.task?
    rw [h.tasks]
    exact ⟨t, ht, rfl⟩
  have hres (id) (r) (hr : db.result? id = some r) : db'.result? id = some r := h.results.find? hr
  cases hr : d.result
  case none   => exact of_tables hs hm (h.nothing hr) hres
  case some r =>
    have ha := h.assignments r hr
    have hf (a) (hm : a ∈ db.assignments) :
        a.Follows (if a.id = r.assignmentId then a.settle r world.now else a) := by
      split
      case isTrue hid => exact h.follows hs ho hr hm hid
      case isFalse    => exact .refl a
    constructor
    case modes       => exact hm
    case assignments => exact ha ▸ .of_kept (.map hf)
    case results     => exact hres
    case sound =>
      constructor
      case ids =>
        rw [ha, Database.updateAssignment, Assignment.Follows.ids hf]
        exact hs.ids
      case tasks =>
        intro b hb
        rw [ha] at hb
        have ⟨a, hm, he⟩ := List.mem_map.mp hb
        subst he
        exact tasks_of_kept (a := a) ‹_› (hs.tasks a hm) (hf a hm).taskId
      case settled =>
        intro b hb hbo hbs
        rw [ha] at hb
        have ⟨a, hm, he⟩ := List.mem_map.mp hb
        subst he
        split at hbs
        case isTrue =>
          have ⟨result, hst, he⟩ := h.stored r hr
          rw [if_pos ‹_›]
          exact ⟨_, result, rfl, hst, he⟩
        case isFalse hne =>
          rw [if_neg hne] at hbo ⊢
          rw [origin_kept ‹_› (hs.tasks a hm) rfl] at hbo
          have ⟨id, result, hi, hst, he⟩ := hs.settled a hm hbo hbs
          exact ⟨id, result, hi, hres _ _ hst, he⟩

theorem Safe.of_accepts {host : Host} (hs : db.Sound) (ho : d.Originates db)
    (h : Accepts host world db d r db') : Safe db db' := by
  have ⟨mid, h₁, h₂⟩ := h.effect
  have hmid := of_assigns hs h₁
  have ho' : d.Originates mid := by
    intro r hr
    have ⟨t, ht, hm⟩ := ho r hr
    exact ⟨t, h₁.tasks.find? ht, hm⟩
  exact hmid.trans (of_settles hmid.sound ho' h₂)

end Receive
end Neighbor
