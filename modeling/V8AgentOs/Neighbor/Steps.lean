import V8AgentOs.Lib.Rows
import V8AgentOs.Neighbor.Delivery

namespace Neighbor

open Hoare (Triple)
open Rows (Kept)

variable {α : Type} {host : Host} {w : World} {db db' : Database} {d : Delivery} {t : TaskSeed}
  {a : AssignmentSeed} {r : ResultSeed}

-- What a program makes of a database, if it does not stop
abbrev Does (db : Database) (x : Tx α) (Q : α → Database → Prop) : Prop :=
  Triple (· = db) x Q fun _ _ => True

-- A table to which at most one row was added
def Grows (l l' : List α) : Prop :=
  ∃ new, new.length ≤ 1 ∧ l' = l ++ new

namespace Grows

variable {l l' : List α}

theorem refl : Grows l l :=
  ⟨[], Nat.zero_le _, (List.append_nil l).symm⟩

theorem one {x : α} : Grows l (l ++ [x]) :=
  ⟨[x], Nat.le_refl _, rfl⟩

theorem find? {p : α → Bool} {x : α} (h : Grows l l') (hx : l.find? p = some x) : l'.find? p = some x := by
  have ⟨new, _, hl⟩ := h
  rw [hl, List.find?_append, hx]
  rfl

end Grows

-- The tables that only `receive_message` itself writes are as before.
structure SameInbox (db db' : Database) : Prop where
  links    : db'.links = db.links
  messages : db'.messages = db.messages
  queue    : db'.queue = db.queue

-- A delivery may move one assignment.
def Assignment.Moved (id : String) (a b : Assignment) : Prop :=
  b = a ∨ a.id = id ∧ ∃ status resultId updatedAt completedAt,
    b = { a with status, resultId, updatedAt, completedAt }

-- The effect of a first delivery on tasks, assignments and results: one of each at most
structure Effect (db db' : Database) : Prop where
  tasks       : Grows db.tasks db'.tasks
  assignments : ∃ id mid, Grows db.assignments mid ∧ Kept (Assignment.Moved id) mid db'.assignments
  results     : Grows db.results db'.results

-- The identity of a task, of an assignment or of a result is already used otherwise.
inductive Conflict (db : Database) (d : Delivery) : Prop
  | task {t : TaskSeed} {a : AssignmentSeed} {stored : Task} :
    d.task = some t → d.assignment = some a → db.task? t.taskId = some stored →
    taskConflict stored t a → Conflict db d
  | assignment {t : TaskSeed} {a : AssignmentSeed} {stored : Assignment} :
    d.task = some t → d.assignment = some a → db.assignment? a.assignmentId = some stored →
    assignmentConflict stored t a → Conflict db d
  | unknown {r : ResultSeed} :
    d.result = some r → d.assignment = none → db.assignment? r.assignmentId = none → Conflict db d
  | owner {r : ResultSeed} {stored : Assignment} :
    d.result = some r → db.assignment? r.assignmentId = some stored → ¬stored.ownedBy r → Conflict db d
  | settled {r : ResultSeed} {stored : Assignment} :
    d.result = some r → db.assignment? r.assignmentId = some stored → stored.settledOtherwise r →
    Conflict db d
  | result {r : ResultSeed} {stored : TaskResult} :
    d.result = some r → db.result? r.resultId = some stored → resultConflict stored r → Conflict db d

theorem fetch_does {find : Database → Option α} :
    Does db (fetch find) fun x t => find db = some x ∧ t = db := by
  apply Triple.read
  split
  case h_1 hx => exact .done ⟨hx, rfl⟩
  case h_2    => exact .stop

section Insert

theorem insertMessage_does {m : Message} :
    Does db (insertMessage m) fun _ t =>
      db.message? m.id = none ∧ t = { db with messages := db.messages ++ [m] } := by
  apply Triple.read
  split
  case isTrue    => exact .stop
  case isFalse h =>
    refine .modify fun _ _ => ⟨?_, rfl⟩
    have h := fun hm => h (.inl hm)
    simp only [List.any_eq_true, decide_eq_true_eq] at h
    exact List.find?_eq_none.mpr fun m' hm he => h ⟨m', hm, .inl (by simpa using he)⟩

theorem insertWakeItem_does {q : WakeItem} :
    Does db (insertWakeItem q) fun _ t =>
      db.queue.find? (·.id = q.id) = none ∧ t = { db with queue := db.queue ++ [q] } := by
  apply Triple.read
  split
  case isTrue    => exact .stop
  case isFalse h =>
    exact .modify fun _ _ => ⟨Rows.find?_none_of_any fun hm => h (.inl hm), rfl⟩

theorem insertTask_exact {t : Task} :
    Triple (· = db) (insertTask t) (fun _ u => u = { db with tasks := db.tasks ++ [t] }) fun _ u => u = db := by
  apply Triple.read
  split
  case isTrue  => exact .throw fun _ h => h
  case isFalse => exact .modify fun _ _ => rfl

theorem insertTask_does {t : Task} :
    Does db (insertTask t) fun _ u => u = { db with tasks := db.tasks ++ [t] } :=
  insertTask_exact.conseq (fun _ h => h) (fun _ _ h => h) fun _ _ _ => trivial

theorem insertAssignment_exact {a : Assignment} :
    Triple (· = db) (insertAssignment a)
      (fun _ t => db.assignment? a.id = none ∧ (db.task? a.taskId).isSome ∧
        t = { db with assignments := db.assignments ++ [a] })
      fun _ t => t = db := by
  apply Triple.read
  split
  case isTrue    => exact .throw fun _ h => h
  case isFalse h =>
    simp only [not_or, Bool.not_eq_true', Bool.not_eq_false] at h
    exact .modify fun _ _ => ⟨Rows.find?_none_of_any h.left, h.right.left, rfl⟩

theorem insertAssignment_does {a : Assignment} :
    Does db (insertAssignment a) fun _ t =>
      db.assignment? a.id = none ∧ (db.task? a.taskId).isSome ∧
        t = { db with assignments := db.assignments ++ [a] } :=
  insertAssignment_exact.conseq (fun _ h => h) (fun _ _ h => h) fun _ _ _ => trivial

theorem insertResult_does {r : TaskResult} :
    Does db (insertResult r) fun _ t =>
      db.result? r.id = none ∧ t = { db with results := db.results ++ [r] } := by
  apply Triple.read
  split
  case isTrue    => exact .stop
  case isFalse h =>
    exact .modify fun _ _ => ⟨Rows.find?_none_of_any fun hm => h (.inl hm), rfl⟩

end Insert

theorem reuse_does {ρ : Type} {found : Option ρ} {conflict : ρ → Bool} {detail : String} {insert : Tx Unit}
    {P : Database → Prop} (hi : Does db insert fun _ => P) :
    Does db (reuse found conflict detail insert) fun _ u =>
      (∃ stored, found = some stored ∧ ¬conflict stored ∧ u = db) ∨ found = none ∧ P u := by
  cases found
  case none        => exact hi.conseq (fun _ h => h) (fun _ _ h => .inr ⟨rfl, h⟩) fun _ _ h => h
  case some stored => exact Triple.ite (fun _ => .stop) fun hc => .done (.inl ⟨stored, rfl, hc, rfl⟩)

theorem storeTaskRow_does :
    Does db (storeTaskRow w t a) fun _ u =>
      (∀ stored, db.task? t.taskId = some stored → ¬taskConflict stored t a) ∧
      ∃ tasks, Grows db.tasks tasks ∧ u = { db with tasks } := by
  apply Triple.read
  refine (reuse_does insertTask_does).conseq (fun _ h => h) (fun _ u hu => ?_) fun _ _ h => h
  cases hu
  case inl hu =>
    have ⟨stored, hs, hc, hu⟩ := hu
    exact ⟨by simp [hs, hc], _, .refl, hu⟩
  case inr hu => exact ⟨by simp [hu.left], _, .one, hu.right⟩

theorem storeAssignmentRow_does :
    Does db (storeAssignmentRow w t a) fun _ u =>
      (∀ stored, db.assignment? a.assignmentId = some stored → ¬assignmentConflict stored t a) ∧
      ∃ assignments, (assignments = db.assignments ∨ db.assignment? a.assignmentId = none ∧
        (db.task? t.taskId).isSome ∧ assignments = db.assignments ++ [a.row t.taskId w.now]) ∧
        u = { db with assignments } := by
  apply Triple.read
  refine (reuse_does insertAssignment_does).conseq (fun _ h => h) (fun _ u hu => ?_) fun _ _ h => h
  cases hu
  case inl hu =>
    have ⟨stored, hs, hc, hu⟩ := hu
    exact ⟨by simp [hs, hc], _, .inl rfl, hu⟩
  case inr hu =>
    have ⟨hn, hn', ht, hu⟩ := hu
    exact ⟨by simp [hn], _, .inr ⟨hn, ht, rfl⟩, hu⟩

theorem storeAssignment_does :
    Does db (storeAssignment w t a) fun _ u =>
      (∀ stored, db.task? t.taskId = some stored → ¬taskConflict stored t a) ∧
      (∀ stored, db.assignment? a.assignmentId = some stored → ¬assignmentConflict stored t a) ∧
      ∃ tasks assignments, Grows db.tasks tasks ∧ (assignments = db.assignments ∨
        db.assignment? a.assignmentId = none ∧ (tasks.find? (·.id = t.taskId)).isSome ∧
        assignments = db.assignments ++ [a.row t.taskId w.now]) ∧ u = { db with tasks, assignments } := by
  apply Triple.chain storeTaskRow_does
  intro _ u hu
  have ⟨ht, tasks, hg, hu⟩ := hu
  subst hu
  apply Triple.chain storeAssignmentRow_does
  intro _ u hu
  have ⟨ha, assignments, hg', hu⟩ := hu
  subst hu
  apply Triple.chain fetch_does
  intro _ u hu
  have hu := hu.right
  subst hu
  apply Triple.chain fetch_does
  intro _ u hu
  have hu := hu.right
  subst hu
  exact .done ⟨ht, ha, tasks, assignments, hg, hg', rfl⟩

theorem storeResultRow_does :
    Does db (storeResultRow w r) fun _ u =>
      (∀ stored, db.result? r.resultId = some stored → ¬resultConflict stored r) ∧
      (∃ result, u.result? r.resultId = some result ∧ result.status = r.status) ∧
      ∃ results, Grows db.results results ∧ u = { db with results } := by
  apply Triple.read
  refine (reuse_does insertResult_does).conseq (fun _ h => h) (fun _ u hu => ?_) fun _ _ h => h
  cases hu
  case inl hu =>
    have ⟨stored, hs, hc, hu⟩ := hu
    subst hu
    have hc' : stored.status = r.status := by
      simp only [resultConflict, Bool.or_eq_true, decide_eq_true_eq, not_or, not_not] at hc
      exact hc.right
    exact ⟨by simp [hs, hc], ⟨stored, hs, hc'⟩, _, .refl, rfl⟩
  case inr hu =>
    have ⟨hn, hn', hu⟩ := hu
    subst hu
    exact ⟨by simp [hn], ⟨_, Rows.find?_concat hn' (decide_eq_true rfl), rfl⟩, _, .one, rfl⟩

-- What a result that is stored says about the database before
structure Stores (w : World) (db : Database) (r : ResultSeed) (result : TaskResult) (db' : Database) :
    Prop where
  assignment : ∃ stored, db.assignment? r.assignmentId = some stored ∧ stored.ownedBy r ∧
    ¬stored.settledOtherwise r
  unchanged  : ∀ stored, db.result? r.resultId = some stored → ¬resultConflict stored r
  found      : db'.result? r.resultId = some result
  status     : result.status = r.status
  results    : ∃ results, Grows db.results results ∧
    db' = ({ db with results } : Database).updateAssignment r.assignmentId (·.settle r w.now)

theorem storeResult_does : Does db (storeResult w r) (Stores w db r) := by
  apply Triple.read
  split
  case h_1 => exact .stop
  case h_2 stored hs =>
    apply Triple.ite (fun _ => .stop) fun ho => ?_
    apply Triple.ite (fun _ => .stop) fun hn => ?_
    apply Triple.chain storeResultRow_does
    intro _ u hu
    have ⟨hr, ⟨result, hf, hst⟩, results, hg, hu⟩ := hu
    subst hu
    apply Triple.update
    refine fetch_does.conseq (fun _ h => h) (fun result' u hu => ?_) fun _ _ h => h
    have ⟨hf', hu⟩ := hu
    subst hu
    cases hf.symm.trans hf'
    exact ⟨⟨stored, hs, by simpa using ho, hn⟩, hr, hf, hst, results, hg, rfl⟩

-- The effect of a task and its assignment, if there are any
structure Assigns (w : World) (db : Database) (d : Delivery) (mid : Database) : Prop where
  results     : mid.results = db.results
  tasks       : Grows db.tasks mid.tasks
  assignments : mid.assignments = db.assignments ∨ ∃ t a, d.task = some t ∧ d.assignment = some a ∧
    db.assignment? a.assignmentId = none ∧ (mid.task? t.taskId).isSome ∧
    mid.assignments = db.assignments ++ [a.row t.taskId w.now]
  task        : ∀ t a stored, d.task = some t → d.assignment = some a → db.task? t.taskId = some stored →
    ¬taskConflict stored t a
  assignment  : ∀ t a stored, d.task = some t → d.assignment = some a →
    db.assignment? a.assignmentId = some stored → ¬assignmentConflict stored t a

theorem Assigns.grows {mid : Database} (h : Assigns w db d mid) : Grows db.assignments mid.assignments := by
  cases h.assignments
  case inl h => exact h ▸ .refl
  case inr h =>
    have ⟨_, _, _, _, _, _, h⟩ := h
    exact h ▸ .one

theorem storeTaskSeeds_does :
    Does db (storeTaskSeeds w d) fun _ mid => SameInbox db mid ∧ Assigns w db d mid := by
  unfold storeTaskSeeds
  split
  case h_1 t a ht ha =>
    apply Triple.chain storeAssignment_does
    intro _ u hu
    have ⟨hc, hc', tasks, assignments, hg, hg', hu⟩ := hu
    subst hu
    refine .done ⟨⟨rfl, rfl, rfl⟩, rfl, hg, ?_, ?_, ?_⟩
    case refine_1 =>
      cases hg'
      case inl hg' => exact .inl hg'
      case inr hg' => exact .inr ⟨t, a, ht, ha, hg'⟩
    case refine_2 =>
      intro t' a' stored ht' ha' hs
      cases ht.symm.trans ht'
      cases ha.symm.trans ha'
      exact hc stored hs
    case refine_3 =>
      intro t' a' stored ht' ha' hs
      cases ht.symm.trans ht'
      cases ha.symm.trans ha'
      exact hc' stored hs
  case h_2 hn =>
    refine .done ⟨⟨rfl, rfl, rfl⟩, rfl, .refl, .inl rfl, ?_, ?_⟩
    case refine_1 => exact fun t a _ ht ha => (hn t a ht ha).elim
    case refine_2 => exact fun t a _ ht ha => (hn t a ht ha).elim

-- The effect of a result, if there is one
structure Settles (w : World) (db : Database) (d : Delivery) (db' : Database) : Prop where
  tasks       : db'.tasks = db.tasks
  assignments : ∀ r, d.result = some r →
    db'.assignments = (db.updateAssignment r.assignmentId (·.settle r w.now)).assignments
  nothing     : d.result = none → db'.assignments = db.assignments
  results     : Grows db.results db'.results
  assignment  : ∀ r, d.result = some r → ∃ stored, db.assignment? r.assignmentId = some stored ∧
    stored.ownedBy r ∧ ¬stored.settledOtherwise r
  unchanged   : ∀ r stored, d.result = some r → db.result? r.resultId = some stored → ¬resultConflict stored r
  stored      : ∀ r, d.result = some r → ∃ result, db'.result? r.resultId = some result ∧
    result.status = r.status

theorem Stores.settles {result : TaskResult} (hr : d.result = some r) (h : Stores w db r result db') :
    Settles w db d db' := by
  have ⟨results, hg, hu⟩ := h.results
  subst hu
  constructor
  case tasks       => rfl
  case results     => exact hg
  case nothing     => simp [hr]
  case assignments =>
    intro r' hr'
    cases hr.symm.trans hr'
    rfl
  case assignment =>
    intro r' hr'
    cases hr.symm.trans hr'
    exact h.assignment
  case unchanged =>
    intro r' stored hr' hs
    cases hr.symm.trans hr'
    exact h.unchanged stored hs
  case stored =>
    intro r' hr'
    cases hr.symm.trans hr'
    exact ⟨result, h.found, h.status⟩

theorem Settles.none (hr : d.result = none) : Settles w db d db := by
  constructor
  case tasks       => rfl
  case results     => exact .refl
  case nothing     => exact fun _ => rfl
  case assignments => simp [hr]
  case assignment  => simp [hr]
  case unchanged   => simp [hr]
  case stored      => simp [hr]

theorem Settles.moved (h : Settles w db d db') :
    ∃ id, Kept (Assignment.Moved id) db.assignments db'.assignments := by
  cases hr : d.result
  case none   => exact ⟨"", h.nothing hr ▸ .refl (fun _ => .inl rfl) _⟩
  case some r =>
    rw [h.assignments r hr]
    refine ⟨r.assignmentId, .map fun a _ => ?_⟩
    split
    case isTrue ha => exact .inr ⟨ha, _, _, _, _, rfl⟩
    case isFalse   => exact .inl rfl

theorem storeResultSeed_does {wake : Option Wake} :
    Does db (storeResultSeed w d wake) fun _ t => SameInbox db t ∧ Settles w db d t := by
  unfold storeResultSeed
  split
  case h_1 r hr =>
    apply Triple.chain storeResult_does
    intro result t ht
    have ⟨results, _, hu⟩ := ht.results
    exact .done ⟨hu ▸ ⟨rfl, rfl, rfl⟩, ht.settles hr⟩
  case h_2 hr => exact .done ⟨⟨rfl, rfl, rfl⟩, .none hr⟩

theorem effect_of_settles {mid : Database} (h₁ : Assigns w db d mid) (h₂ : Settles w mid d db') :
    Effect db db' where
  tasks       := h₂.tasks ▸ h₁.tasks
  assignments := h₂.moved.elim fun id h => ⟨id, _, h₁.grows, h⟩
  results     := h₁.results ▸ h₂.results

-- A delivery whose effect is carried out does not conflict with what is stored.
theorem not_conflict {mid : Database} (h₁ : Assigns w db d mid) (h₂ : Settles w mid d db') : ¬Conflict db d := by
  intro h
  cases h
  case task ht ha hs hc       => exact h₁.task _ _ _ ht ha hs hc
  case assignment ht ha hs hc => exact h₁.assignment _ _ _ ht ha hs hc
  case unknown r hr ha hn =>
    have ⟨stored, hs, _⟩ := h₂.assignment r hr
    cases h₁.assignments
    case inl h =>
      rw [Database.assignment?, h] at hs
      cases hn.symm.trans hs
    case inr h =>
      have ⟨_, _, _, ha', _⟩ := h
      cases ha.symm.trans ha'
  case owner r stored hr hs ho =>
    have ⟨stored', hs', ho', _⟩ := h₂.assignment r hr
    cases (h₁.grows.find? hs).symm.trans hs'
    exact ho ho'
  case settled r stored hr hs hc =>
    have ⟨stored', hs', _, hn⟩ := h₂.assignment r hr
    cases (h₁.grows.find? hs).symm.trans hs'
    exact hn hc
  case result r stored hr hs hc =>
    rw [Database.result?, ← h₁.results] at hs
    exact h₂.unchanged r stored hr hs hc

-- The entry of the wake queue, and that of a message without one
theorem storeWake_does {wake : Option Wake} {stored : Message} :
    Does db (storeWake host w d wake stored) fun q t =>
      q = wake.map (d.wakeItem host w · stored) ∧ t = { db with queue := db.queue ++ q.toList } := by
  unfold storeWake
  split
  case h_1 wake =>
    apply Triple.chain insertWakeItem_does
    intro _ t ht
    have ⟨hn, ht⟩ := ht
    subst ht
    apply Triple.chain fetch_does
    intro q t hf
    have ⟨hq, ht⟩ := hf
    subst ht
    cases (Rows.find?_concat hn (decide_eq_true rfl)).symm.trans hq
    exact .done ⟨rfl, rfl⟩
  case h_2 => exact .done ⟨rfl, by simp⟩

-- A first delivery is taken in.
structure Accepts (host : Host) (w : World) (db : Database) (d : Delivery) (r : Receipt) (db' : Database) :
    Prop where
  first    : db.message? (host.receiptId d.key) = none
  conflict : ¬Conflict db d
  effect   : ∃ mid, Assigns w db d mid ∧ Settles w mid d db'
  message  : r.message = d.message host w (db.nextSeq d.link.id)
  messages : db'.messages = db.messages ++ [r.message]
  wake     : ∀ q ∈ r.queue, q.id = host.queueId d.key ∧ q.messageId = host.receiptId d.key
  queue    : db'.queue = db.queue ++ r.queue.toList
  new      : r.duplicate = false

-- A delivery of a message that is stored already has no effect.
structure Repeats (host : Host) (db : Database) (d : Delivery) (r : Receipt) (db' : Database) : Prop where
  found     : db.message? (host.receiptId d.key) = some r.message
  same      : (r.message.metadata.get "payloadDigest").eq (.str (host.fingerprint d))
  queue     : r.queue = db.wakeOf? (host.receiptId d.key)
  duplicate : r.duplicate = true
  unchanged : db' = db

theorem receiveMessage_does :
    Triple (· = db) (receiveMessage host w d)
      (fun r t => Repeats host db d r t ∨ Accepts host w db d r t) fun _ t => t = db := by
  refine (Triple.atomically (E := fun _ _ => True) ?_).conseq (fun _ h => h) (fun _ _ h => h) fun _ _ h => h.left
  apply Triple.read
  split
  case h_1 stored hs =>
    apply Triple.ite (fun _ => .stop) fun hc => ?_
    apply Triple.read
    exact .done (.inl ⟨hs, by simpa using hc, rfl, rfl, rfl⟩)
  case h_2 hn =>
    apply Triple.chain storeTaskSeeds_does
    intro wake mid hmid
    have ⟨hb₁, h₁⟩ := hmid
    apply Triple.chain storeResultSeed_does
    intro wake u hu
    have ⟨hb₂, h₂⟩ := hu
    apply Triple.read
    apply Triple.chain insertMessage_does
    intro _ t ht
    have ⟨hm, ht⟩ := ht
    subst ht
    apply Triple.chain fetch_does
    intro stored t hf
    have ⟨hs, ht⟩ := hf
    subst ht
    cases (Rows.find?_concat hm (decide_eq_true rfl)).symm.trans hs
    apply Triple.chain storeWake_does
    intro q t hf
    have ⟨hq, ht⟩ := hf
    subst ht
    apply Triple.update
    refine .done (.inr ?_)
    have hms : u.messages = db.messages := hb₂.messages.trans hb₁.messages
    have hqs : u.queue = db.queue := hb₂.queue.trans hb₁.queue
    constructor
    case first    => exact hn
    case conflict => exact not_conflict h₁ h₂
    case effect   =>
      exact ⟨mid, h₁, h₂.tasks, h₂.assignments, h₂.nothing, h₂.results, h₂.assignment, h₂.unchanged, h₂.stored⟩
    case message  => simp [Database.nextSeq, hms]
    case messages => simp [Database.touchLink, hms]
    case wake =>
      intro i hi
      rw [hq] at hi
      have ⟨wake, _, hi⟩ := Option.mem_map.mp hi
      subst hi
      exact ⟨rfl, rfl⟩
    case queue    => simp [Database.touchLink, hqs]
    case new      => rfl

theorem receiveMessage_same {m : Message} (hm : db.message? (host.receiptId d.key) = some m)
    (hd : (m.metadata.get "payloadDigest").eq (.str (host.fingerprint d))) :
    Triple (· = db) (receiveMessage host w d)
      (fun r t => r = ⟨m, db.wakeOf? (host.receiptId d.key), true⟩ ∧ t = db) fun _ _ => False := by
  refine (Triple.atomically (E := fun _ _ => False) ?_).conseq (fun _ h => h) (fun _ _ h => h)
    fun _ _ h => h.right.elim fun _ h => h
  apply Triple.read
  rw [hm]
  refine Triple.ite (fun hc => ?_) fun _ => .read (.done ⟨rfl, rfl⟩)
  simp [hd] at hc

end Neighbor
