import V8AgentOs.Lib.Transition
import V8AgentOs.Neighbor.Steps

namespace Neighbor

open Rows (Kept Grown)

-- A call of `receive_message` with its answer, or anything else that the Engine does
inductive Event
  | deliver (w : World) (d : Delivery) (answer : Except Error Receipt)
  | elsewhere

def deliver (host : Host) (w : World) (d : Delivery) (db : Database) : Except Error Receipt × Database :=
  match receiveMessage host w d db with
  | .ok r t    => (.ok r, t)
  | .error e t => (.error e, t)

-- Other code stores messages of its own and moves the entries of the wake queue. It does not forget
-- a message, as the removal of a link would, and only `receive_message` adds to the wake queue.
structure Elsewhere (db db' : Database) : Prop where
  messages : Grown (fun m m' : Message => m'.id = m.id ∧ m'.metadata = m.metadata) db.messages db'.messages
  unique   : (db'.messages.map (·.id)).Nodup
  queue    : Kept (fun q q' : WakeItem => q'.messageId = q.messageId) db.queue db'.queue

def system (host : Host) : Transition Database Event where
  init db := (db.messages.map (·.id)).Nodup ∧ db.queue = []
  step db e db' :=
    match e with
    | .deliver w d answer => deliver host w d db = (answer, db')
    | .elsewhere          => Elsewhere db db'

-- The delivery is the one that was taken in for its key.
def Event.accepts (k : Key) : Event → Bool
  | .deliver _ d (.ok r) => d.key = k && !r.duplicate
  | _                    => false

-- A message was taken in with this content.
inductive Event.Took (k : Key) (content : String) : Event → Prop
  | intro {w d r} : d.key = k → d.content = content → r.duplicate = false →
    Event.Took k content (.deliver w d (.ok r))

variable {host : Host} {w : World} {db db' : Database} {d : Delivery} {r : Receipt} {e : Event}
  {es : List Event} {k : Key} {content : String} {answer : Except Error Receipt} {err : Error}

theorem deliver_ok (h : deliver host w d db = (.ok r, db')) :
    Repeats host db d r db' ∨ Accepts host w db d r db' := by
  unfold deliver at h
  split at h
  case h_1 hr =>
    cases h
    exact receiveMessage_does.ok rfl hr
  case h_2 => cases h

theorem deliver_error (h : deliver host w d db = (.error err, db')) : db' = db := by
  unfold deliver at h
  split at h
  case h_1 => cases h
  case h_2 hr =>
    cases h
    exact receiveMessage_does.error rfl hr

-- What is known of the inbox after the events so far
structure Inv (host : Host) (es : List Event) (db : Database) : Prop where
  ids    : (db.messages.map (·.id)).Nodup
  wakes  : (db.queue.map (·.messageId)).Nodup
  stored : ∀ q ∈ db.queue, ∃ m ∈ db.messages, m.id = q.messageId
  took   : ∀ e ∈ es, ∀ k content, e.Took k content → ∃ m ∈ db.messages, m.id = host.receiptId k ∧
    m.metadata.get "payloadDigest" = .str (host.sha256 content)
  once   : ∀ k, (es.filter (·.accepts k)).length ≤ 1

namespace Event

theorem took_of_accepts (h : e.accepts k) : ∃ content, e.Took k content := by
  cases e
  case elsewhere => cases h
  case deliver w d answer =>
    cases answer
    case error => cases h
    case ok r  =>
      simp only [accepts, Bool.and_eq_true, decide_eq_true_eq, Bool.not_eq_true'] at h
      exact ⟨_, .intro h.left rfl h.right⟩

theorem Took.accepts (h : e.Took k content) : e.accepts k := by
  cases h
  case intro hk _ hd => simp [Event.accepts, hk, hd]

end Event

namespace Inv

theorem not_accepted (h : Inv host es db) (hn : db.message? (host.receiptId k) = none) :
    es.filter (·.accepts k) = [] := by
  apply List.filter_eq_nil_iff.mpr
  intro e he ha
  have ⟨content, ht⟩ := Event.took_of_accepts ha
  have ⟨m, hm, hid, _⟩ := h.took e he k content ht
  exact List.find?_eq_none.mp hn m hm (by simpa using hid)

-- What an event has to do for the invariant to hold after it
theorem extend (h : Inv host es db) (ids : (db'.messages.map (·.id)).Nodup)
    (wakes : (db'.queue.map (·.messageId)).Nodup)
    (stored : ∀ q ∈ db'.queue, ∃ m ∈ db'.messages, m.id = q.messageId)
    (kept : ∀ m ∈ db.messages, ∃ m' ∈ db'.messages, m'.id = m.id ∧ m'.metadata = m.metadata)
    (took : ∀ k content, e.Took k content → db.message? (host.receiptId k) = none ∧
      ∃ m ∈ db'.messages, m.id = host.receiptId k ∧
        m.metadata.get "payloadDigest" = .str (host.sha256 content)) :
    Inv host (es ++ [e]) db' where
  ids    := ids
  wakes  := wakes
  stored := stored
  took   := by
    intro e' he' k content ht
    cases List.mem_append.mp he'
    case inl he' =>
      have ⟨m, hm, hid, hd⟩ := h.took e' he' k content ht
      have ⟨m', hm', hid', hd'⟩ := kept m hm
      exact ⟨m', hm', hid'.trans hid, hd' ▸ hd⟩
    case inr he' =>
      cases List.mem_singleton.mp he'
      exact (took k content ht).right
  once k := by
    rw [List.filter_append]
    cases ha : e.accepts k
    case false => simpa [ha] using h.once k
    case true  =>
      have ⟨content, ht⟩ := Event.took_of_accepts ha
      simp [not_accepted h (took k content ht).left, ha]

-- An event that changes nothing
theorem idle (h : Inv host es db) (he : ∀ k, ¬e.accepts k) : Inv host (es ++ [e]) db := by
  apply h.extend h.ids h.wakes h.stored
  case kept => exact fun m hm => ⟨m, hm, rfl, rfl⟩
  case took => exact fun k content ht => (he k ht.accepts).elim

theorem elsewhere (h : Inv host es db) (he : Elsewhere db db') : Inv host (es ++ [.elsewhere]) db' := by
  have kept (m) (hm : m ∈ db.messages) : ∃ m' ∈ db'.messages, m'.id = m.id ∧ m'.metadata = m.metadata :=
    he.messages.mem hm
  apply h.extend he.unique
  case kept => exact kept
  case took =>
    intro k content ht
    cases ht
  case wakes =>
    rw [he.queue.column (fun _ _ h => h)]
    exact h.wakes
  case stored =>
    intro q' hq'
    have ⟨q, hq, hqq⟩ := he.queue.mem_left hq'
    have ⟨m, hm, hid⟩ := h.stored q hq
    have ⟨m', hm', hid', _⟩ := kept m hm
    exact ⟨m', hm', (hid'.trans hid).trans hqq.symm⟩

theorem accept (h : Inv host es db) (ha : Accepts host w db d r db') :
    Inv host (es ++ [.deliver w d (.ok r)]) db' := by
  have hid : r.message.id = host.receiptId d.key := by rw [ha.message]; rfl
  have hnew (m) (hm : m ∈ db.messages) : m.id ≠ host.receiptId d.key := by
    intro he
    exact List.find?_eq_none.mp ha.first m hm (by simpa using he)
  have hmem : r.message ∈ db'.messages := by rw [ha.messages]; exact List.mem_concat_self
  have hkept (m) (hm : m ∈ db.messages) : m ∈ db'.messages := by
    rw [ha.messages]
    exact List.mem_append_left _ hm
  apply h.extend
  case kept => exact fun m hm => ⟨m, hkept m hm, rfl, rfl⟩
  case ids =>
    rw [ha.messages, List.map_append, List.map_singleton, hid, ← List.concat_eq_append]
    apply List.Nodup.concat _ h.ids
    intro hm
    have ⟨m, hm, he⟩ := List.mem_map.mp hm
    exact hnew m hm he
  case wakes =>
    rw [ha.queue]
    cases hq : r.queue
    case none   => simpa using h.wakes
    case some i =>
      rw [Option.toList_some, List.map_append, List.map_singleton, (ha.wake i hq).right,
        ← List.concat_eq_append]
      apply List.Nodup.concat _ h.wakes
      intro hm
      have ⟨q, hq, he⟩ := List.mem_map.mp hm
      have ⟨m, hm, hmq⟩ := h.stored q hq
      exact hnew m hm (hmq.trans he)
  case stored =>
    intro q hq
    rw [ha.queue] at hq
    cases List.mem_append.mp hq
    case inl hq =>
      have ⟨m, hm, he⟩ := h.stored q hq
      exact ⟨m, hkept m hm, he⟩
    case inr hq => exact ⟨_, hmem, hid.trans (ha.wake q (by simpa using hq)).right.symm⟩
  case took =>
    intro k content ht
    cases ht
    case intro hc hk hd =>
      subst hc hk
      refine ⟨ha.first, r.message, hmem, hid, ?_⟩
      rw [ha.message]
      exact Python.Dict.get_set_self

theorem step (h : Inv host es db) (hs : (system host).step db e db') : Inv host (es ++ [e]) db' := by
  cases e
  case elsewhere => exact h.elsewhere hs
  case deliver w d answer =>
    cases answer
    case error =>
      cases deliver_error hs
      exact h.idle fun k => Bool.false_ne_true
    case ok r =>
      cases deliver_ok hs
      case inr ha => exact h.accept ha
      case inl hr =>
        cases hr.unchanged
        exact h.idle fun k => by simp [Event.accepts, hr.duplicate]

theorem run {db₀ : Database} (h₀ : (system host).init db₀) (hr : (system host).Run db₀ es db) :
    Inv host es db := by
  have h : Inv host [] db₀ := by
    constructor
    case ids    => exact h₀.left
    case wakes  => simp [h₀.right]
    case stored => simp [h₀.right]
    case took   => simp
    case once   => simp
  simpa using hr.history (fun es s e t => step) h

-- The message that a delivery of this content has stored
theorem taken (h : Inv host es db) (he : e ∈ es) (ht : e.Took k content) :
    ∃ m, db.message? (host.receiptId k) = some m ∧
      m.metadata.get "payloadDigest" = .str (host.sha256 content) := by
  have ⟨m, hm, hid, hd⟩ := h.took e he k content ht
  exact ⟨m, Rows.find?_of_nodup h.ids hm hid, hd⟩

end Inv

-- The inbox after the events so far, and what it does with any further delivery
structure Inbox (host : Host) (es : List Event) (db : Database) : Prop where
  message   : ∀ k, (db.messages.filter (·.id = host.receiptId k)).length ≤ 1
  wake      : ∀ k, (db.queue.filter (·.messageId = host.receiptId k)).length ≤ 1
  effect    : ∀ k, (es.filter (·.accepts k)).length ≤ 1
  accepted  : ∀ w d r db', deliver host w d db = (.ok r, db') → r.duplicate = false → Effect db db'
  duplicate : ∀ w d r db', deliver host w d db = (.ok r, db') → r.duplicate → db' = db
  refused   : ∀ w d err db', deliver host w d db = (.error err, db') → db' = db
  same      : ∀ w d, (∃ e ∈ es, e.Took d.key d.content) → ∃ m, db.message? (host.receiptId d.key) = some m ∧
    deliver host w d db = (.ok ⟨m, db.wakeOf? (host.receiptId d.key), true⟩, db)
  different : ∀ w d content, (∃ e ∈ es, e.Took d.key content) → content ≠ d.content →
    (host.sha256 content = host.sha256 d.content → content = d.content) →
    ∃ err, deliver host w d db = (.error err, db)
  conflict  : ∀ w d, db.message? (host.receiptId d.key) = none → Conflict db d →
    ∃ err, deliver host w d db = (.error err, db)

theorem deliver_refused (h : ∀ r db', deliver host w d db ≠ (.ok r, db')) :
    ∃ err, deliver host w d db = (.error err, db) := by
  cases hd : deliver host w d db
  case mk answer t =>
    cases answer
    case ok r      => exact (h r t hd).elim
    case error err => exact ⟨err, by rw [deliver_error hd]⟩

theorem deliver_same {m : Message} (hm : db.message? (host.receiptId d.key) = some m)
    (hd : (m.metadata.get "payloadDigest").eq (.str (host.fingerprint d))) :
    deliver host w d db = (.ok ⟨m, db.wakeOf? (host.receiptId d.key), true⟩, db) := by
  unfold deliver
  cases hx : receiveMessage host w d db
  case ok r t =>
    have ⟨hr, ht⟩ := (receiveMessage_same hm hd).ok rfl hx
    rw [hr, ht]
  case error => exact ((receiveMessage_same hm hd).error rfl hx).elim

theorem deliver_different {m : Message} (hm : db.message? (host.receiptId d.key) = some m)
    (hd : ¬(m.metadata.get "payloadDigest").eq (.str (host.fingerprint d))) :
    ∃ err, deliver host w d db = (.error err, db) := by
  apply deliver_refused
  intro r db' h
  cases deliver_ok h
  case inl hr =>
    cases hm.symm.trans hr.found
    exact hd hr.same
  case inr ha => cases hm.symm.trans ha.first

theorem inbox_of_inv (h : Inv host es db) : Inbox host es db := by
  constructor
  case message => exact fun k => Rows.length_filter_key h.ids
  case wake    => exact fun k => Rows.length_filter_key h.wakes
  case effect  => exact h.once
  case accepted =>
    intro w d r db' hd hn
    cases deliver_ok hd
    case inl hr => cases hn.symm.trans hr.duplicate
    case inr ha =>
      have ⟨mid, h₁, h₂⟩ := ha.effect
      exact effect_of_settles h₁ h₂
  case duplicate =>
    intro w d r db' hd hn
    cases deliver_ok hd
    case inl hr => exact hr.unchanged
    case inr ha => cases hn.symm.trans ha.new
  case refused => exact fun w d err db' hd => deliver_error hd
  case same =>
    intro w d he
    have ⟨e, he, ht⟩ := he
    have ⟨m, hm, hd⟩ := h.taken he ht
    refine ⟨m, hm, deliver_same hm ?_⟩
    rw [hd]
    exact beq_self_eq_true _
  case different =>
    intro w d content he hne hc
    have ⟨e, he, ht⟩ := he
    have ⟨m, hm, hd⟩ := h.taken he ht
    apply deliver_different hm
    rw [hd]
    intro heq
    simp only [Python.Json.eq, beq_iff_eq] at heq
    exact hne (hc heq)
  case conflict =>
    intro w d hn hc
    apply deliver_refused
    intro r db' hd
    cases deliver_ok hd
    case inl hr => cases hn.symm.trans hr.found
    case inr ha => exact ha.conflict hc

-- The calls of `receive_message` one after the other
def deliverAll (host : Host) (db : Database) : List (World × Delivery) → List Event × Database
  | []          => ([], db)
  | (w, d) :: l =>
    let (answer, db') := deliver host w d db
    let (es, db'') := deliverAll host db' l
    (.deliver w d answer :: es, db'')

theorem deliverAll_run {l : List (World × Delivery)} :
    (system host).Run db (deliverAll host db l).1 (deliverAll host db l).2 := by
  induction l generalizing db
  case nil         => exact .refl
  case cons c l hi => exact .trans (t := (deliver host c.1 c.2 db).2) rfl hi

theorem received_once {db₀ : Database} (h₀ : (system host).init db₀) (hr : (system host).Run db₀ es db) :
    Inbox host es db :=
  inbox_of_inv (.run h₀ hr)

def sampleLink : Link where
  id               := "link"
  peerId           := "peer"
  localNickname    := ""
  remoteNickname   := "Desk"
  localRole        := "primary"
  remoteRole       := "companion"
  trustStatus      := "trusted"
  workspaceBinding := []
  metadata         := []
  pairedAt         := ""
  lastSeenAt       := ""
  createdAt        := ""
  updatedAt        := ""

def sampleDelivery : Delivery where
  link             := sampleLink
  envelope         := ⟨"e1", "neighbor.message", "peer", [("messageId", .str "m1"), ("body", .str "hi")]⟩
  body             := "hi"
  preview          := "hi"
  workspaceBinding := []
  metadata         := []
  businessId       := "m1"
  wake             := some {}

-- SHA-256 of the two texts of the sample
def sampleHost : Host where
  sha256 text :=
    if text = "[\"link\",\"peer\",\"neighbor.message\",\"m1\"]" then
      "d1d59e78c68557f8efee0633095c7ed17051ee630f016f6da6fcaa6aadf373f8"
    else if text = "\x7b\"body\":\"hi\",\"messageId\":\"m1\"\x7d" then
      "6e8ed847139059863204b410b534847f38f42d517dfb6122fd4144921eb3120a"
    else ""
  sha1 _ := ""

def sampleDatabase : Database := ⟨[sampleLink], [], [], [], [], []⟩

-- A message that is delivered twice
def sampleCalls : List Event × Database :=
  deliverAll sampleHost sampleDatabase [(⟨"t1", "u1"⟩, sampleDelivery), (⟨"t2", "u2"⟩, sampleDelivery)]

theorem received_once_twice :
    Inbox sampleHost sampleCalls.1 sampleCalls.2 ∧ sampleCalls.2.messages.length = 1 ∧
      sampleCalls.2.queue.length = 1 := by
  have h₀ : (system sampleHost).init sampleDatabase := ⟨List.nodup_nil, rfl⟩
  refine ⟨received_once h₀ deliverAll_run, ?_, ?_⟩
  all_goals decide +kernel

end Neighbor
