import V8AgentOs.UserQueue.Steps

-- What the queue hands out, and what becomes of the messages that it does not
namespace UserQueue

open Python (Dict)

variable {s t u : State} {e : Event} {es es' : List Event} {m m' : Message} {queue : Queue} {id : String}
  {change : Change}

-- What a step writes is still as its call has read it: a claim finds the message pending, a requeue finds the messages
-- promoted and not injected, and an update does not bring a message back that was consumed or cancelled.
-- The metadata that is written back is that of the message.
structure Orderly (s : State) (e : Event) : Prop where
  take {pid row runId now m} : e.action = .take pid → s.calls pid = some (.claiming row runId now) →
    s.queue.get? row.id = some m → m.state = .pending
  putBack {pid rows reason now r m} : e.action = .putBack pid → s.calls pid = some (.requeuing rows reason now) →
    r ∈ rows → s.queue.get? r.id = some m → m.state = .promoted ∧ m.injectedAt = none ∧ m.metadata = r.metadata
  write {pid id change existing now m} : e.action = .write pid →
    s.calls pid = some (.updating id change existing now) → s.queue.get? id = some m →
    m.metadata = existing.metadata ∧
    (change.state = some .promoted → m.state ≠ .consumed ∧ m.state ≠ .cancelled) ∧
    (change.state = some .injected → m.state ≠ .cancelled)

-- The message will not be handed out any more.
def Spent (m : Message) : Prop :=
  m.state = .consumed ∨ m.state = .cancelled ∨ (m.state ≠ .pending ∧ m.injectedAt ≠ none)

-- The metadata is written over what it is.
theorem metadata_moves (ho : Orderly s e) (hm : s.queue.get? m.id = some m) (hmoves : Moves s e m m') :
    m'.metadata = (writesOf e.writes m.id).foldl Dict.merge m.metadata := by
  cases hmoves
  case same _ hw => rw [hw]; rfl
  case taken hw  => rw [hw]; rfl
  case putBack haction hreads hr hid _ hw =>
    have hmetadata := (ho.putBack haction hreads hr (hid ▸ hm)).right.right
    rw [hw, hmetadata]
    rfl
  case changed haction hreads _ hw =>
    have hmetadata := (ho.write haction hreads hm).left
    rw [hw, hmetadata]
    rfl

-- No two uncancelled messages of a session are the same message of its client.
def Distinct (queue : Queue) : Prop :=
  ∀ m ∈ queue.rows, ∀ m' ∈ queue.rows, m.sessionId = m'.sessionId → m.clientMessageId ≠ none →
    m.clientMessageId = m'.clientMessageId → m.state ≠ .cancelled → m'.state ≠ .cancelled → m = m'

-- The metadata of a message is everything that was written to it, the later over the earlier.
def Recorded (es : List Event) (s : State) : Prop :=
  ∀ id, writesOf (es.flatMap (·.writes)) id = [] ∧ s.queue.get? id = none ∨
    ∃ m, s.queue.get? id = some m ∧ m.metadata = (writesOf (es.flatMap (·.writes)) id).foldl Dict.merge []

theorem writesOf_concat : writesOf ((es ++ [e]).flatMap (·.writes)) id =
    writesOf (es.flatMap (·.writes)) id ++ writesOf e.writes id := by
  simp [writesOf, List.flatMap_append, List.filterMap_append]

theorem recorded_step (hv : Valid s) (h : Recorded es s) (hs : (system.restrict Orderly).step s e t) :
    Recorded (es ++ [e]) t := by
  intro id
  rw [writesOf_concat]
  cases h id
  case inl h =>
    cases (made_of_step hv hs.right h.right).right
    case inl hn => exact .inl ⟨by rw [h.left, hn.right]; rfl, hn.left⟩
    case inr hm =>
      obtain ⟨a, now, _, hm, _, hw, _⟩ := hm
      refine .inr ⟨_, hm, ?_⟩
      rw [h.left, hw]
      exact (List.filter_eq_self.mpr fun _ _ => rfl).symm
  case inr h =>
    obtain ⟨m, hm, hmetadata⟩ := h
    obtain ⟨m', hm', hmoves⟩ := moves_of_step hv hs.right hm
    cases Table.key_of_get? hm
    refine .inr ⟨m', hm', ?_⟩
    rw [List.foldl_append, ← hmetadata]
    exact metadata_moves hs.left hm hmoves

-- A claim under way has selected a message that was pending then and came before the others of its session.
def Selected (t : State) (es : List Event) (row : Message) (runId : String) : Prop :=
  ∃ es₁ c es₂ u pid sessionId now, es = es₁ ++ c :: es₂ ∧ c.action = .claim pid sessionId runId now ∧
    system.Run t es₁ u ∧ row ∈ pendingOf u.queue sessionId ∧ ∀ m ∈ pendingOf u.queue sessionId, row.order ≤ m.order

section Sample

variable {ok : State → Event → Bool} {P : State → Event → Prop} {actions : List Action}

-- Actions one after the other, as long as a condition is met
def perform (ok : State → Event → Bool) (s : State) : List Action → Option (List Event × State)
  | []                => some ([], s)
  | action :: actions =>
    let e : Event := ⟨action, s.handed action, s.writes action⟩
    if ok s e then (s.step action).bind fun t => (perform ok t actions).map fun r => (e :: r.1, r.2) else none

theorem run_of_perform (hok : ∀ s e, ok s e → P s e) (h : perform ok s actions = some (es, t)) :
    (system.restrict P).Run s es t := by
  induction actions generalizing s es
  case nil => cases h; exact .refl
  case cons action actions hi =>
    simp only [perform] at h
    split at h
    case isFalse => cases h
    case isTrue hc =>
      obtain ⟨t', ht', h⟩ := Option.bind_eq_some_iff.mp h
      obtain ⟨r, hr, h⟩ := Option.map_eq_some_iff.mp h
      cases h
      exact .trans ⟨hok _ _ hc, rfl, rfl, ht'⟩ (hi hr)

-- Whether a claim finds the message pending, and nothing else is written back
def prompt (s : State) (e : Event) : Bool :=
  match e.action with
  | .take pid  => match s.calls pid with
    | some (.claiming row _ _) => (s.queue.get? row.id).all (·.state = .pending)
    | _                        => true
  | .putBack _ => false
  | .write _   => false
  | _          => true

theorem orderly_of_prompt (h : prompt s e) : Orderly s e where
  take := by
    intro pid row runId now m haction hreads hm
    simpa [prompt, haction, hreads, hm] using h
  putBack := by
    intro pid rows reason now r m haction
    simp [prompt, haction] at h
  write := by
    intro pid id change existing now m haction
    simp [prompt, haction] at h

def sampleSubmission (queueId content : String) : Submission where
  queueId   := queueId
  sessionId := "session"
  content   := content

def sampleQueue : State where
  queue   := .empty
  calls _ := none

-- Two claims, the second of which begins when the first one is through
def sampleClaims : List Action :=
  [.add (sampleSubmission "1" "first") "1", .add (sampleSubmission "2" "second") "2", .claim 0 "session" "run_a" "3",
    .take 0, .claim 1 "session" "run_b" "4", .take 1]

def sampleRun : List Event × State :=
  (perform prompt sampleQueue sampleClaims).getD ([], sampleQueue)

-- Two claims, both of which select the message before either of them updates it
def sampleOverlap : List Action :=
  [.add (sampleSubmission "1" "first") "1", .claim 0 "session" "run_a" "2", .claim 1 "session" "run_b" "2", .take 0,
    .take 1]

def sampleTwice : List Event × State :=
  (perform (fun _ _ => true) sampleQueue sampleOverlap).getD ([], sampleQueue)

end Sample
end UserQueue
