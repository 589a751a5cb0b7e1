import V8AgentOs.Lib.Transition
import V8AgentOs.Neighbor.Handoffs

namespace Neighbor

open Hoare (Triple)
open Python (strip)

variable {host : TaskHost} {w : TaskWorld} {db db' : Database} {envelope : Envelope} {a : Assignment}

-- A handoff request takes the final status of its assignment away: it comes with a result that is
-- known, while the assignment ended with another one and has no child.
structure Overwrites (host : TaskHost) (w : TaskWorld) (envelope : Envelope) (db : Database) : Prop where
  enabled  : w.enabled
  verified : w.verified = .ok ()
  type     : strip envelope.messageType = "neighbor.task.handoff_request"
  sign     : w.sign "neighbor.task.ack" = .ok ()
  children : ¬dispatched host envelope db
  admitted : ∃ i, checkResult host envelope db true = .ok i ∧ i.late ∧ i.assignment.settled ∧
    demotes host w envelope db i.assignment i.link

-- A message was handled: no final status changed, and at most one message is on its way for a handoff.
abbrev Handled (db : Database) (p : Option Sending) (t : Database) : Prop :=
  Safe db t ∧ ∀ q ∈ p, q.caller.isSome → q.rest = []

theorem handleAssign_does (hs : db.Sound) :
    Triple (· = db) (handleAssign host w envelope) (fun _ t => Safe db t) fun _ t => Safe db t := by
  refine Triple.read ?_
  refine lift_does (fun _ _ => ?_) fun _ => .refl hs
  refine lift_does (fun _ _ => ?_) fun _ => .refl hs
  apply Triple.chain (Q := fun _ t => Safe db t)
  case hx =>
    apply receiveMessage_does.conseq
    case hp => exact fun _ h => h
    case he =>
      intro _ t h
      subst h
      exact .refl hs
    case hq =>
      intro r t h
      cases h
      case inl h =>
        cases h.unchanged
        exact .refl hs
      case inr h =>
        have ho (d : Delivery) (hd : d.result = none) : d.Originates db := by simp [Delivery.Originates, hd]
        exact .of_accepts hs (ho _ rfl) h
  intro r t ht
  refine lift_does (fun _ _ => ?_) fun _ => ht
  split
  case h_1 => exact .throw fun _ h => h ▸ ht
  case h_2 => exact .done ht

theorem storeInboundResult_safe {handoff : Bool} (hs : db.Sound) :
    Triple (· = db) (storeInboundResult host w envelope handoff) (fun _ t => Safe db t) fun _ t => Safe db t := by
  apply (storeInboundResult_does hs).conseq
  case hp => exact fun _ h => h
  case he => exact fun _ _ h => h
  case hq =>
    intro ack t h
    cases h
    case late      => exact .refl hs
    case taken h _ => exact h

-- A program that goes on with `x`, unless the state meets a condition
theorem unless_does {x : Tx (Option Sending)} {c : Database → Prop} [DecidablePred c] {response : Ack}
    {t : Database} (hc : c t → Handled db none t)
    (hx : ¬c t → Triple (· = t) x (Handled db) fun _ u => Safe db u) :
    Triple (· = t) (do if c (← get) then return (response, none) else return (response, ← x))
      (fun p u => Handled db p.2 u) fun _ u => Safe db u := by
  apply Triple.read
  apply Triple.ite
  case hx => exact fun h => .done (hc h)
  case hy => exact fun h => (hx h).bind fun _ => .pure fun _ hp => hp

-- The assignment of a handoff request that was answered has no final status, or it is one that the
-- handoff does not take away.
theorem Receives.unsettled {response : Ack} {t : Database} (hr : Receives host w envelope true db response t)
    (h : w.sign "neighbor.task.ack" = .ok () → ¬dispatched host envelope db → ∀ i,
      checkResult host envelope db true = .ok i → i.late → i.assignment.settled →
        ¬demotes host w envelope db i.assignment i.link)
    (hd : ¬(response.status = "duplicate" ∧ dispatched host envelope t)) (a : Assignment) (link : Link)
    (ha : t.getAssignment (host.text (envelope.get "assignmentId")) = some a)
    (hl : t.getLinkByPeer envelope.fromPeerId = some link) (hset : a.settled) :
    ¬demotes host w envelope t a link := by
  cases hr
  case taken _ hn => exact (hn rfl a ha hset).elim
  case late i hi hlate hsign =>
    have hc := checkResult_ok hi
    cases hc.assignment.symm.trans ha
    cases hc.link.symm.trans hl
    exact h hsign (fun hc => hd ⟨rfl, hc⟩) i hi hlate hset

theorem handleHandoffRequest_does (hs : db.Sound) (h : w.sign "neighbor.task.ack" = .ok () →
      ¬dispatched host envelope db → ∀ i, checkResult host envelope db true = .ok i → i.late →
        i.assignment.settled → ¬demotes host w envelope db i.assignment i.link) :
    Triple (· = db) (handleHandoffRequest host w envelope) (fun p t => Handled db p.2 t) fun _ t => Safe db t := by
  apply Triple.chain (storeInboundResult_does hs)
  intro response t hr
  have hsafe : Safe db t := by
    cases hr
    case late      => exact .refl hs
    case taken h _ => exact h
  apply unless_does
  case hc => exact fun _ => ⟨hsafe, by simp⟩
  case hx =>
    intro hd
    apply (followUp_does hsafe.sound (hr.unsettled h hd)).conseq
    case hp => exact fun _ h => h
    case hq => exact fun _ _ hp => ⟨hsafe.trans hp.left, hp.right⟩
    case he => exact fun _ _ hu => hsafe.trans hu

-- One message
theorem handleTaskEnvelope_does (hs : db.Sound) (h : ¬Overwrites host w envelope db) :
    Triple (· = db) (handleTaskEnvelope host w envelope) (fun p t => Handled db p.2 t) fun _ t => Safe db t := by
  unfold handleTaskEnvelope
  apply Triple.ite
  case hx =>
    refine fun _ => .throw fun _ h => ?_
    subst h
    exact .refl hs
  intro he
  refine lift_does (fun _ hv => ?_) fun _ => .refl hs
  apply Triple.ite
  case hx =>
    intro _
    exact .chain (handleAssign_does hs) fun _ _ ht => .done ⟨ht, by simp⟩
  intro _
  apply Triple.ite
  case hx =>
    intro _
    exact .chain (storeInboundResult_safe hs) fun _ _ ht => .done ⟨ht, by simp⟩
  intro _
  apply Triple.ite
  case hx =>
    intro ht
    apply handleHandoffRequest_does hs
    intro hsign hc i hi hl hset hd
    exact h ⟨by simpa using he, hv, ht, hsign, hc, i, hi, hl, hset, hd⟩
  intro _
  apply Triple.ite
  case hx =>
    intro _
    refine lift_does (fun _ _ => ?_) fun _ => .refl hs
    exact .done ⟨.refl hs, by simp⟩
  refine fun _ => .throw fun _ h => ?_
  subst h
  exact .refl hs

-- The rest of a dispatch: it is over once the message of a handoff is sent.
theorem resume_does {p : Sending} {sent : Sent} (hs : db.Sound) (hp : p.caller.isSome → p.rest = []) :
    Triple (· = db) (resume host w p sent) (Handled db) fun _ t => Safe db t := by
  have hset : Safe db (p.settle sent w.now db) := by
    cases sent
    case delivery => exact .update hs fun _ _ _ h => .inl (h rfl)
    case failed   => exact .update hs fun _ _ _ h => .inl (h rfl)
  unfold resume
  cases hc : p.caller
  case none =>
    apply Triple.update
    apply (dispatchNext_does hset.sound).conseq
    case hp => exact fun _ h => h
    case he => exact fun _ _ h => hset.trans h.safe
    case hq =>
      intro q t h
      refine ⟨hset.trans h.left.safe, fun q hq hcaller => ?_⟩
      rw [(h.right q hq).left] at hcaller
      cases hcaller
  case some id =>
    rw [hp (by rw [hc]; rfl)]
    apply Triple.tryCatch (E := fun _ _ => False)
    case hh => exact fun _ => .assume fun _ h => h.elim
    case hx =>
      apply Triple.update
      unfold dispatchNext
      apply Triple.update
      exact .done ⟨hset.trans (.recomputeTaskStatus hset.sound), by simp⟩

-- Each final status of an assignment of this device is still there.
def Keeps (db db' : Database) : Prop :=
  ∀ a ∈ db.assignments, db.originates a → a.settled → ∃ b ∈ db'.assignments, db'.originates b ∧ a.Follows b

namespace Keeps

theorem refl (db : Database) : Keeps db db :=
  fun a ha ho _ => ⟨a, ha, ho, .refl a⟩

theorem trans {db'' : Database} (h₁ : Keeps db db') (h₂ : Keeps db' db'') : Keeps db db'' := by
  intro a ha ho hs
  have ⟨b, hb, ho', hf⟩ := h₁ a ha ho hs
  have ⟨c, hc, ho'', hf'⟩ := h₂ b hb ho' (hf.settled_right hs)
  exact ⟨c, hc, ho'', hf.trans _ _ _ hf'⟩

theorem of_safe (hs : db.Sound) (h : Safe db db') : Keeps db db' := by
  intro a ha ho _
  have ⟨b, hb, hf⟩ := Rows.Grown.mem h.assignments ha
  exact ⟨b, hb, by rwa [Safe.origin_kept h.modes (hs.tasks a ha) hf.taskId], hf⟩

end Keeps

namespace Terminal

-- The database, and the messages of dispatches that are on their way
structure State where
  db      : Database
  sending : List Sending

-- What happens to the assignments: a message of a peer is handled, a message of a dispatch was sent, the
-- owner dispatches a task, or the rest of the program goes on.
inductive Event
  | message (w : TaskWorld) (envelope : Envelope)
  | resume (w : TaskWorld) (p : Sending) (sent : Sent)
  | dispatch (w : TaskWorld) (d : Dispatch)
  | elsewhere

-- The program waits for its next message, or ended.
def State.after (sending : List Sending) : EStateM.Result Error Database (Option Sending) → State
  | .ok p db    => ⟨db, sending ++ p.toList⟩
  | .error _ db => ⟨db, sending⟩

def State.handle (host : TaskHost) (s : State) (w : TaskWorld) (envelope : Envelope) : State :=
  .after s.sending ((Prod.snd <$> handleTaskEnvelope host w envelope) s.db)

-- The rest of the program leaves the assignments of this device that have a final result alone.
structure Elsewhere (db db' : Database) : Prop where
  sound : db'.Sound
  keeps : Keeps db db'

def system (host : TaskHost) : Transition State Event where
  init s     := s.db.Sound ∧ s.sending = []
  step s e t := match e with
    | .message w envelope => t = s.handle host w envelope
    | .resume w p sent    => ∃ l r, s.sending = l ++ p :: r ∧ t = .after (l ++ r) (resume host w p sent s.db)
    | .dispatch w d       => t = .after s.sending (dispatchTask host w d none s.db)
    | .elsewhere          => Elsewhere s.db t.db ∧ t.sending = s.sending

-- No message takes a final status away.
def Lawful (host : TaskHost) (s : State) : Event → Prop
  | .message w envelope => ¬Overwrites host w envelope s.db
  | _                   => True

structure Inv (s : State) : Prop where
  sound   : s.db.Sound
  sending : ∀ p ∈ s.sending, p.caller.isSome → p.rest = []

variable {s t : State} {e : Event} {es : List Event}

theorem after_does {x : Tx (Option Sending)} {sending : List Sending} (hs : db.Sound)
    (hp : ∀ p ∈ sending, p.caller.isSome → p.rest = [])
    (hx : Triple (· = db) x (Handled db) fun _ t => Safe db t) :
    Inv (.after sending (x db)) ∧ Keeps db (State.after sending (x db)).db := by
  cases hr : x db
  case error e t =>
    have h := hx.error rfl hr
    exact ⟨⟨h.sound, hp⟩, .of_safe hs h⟩
  case ok p t =>
    have ⟨h, hq⟩ := hx.ok rfl hr
    refine ⟨⟨h.sound, fun q hm => ?_⟩, .of_safe hs h⟩
    cases List.mem_append.mp hm
    case inl hm => exact hp q hm
    case inr hm => exact hq q (Option.mem_toList.mp hm)

-- What one step does
theorem step_does (h : Inv s) (hl : Lawful host s e) (hs : (system host).step s e t) :
    Inv t ∧ Keeps s.db t.db := by
  cases e
  case message w envelope =>
    subst hs
    exact after_does h.sound h.sending (.map (handleTaskEnvelope_does h.sound hl))
  case resume w p sent =>
    have ⟨l, r, hm, ht⟩ := hs
    subst ht
    apply after_does h.sound
    case hx => exact resume_does h.sound (h.sending p (by simp [hm]))
    case hp =>
      intro q hq
      apply h.sending
      rw [hm]
      cases List.mem_append.mp hq
      case inl hq => exact List.mem_append_left _ hq
      case inr hq => exact List.mem_append_right _ (List.mem_cons_of_mem p hq)
  case dispatch w d =>
    subst hs
    apply after_does h.sound h.sending
    apply (dispatchTask_does h.sound).conseq
    case hp => exact fun _ h => h
    case he => exact fun _ _ h => h.safe
    case hq =>
      intro p t hp
      refine ⟨hp.left.safe, fun q hq hc => ?_⟩
      rw [(hp.right q hq).left] at hc
      cases hc
  case elsewhere =>
    have ⟨he, hq⟩ := hs
    exact ⟨⟨he.sound, hq ▸ h.sending⟩, he.keeps⟩

theorem inv_of_reachable (h : ((system host).restrict (Lawful host)).Reachable s) : Inv s := by
  apply h.invariant
  case h₀ => exact fun s h => ⟨h.left, by simp [h.right]⟩
  case hI => exact fun _ _ _ h hs => (step_does h hs.left hs.right).left

-- In a run in which no message takes a final status away, every assignment of this device that ended keeps
-- its status and its result.
theorem ended_stays (h : ((system host).restrict (Lawful host)).Reachable s)
    (r : ((system host).restrict (Lawful host)).Run s es t) (ha : a ∈ s.db.assignments)
    (ho : s.db.originates a) (hset : a.settled) :
    ∃ b ∈ t.db.assignments, b.id = a.id ∧ b.status = a.status ∧ b.resultId = a.resultId := by
  have hk : Keeps s.db t.db := by
    apply r.relates (I := Inv) (R := fun s t => Keeps s.db t.db)
    case hI    => exact fun _ _ _ h hs => (step_does h hs.left hs.right).left
    case refl  => exact fun s => .refl s.db
    case trans => exact fun _ _ _ h₁ h₂ => h₁.trans h₂
    case step  => exact fun _ _ _ h hs => (step_does h hs.left hs.right).right
    case h     => exact inv_of_reachable h
  have ⟨b, hb, _, hf⟩ := hk a ha ho hset
  exact ⟨b, hb, hf.id, hf.settled hset⟩

-- One message after the other
def State.handleAll (host : TaskHost) (s : State) (messages : List (TaskWorld × Envelope)) : State :=
  messages.foldl (fun s m => s.handle host m.1 m.2) s

theorem handleAll_run {messages : List (TaskWorld × Envelope)} :
    (system host).Run s (messages.map fun m => .message m.1 m.2) (s.handleAll host messages) := by
  induction messages generalizing s
  case nil          => exact .refl
  case cons m ms hi => exact .trans rfl hi

section Sample

-- This device is a companion of its neighbor, and has sent it a task.
def sampleLink : Link where
  id               := "link"
  peerId           := "peer"
  localNickname    := ""
  remoteNickname   := "Desk"
  localRole        := "companion"
  remoteRole       := "primary"
  trustStatus      := "trusted"
  workspaceBinding := []
  metadata         := []
  pairedAt         := ""
  lastSeenAt       := ""
  createdAt        := ""
  updatedAt        := ""

def sampleTask : Task where
  id                   := "task-1"
  title                := "Render"
  body                 := "Render"
  status               := "assigned"
  targetMode           := "explicit"
  originSessionId      := none
  originRunId          := none
  wakePolicy           := "inbox"
  requiredCapabilities := []
  workspaceBinding     := []
  metadata             := []
  createdAt            := "t0"
  updatedAt            := "t0"
  completedAt          := none

def sampleAssignment : Assignment where
  id                   := "assignment-1"
  taskId               := "task-1"
  linkId               := "link"
  peerId               := "peer"
  parentAssignmentId   := none
  depth                := 0
  status               := "sent"
  body                 := "Render"
  requiredCapabilities := []
  wakePolicy           := "inbox"
  runId                := none
  resultId             := none
  error                := none
  metadata             := [("targetMode", .str "explicit")]
  createdAt            := "t0"
  updatedAt            := "t0"
  completedAt          := none

def sampleState : State where
  db      := ⟨[sampleLink], [], [], [sampleTask], [sampleAssignment], []⟩
  sending := []

def sampleHandoff : Envelope where
  messageId   := "e1"
  messageType := "neighbor.task.handoff_request"
  fromPeerId  := "peer"
  payload     := [("taskId", .str "task-1"), ("assignmentId", .str "assignment-1"), ("resultId", .str "result-1"),
    ("reason", .str "gpu")]

def sampleResult : Envelope where
  messageId   := "e2"
  messageType := "neighbor.task.result"
  fromPeerId  := "peer"
  payload     := [("taskId", .str "task-1"), ("assignmentId", .str "assignment-1"), ("resultId", .str "result-2"),
    ("status", .str "completed"), ("body", .str "done")]

theorem toLower_of_lower {c : Char} (h : 'a' ≤ c) : c.toLower = c := by
  have h : 97 ≤ c.val := h
  unfold Char.toLower
  rw [dif_neg]
  intro hc
  exact absurd (UInt32.le_trans h hc.right) (by decide)

-- SHA-256 of the texts of the sample; what is not used of the language is that of an ASCII text.
def sampleHost : TaskHost where
  sha256 text :=
    if text = "\x7b\"assignmentId\":\"assignment-1\",\"reason\":\"gpu\",\"resultId\":\"result-1\",\"taskId\":\"task-1\"\x7d" then
      "289c933d7a08e1a94b1fe365500c9f7aceb7dcd79c1c7933106185cc9496bc70"
    else if text = "\x7b\"assignmentId\":\"assignment-1\",\"body\":\"done\",\"resultId\":\"result-2\",\"status\":\"completed\",\"taskId\":\"task-1\"\x7d" then
      "a99757201bcf543edcccca3c0554e120c51767169c2e3be40df31c0730c3f2ed"
    else if text = "[\"link\",\"peer\",\"neighbor.task.handoff_request\",\"result-1\"]" then
      "20710ac317069b754725d9c1e4b10d0c9a1472b81afa222e52f68e7230b91c6e"
    else "a4a8eebcb7ffd9ced42e3fc91f4b800da65aa89b5fff14947bd26649f0e95499"
  sha1 _         := "da39a3ee5e6b4b0d3255bfef95601890afd80709"
  display _      := ""
  integer value  := match value with
    | .int n => .ok n
    | _      => .error .raised
  lower text     := String.ofList (text.toList.map Char.toLower)
  isWord c       := c.isAlphanum || c = '_'
  errorText _    := ""
  hexDigest _    := List.forall_iff_forall_mem.mp (by decide)
  lowerCase text h := by
    rw [List.map_congr_left fun c hc => toLower_of_lower (h c hc).left, List.map_id', String.ofList_toList]

def sampleWorld (now : String) : TaskWorld where
  now      := now
  uuid     := "u"
  enabled  := true
  verified := .ok ()
  settings := .null
  devices  := []
  binding  := .ok []
  sign _   := .ok ()

-- The assignment was handed back and then completed.
def sampleEnded : State :=
  sampleState.handleAll sampleHost [(sampleWorld "t1", sampleHandoff), (sampleWorld "t2", sampleResult)]

def sampleFinal : Assignment :=
  sampleEnded.db.assignments.head (by decide +kernel)

theorem sampleState_sound : sampleState.db.Sound where
  ids            := List.nodup_singleton _
  tasks a ha     := by
    cases List.mem_singleton.mp ha
    decide
  settled a ha _ := by
    cases List.mem_singleton.mp ha
    exact fun h => absurd h (by decide)

-- A handoff request that is delivered again takes the final status of its assignment away.
theorem ended_overwritten :
    ¬∀ (host : TaskHost) (s t : State) (es : List Event) (a : Assignment), (system host).Reachable s →
      (system host).Run s es t → a ∈ s.db.assignments → s.db.originates a → a.settled →
      ∃ b ∈ t.db.assignments, b.id = a.id ∧ b.status = a.status ∧ b.resultId = a.resultId := by
  intro h
  have h₀ : (system sampleHost).init sampleState := ⟨sampleState_sound, rfl⟩
  have hr : (system sampleHost).Reachable sampleEnded := (Transition.Reachable.init h₀).run handleAll_run
  have hrun : (system sampleHost).Run sampleEnded [.message (sampleWorld "t3") sampleHandoff]
      (sampleEnded.handle sampleHost (sampleWorld "t3") sampleHandoff) := .single rfl
  have hb := h sampleHost _ _ _ sampleFinal hr hrun (List.head_mem _) (by decide +kernel) (by decide +kernel)
  exact absurd hb (by decide +kernel)

-- The same task after its result
def sampleDone : State where
  db      := { sampleState.db with
    assignments := [{ sampleAssignment with status := "completed", resultId := some "result-2" }]
    results     := [{
      id                    := "result-2"
      taskId                := "task-1"
      assignmentId          := "assignment-1"
      linkId                := "link"
      peerId                := "peer"
      status                := "completed"
      summary               := "done"
      body                  := "done"
      needsAttention        := false
      requestedCapabilities := []
      handoffReason         := none
      metadata              := []
      createdAt             := "t2" }] }
  sending := []

theorem sampleDone_sound : sampleDone.db.Sound where
  ids              := List.nodup_singleton _
  tasks a ha       := by
    cases List.mem_singleton.mp ha
    decide
  settled a ha _ _ := by
    cases List.mem_singleton.mp ha
    exact ⟨_, _, rfl, rfl, rfl⟩

theorem ended_stays_result :
    ∃ b ∈ (sampleDone.handle sampleHost (sampleWorld "t3") sampleResult).db.assignments,
      b.id = "assignment-1" ∧ b.status = "completed" ∧ b.resultId = some "result-2" := by
  have h₀ : ((system sampleHost).restrict (Lawful sampleHost)).init sampleDone := ⟨sampleDone_sound, rfl⟩
  have hn : Lawful sampleHost sampleDone (.message (sampleWorld "t3") sampleResult) := fun h =>
    absurd h.type (by decide +kernel)
  exact ended_stays (.init h₀) (.single ⟨hn, rfl⟩) (List.mem_singleton.mpr rfl) (by decide) (by decide)

end Sample

end Terminal
end Neighbor
