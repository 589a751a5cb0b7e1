import Mathlib.Data.List.Nodup
import Mathlib.Data.Option.Basic
import V8AgentOs.SessionRealtime.Edits

-- Which messages an event of a run may change
namespace SessionRealtime.Stream

open Script

variable (stream : Stream) (options : LifecycleOptions) (event : UiEvent)

-- Messages are identified by their ids, and the current message is the one that the list shows under its id.
structure WellFormed : Prop where
  ids     : (stream.messages.map (·.id)).Nodup
  current : ∀ ref, stream.currentAiMsg = some ref →
    ∀ m ∈ stream.messages, m.id = (stream.objects ref).id → m = stream.objects ref

-- A message that has neither a run nor a submission
def Unbound (m : Message) : Prop :=
  m.runId = [] ∧ m.clientMessageId = []

def IsCurrent (m : Message) : Prop :=
  ∃ ref, stream.currentAiMsg = some ref ∧ stream.objects ref = m

-- A message of the event's run, or a current message that has no run yet
def OfRun (m : Message) : Prop :=
  m.runId = event.run_id ∨ Unbound m ∧ stream.IsCurrent m

-- `message_user_recorded`
def IsReceipt : Prop :=
  event.type = .custom_event ∧ event.name = .message_user_recorded

-- The user's message that a receipt records
def Recorded (m : Message) : Prop :=
  m.role = .user ∧ (trim m.id = event.recordedId ∨
    trim (event.recordedClientId.getD []) ≠ [] ∧ trim m.clientMessageId = trim (event.recordedClientId.getD []))

-- The placeholder of the submission that a receipt belongs to
def Pending (m : Message) : Prop :=
  m.role = .assistant ∧ m.uiEphemeral ∧
  m.clientMessageId = firstTruthy [trim (event.recordedClientId.getD []), event.recordedId] ∧
  (m.runId = [] ∨ m.runId = event.timelineRunId)

-- The messages that the event may change
def Writes (m : Message) : Prop :=
  IsReceipt event ∧ (Recorded event m ∨ Pending event m) ∨ ¬IsReceipt event ∧ stream.OfRun event m

-- The event has a run, it does not name a message of another one, and it does not end another run's message.
structure OwnRun : Prop where
  run     : event.run_id ≠ []
  message : ¬IsReceipt event → event.message_id ≠ [] →
    ∀ m ∈ stream.messages, trim m.id = trim event.message_id → stream.OfRun event m
  ending  : event.type = .done ∨ event.type = .error →
    ∀ ref, stream.currentAiMsg = some ref → stream.OfRun event (stream.objects ref)

-- `createId` does not give the next assistant message an id that the list has.
def FreshId : Prop :=
  ∀ m ∈ stream.messages, m.id ≠ options.createId .assistant stream.calls

-- The message at a place of the list, if it is not one of those that may change, is still there.
def Leaves (touched : Message → Prop) (after : Stream) : Prop :=
  ∀ (i : ℕ) (m : Message), stream.messages[i]? = some m → ¬touched m → after.messages[i]? = some m

variable {stream options event}

theorem getElem?_messages {i : ℕ} {m : Message} :
    stream.messages[i]? = some m ↔ ∃ ref, stream.localMessages[i]? = some ref ∧ stream.objects ref = m := by
  simp [messages]

theorem mem_messages_of_mem {ref : ℕ} (h : ref ∈ stream.localMessages) : stream.objects ref ∈ stream.messages :=
  List.mem_map_of_mem h

theorem lt_newRef {ref : ℕ} (h : ref ∈ stream.held) : ref < stream.newRef := by
  have hle : ∀ (refs : List ℕ), ref ∈ refs → ref ≤ refs.foldr max 0 := by
    intro refs
    induction refs
    case nil => simp
    case cons r rs hi =>
      simp only [List.mem_cons, List.foldr_cons]
      rintro (h | h)
      case inl => omega
      case inr =>
        have := hi h
        omega
  exact Nat.lt_succ_of_le (hle _ h)

theorem ne_newRef_of_getElem? {i ref : ℕ} (h : stream.localMessages[i]? = some ref) : ref ≠ stream.newRef :=
  (lt_newRef (List.mem_append_left _ (List.mem_of_getElem? h))).ne

-- Two messages of the list with one id are one message.
theorem WellFormed.eq_of_id (wf : stream.WellFormed) {m m' : Message} (hm : m ∈ stream.messages)
    (hm' : m' ∈ stream.messages) (h : m.id = m'.id) : m = m' :=
  List.inj_on_of_nodup_map wf.ids hm hm' h

-- One object is written and the list keeps its first entries.
theorem getElem?_update {i ref : ℕ} {m : Message} {after : Stream} {new : Message} (added : List ℕ)
    (h : stream.messages[i]? = some m) (hm : ∀ r ∈ stream.localMessages, stream.objects r = m → r ≠ ref)
    (hl : after.localMessages = stream.localMessages ++ added)
    (ho : after.objects = Function.update stream.objects ref new) : after.messages[i]? = some m := by
  have ⟨r, hr, hrm⟩ := getElem?_messages.mp h
  have hlt := (List.getElem?_eq_some_iff.mp hr).1
  apply getElem?_messages.mpr
  refine ⟨r, ?entry, ?object⟩
  case entry => rw [hl, List.getElem?_append_left hlt, hr]
  case object => rw [ho, Function.update_of_ne (hm r (List.mem_of_getElem? hr) hrm), hrm]

theorem leaves_editCurrent (ref : ℕ) (edit : Draft → Draft) :
    stream.Leaves (· = stream.objects ref) (stream.editCurrent ref edit) := by
  intro i m h hm
  have hl : (stream.editCurrent ref edit).localMessages = stream.localMessages ++ [] := (List.append_nil _).symm
  apply getElem?_update [] h _ hl rfl
  rintro r _ hr rfl
  exact hm hr.symm

theorem leaves_modify (ref : ℕ) (f : Message → Message) :
    stream.Leaves (· = stream.objects ref) (stream.modify ref f) := by
  intro i m h hm
  have hl : (stream.modify ref f).localMessages = stream.localMessages ++ [] := (List.append_nil _).symm
  apply getElem?_update [] h _ hl rfl
  rintro r _ hr rfl
  exact hm hr.symm

theorem leaves_pushAssistant : stream.Leaves (fun _ => False) (stream.pushAssistant options event) := by
  intro i m h _
  apply getElem?_update [stream.newRef] h _ rfl rfl
  intro r hr _
  exact (lt_newRef (List.mem_append_left _ hr)).ne

theorem leaves_upsertCurrentAiMessage (ref : ℕ) :
    stream.Leaves (fun m => m.id = (stream.objects ref).id ∧ m ≠ stream.objects ref)
      (stream.upsertCurrentAiMessage ref) := by
  intro i m h hm
  have ⟨r, hr, hrm⟩ := getElem?_messages.mp h
  have hlt := (List.getElem?_eq_some_iff.mp hr).1
  unfold upsertCurrentAiMessage
  apply getElem?_messages.mpr
  split
  case h_2 => exact ⟨r, by rw [List.getElem?_append_left hlt, hr], hrm⟩
  case h_1 index hindex =>
    by_cases hi : index = i
    case neg => exact ⟨r, by rw [List.getElem?_set_ne hi, hr], hrm⟩
    case pos =>
      have ⟨_, hid, _⟩ := List.findIdx?_eq_some_iff_getElem.mp hindex
      have hget : stream.localMessages[i] = r := by simpa [List.getElem?_eq_getElem hlt] using hr
      simp only [hi, hget, hrm, decide_eq_true_eq] at hid
      refine ⟨ref, by rw [hi, List.getElem?_set_self hlt], ?object⟩
      by_contra hne
      exact hm ⟨hid, Ne.symm hne⟩

-- What `ensureCurrent` does for an event of a run: the message that it gives is bound to the run, and no message of
-- another run was changed or has its id.
structure Claims (stream : Stream) (event : UiEvent) (after : Stream) (ref : ℕ) : Prop where
  leaves : stream.Leaves (stream.OfRun event) after
  run    : (after.objects ref).runId = event.run_id
  id     : ∀ m ∈ stream.messages, ¬stream.OfRun event m → m.id ≠ (after.objects ref).id

theorem ne_message_id (own : stream.OwnRun event) (hr : ¬IsReceipt event) (h : event.message_id ≠ []) {m : Message}
    (hm : m ∈ stream.messages) (ho : ¬stream.OfRun event m) : m.id ≠ event.message_id := by
  intro he
  exact ho (own.message hr h m hm (congrArg trim he))

@[simp] theorem bind_runId (message : Message) :
    (stream.bind event message).runId = if event.run_id = [] then message.runId else event.run_id :=
  rfl

@[simp] theorem bind_id (message : Message) : (stream.bind event message).id = message.id :=
  rfl

-- A message of the run is bound to it again, and gets the id that the event names.
theorem claims_modify {ref : ℕ} (f : Message → Message) (ho : stream.OfRun event (stream.objects ref))
    (hown : ∀ m ∈ stream.messages, m.id = (stream.objects ref).id → m = stream.objects ref)
    (hrun : (f (stream.objects ref)).runId = event.run_id)
    (hid : (f (stream.objects ref)).id = (stream.objects ref).id ∨
      ∀ m ∈ stream.messages, ¬stream.OfRun event m → m.id ≠ (f (stream.objects ref)).id) :
    stream.Claims event (stream.modify ref f) ref where
  leaves i m h hm := by
    apply leaves_modify ref f i m h
    rintro rfl
    exact hm ho
  run := by simpa [modify] using hrun
  id m hm hno := by
    simp only [modify, Function.update_self]
    cases hid
    case inl hid =>
      rw [hid]
      intro he
      exact hno (hown m hm he ▸ ho)
    case inr hid => exact hid m hm hno

theorem WellFormed.of_mem (wf : stream.WellFormed) {ref : ℕ} (h : ref ∈ stream.localMessages) :
    ∀ m ∈ stream.messages, m.id = (stream.objects ref).id → m = stream.objects ref :=
  fun _ hm he => wf.eq_of_id hm (mem_messages_of_mem h) he

-- The message that `ensureCurrent` takes is one of the run.
theorem ofRun_of_resolveRun (own : stream.OwnRun event) {ref : ℕ} (h : stream.resolveRun event = some ref) :
    stream.OfRun event (stream.objects ref) ∧ (stream.currentAiMsg = some ref ∨ ref ∈ stream.localMessages) := by
  unfold resolveRun at h
  simp only [own.run, false_or] at h
  split_ifs at h with hc
  case pos =>
    have hb : (stream.objects ref).runId = event.run_id := by simpa [h] using hc
    exact ⟨.inl hb, .inl h⟩
  case neg =>
    cases (Option.orElse_eq_some _ _ _).mp h
    case inl h =>
      have hp := List.find?_some h
      simp only [Bool.and_eq_true, decide_eq_true_eq] at hp
      exact ⟨.inl hp.2, .inr (List.mem_of_find?_eq_some h)⟩
    case inr h =>
      have ⟨hcur, hp⟩ := Option.filter_eq_some_iff.mp h.2
      simp only [Bool.and_eq_true, decide_eq_true_eq] at hp
      exact ⟨.inr ⟨hp, ref, hcur, rfl⟩, .inl hcur⟩

theorem claims_ensureCurrent (wf : stream.WellFormed) (fresh : stream.FreshId options) (own : stream.OwnRun event)
    (hr : ¬IsReceipt event) :
    stream.Claims event (stream.ensureCurrent options event).1 (stream.ensureCurrent options event).2 := by
  have hrun := own.run
  unfold ensureCurrent
  split
  case h_1 ref h =>
    unfold findMessageById at h
    split_ifs at h with hb
    have hmem := List.mem_of_find?_eq_some h
    have htrim : trim (stream.objects ref).id = trim event.message_id := by simpa using List.find?_some h
    have hne : event.message_id ≠ [] := by
      rintro he
      simp [he] at hb
    have ho := own.message hr hne _ (mem_messages_of_mem hmem) htrim
    exact claims_modify _ ho (wf.of_mem hmem) (by simp [hrun]) (.inl rfl)
  case h_2 =>
    dsimp only
    split
    case h_1 ref h =>
      have ⟨ho, hheld⟩ := ofRun_of_resolveRun own h
      have hown : ∀ m ∈ stream.messages, m.id = (stream.objects ref).id → m = stream.objects ref := by
        cases hheld
        case inl hcur => exact wf.current ref hcur
        case inr hmem => exact wf.of_mem hmem
      dsimp only
      apply claims_modify _ ho hown
      case hrun => simp [hrun]
      case hid =>
        by_cases he : event.message_id = []
        case pos => exact .inl (by simp [he])
        case neg => exact .inr fun m hm hno => by simpa [he] using ne_message_id own hr he hm hno
    case h_2 h =>
      refine ⟨?leaves, ?run, ?id⟩
      case leaves =>
        intro i m hm hno
        apply leaves_modify
        case a => exact leaves_pushAssistant i m hm id
        case a =>
          simp only [pushAssistant, Function.update_self]
          rintro rfl
          exact hno (.inl rfl)
      case run => simp [modify, pushAssistant, hrun]
      case id =>
        intro m hm hno
        by_cases he : event.message_id = []
        case pos => simpa [modify, pushAssistant, he, buildAssistantMessage] using fresh m hm
        case neg => simpa [modify, he] using ne_message_id own hr he hm hno

theorem leaves_placeRecorded : stream.Leaves (Recorded event) (stream.placeRecorded event) := by
  intro i m h hno
  have ⟨r, hr, hrm⟩ := getElem?_messages.mp h
  have hlt := (List.getElem?_eq_some_iff.mp hr).1
  have hne := ne_newRef_of_getElem? hr
  unfold placeRecorded
  apply getElem?_messages.mpr
  split
  case h_1 index hindex =>
    have hi : index ≠ i := by
      rintro rfl
      have ⟨_, hp, _⟩ := List.findIdx?_eq_some_iff_getElem.mp hindex
      have hget : stream.localMessages[index] = r := by simpa [List.getElem?_eq_getElem hlt] using hr
      simp only [hget, hrm, Bool.and_eq_true, Bool.or_eq_true, decide_eq_true_eq] at hp
      exact hno hp
    refine ⟨r, ?entry, ?object⟩
    case entry => rw [List.getElem?_set_ne hi, hr]
    case object => exact (Function.update_of_ne hne _ _).trans hrm
  case h_2 =>
    refine ⟨r, ?entry, ?object⟩
    case entry => rw [List.getElem?_append_left hlt, hr]
    case object => exact (Function.update_of_ne hne _ _).trans hrm

theorem pending_of_pendingAssistant {ref : ℕ} (h : stream.pendingAssistant event = some ref) :
    Pending event (stream.objects ref) := by
  have hp := List.find?_some h
  simp only [Bool.and_eq_true, Bool.or_eq_true, decide_eq_true_eq] at hp
  exact ⟨hp.1.1.1, hp.1.1.2, hp.1.2, hp.2⟩

theorem leaves_recordUser :
    stream.Leaves (fun m => Recorded event m ∨ Pending event m) (stream.recordUser event) := by
  intro i m h hno
  have hplaced := leaves_placeRecorded i m h (mt .inl hno)
  unfold recordUser
  dsimp only
  split
  case h_1 => exact hplaced
  case h_2 ref href =>
    have hne : m ≠ (stream.placeRecorded event).objects ref := by
      rintro rfl
      exact hno (.inr (pending_of_pendingAssistant href))
    exact leaves_modify ref (fun message => { message with runId := event.timelineRunId }) i m hplaced hne

theorem leaves_finish (wf : stream.WellFormed) {edit : Draft → Draft} (hk : ∀ draft, Draft.Kept draft (edit draft))
    (ho : ∀ ref, stream.currentAiMsg = some ref → stream.OfRun event (stream.objects ref)) :
    stream.Leaves (stream.OfRun event) (stream.finish edit) := by
  intro i m h hno
  unfold finish
  split
  case h_1 => exact h
  case h_2 ref href =>
    have hne : m ≠ stream.objects ref := by
      rintro rfl
      exact hno (ho ref href)
    apply leaves_upsertCurrentAiMessage ref i m (leaves_editCurrent ref edit i m h hne)
    rintro ⟨hid, _⟩
    have hkept : ((stream.editCurrent ref edit).objects ref).id = (stream.objects ref).id := by
      simpa [editCurrent, modify] using (hk ⟨stream.objects ref, stream.calls⟩).id
    exact hne (wf.current ref href m (List.mem_of_getElem? h) (hid.trans hkept))

theorem Claims.leaves_editCurrent {after : Stream} {ref : ℕ} (hc : stream.Claims event after ref)
    {edit : Draft → Draft} (hk : ∀ draft, Draft.Kept draft (edit draft)) :
    stream.Leaves (stream.OfRun event) ((after.editCurrent ref edit).upsertCurrentAiMessage ref) := by
  intro i m h hno
  have hne : m ≠ after.objects ref := by
    rintro rfl
    exact hno (.inl hc.run)
  apply leaves_upsertCurrentAiMessage ref i m (Stream.leaves_editCurrent ref edit i m (hc.leaves i m h hno) hne)
  rintro ⟨hid, _⟩
  have hkept : ((after.editCurrent ref edit).objects ref).id = (after.objects ref).id := by
    simpa [editCurrent, modify] using (hk ⟨after.objects ref, after.calls⟩).id
  exact hc.id m (List.mem_of_getElem? h) hno (hid.trans hkept)

-- The profile plays no part in which message is the event's.
theorem claims_withProfile (wf : stream.WellFormed) (fresh : stream.FreshId options) (own : stream.OwnRun event)
    (hr : ¬IsReceipt event) (profile : AgentProfile) :
    let ensured := { stream with activeAgentProfile := profile }.ensureCurrent options event
    stream.Claims event ensured.1 ensured.2 := by
  have wf' : Stream.WellFormed { stream with activeAgentProfile := profile } := ⟨wf.ids, wf.current⟩
  have hc := claims_ensureCurrent wf' fresh ⟨own.run, own.message, own.ending⟩ hr
  exact ⟨hc.leaves, hc.run, hc.id⟩

theorem leaves_touch (wf : stream.WellFormed) : stream.Leaves (fun _ => False) stream.touch := by
  intro i m hm _
  unfold touch
  split
  case h_2 => exact hm
  case h_1 ref href =>
    apply leaves_upsertCurrentAiMessage ref i m hm
    rintro ⟨hid, hne⟩
    exact hne (wf.current ref href m (List.mem_of_getElem? hm) hid)

-- Only messages that the event may change are changed.
theorem leaves_applyRealtimeEventToMessages (wf : stream.WellFormed) (fresh : stream.FreshId options)
    (own : stream.OwnRun event) :
    stream.Leaves (stream.Writes event) (stream.applyRealtimeEventToMessages options event) := by
  intro i m h hno
  unfold applyRealtimeEventToMessages
  split_ifs with hskip hr hdone herror
  case pos => exact h
  case pos => exact leaves_recordUser i m h fun ht => hno (.inl ⟨hr, ht⟩)
  all_goals have ho : ¬stream.OfRun event m := fun ht => hno (.inr ⟨hr, ht⟩)
  case pos => exact leaves_finish wf (Draft.kept_settle options event _) (own.ending (.inl hdone)) i m h ho
  case pos => exact leaves_finish wf Draft.kept_fail (own.ending (.inr herror)) i m h ho
  case neg =>
    split
    case h_1 edit hedit =>
      have hc := claims_withProfile wf fresh own hr (stream.profileOf options event)
      exact hc.leaves_editCurrent (kept_editOf hedit _) i m h ho
    case h_2 => exact leaves_touch wf i m h id

@[simp] theorem currentAiMsg_upsertCurrentAiMessage (ref : ℕ) :
    (stream.upsertCurrentAiMessage ref).currentAiMsg = stream.currentAiMsg := by
  unfold upsertCurrentAiMessage
  split <;> rfl

@[simp] theorem objects_upsertCurrentAiMessage (ref : ℕ) :
    (stream.upsertCurrentAiMessage ref).objects = stream.objects := by
  unfold upsertCurrentAiMessage
  split <;> rfl

@[simp] theorem currentAiMsg_touch : stream.touch.currentAiMsg = stream.currentAiMsg := by
  unfold touch
  split <;> simp_all

@[simp] theorem objects_editCurrent_self (ref : ℕ) (edit : Draft → Draft) :
    (stream.editCurrent ref edit).objects ref = (edit ⟨stream.objects ref, stream.calls⟩).message := by
  simp [editCurrent, modify]

-- The current message stays the same, is gone after `done` and `error`, or is one of the event's run.
def Follows (stream : Stream) (event : UiEvent) (after : Stream) : Prop :=
  after.currentAiMsg = stream.currentAiMsg ∨
  (event.type = .done ∨ event.type = .error) ∧ after.currentAiMsg = none ∨
  ∃ ref, after.currentAiMsg = some ref ∧
    ((after.objects ref).runId = event.run_id ∨ (after.objects ref).runId = event.timelineRunId)

theorem follows_recordUser : stream.Follows event (stream.recordUser event) := by
  have hplaced : (stream.placeRecorded event).currentAiMsg = stream.currentAiMsg := by
    unfold placeRecorded
    split <;> rfl
  unfold recordUser
  dsimp only
  split
  case h_1 => exact .inl hplaced
  case h_2 ref _ => exact .inr (.inr ⟨ref, rfl, .inr (by simp [modify])⟩)

theorem follows_finish (edit : Draft → Draft) (h : event.type = .done ∨ event.type = .error) :
    stream.Follows event (stream.finish edit) := by
  unfold finish
  split
  case h_1 => exact .inl rfl
  case h_2 => exact .inr (.inl ⟨h, rfl⟩)

theorem follows_applyRealtimeEventToMessages (wf : stream.WellFormed) (fresh : stream.FreshId options)
    (own : stream.OwnRun event) :
    stream.Follows event (stream.applyRealtimeEventToMessages options event) := by
  unfold applyRealtimeEventToMessages
  split_ifs with hskip hr hdone herror
  case pos => exact .inl rfl
  case pos => exact follows_recordUser
  case pos => exact follows_finish _ (.inl hdone)
  case pos => exact follows_finish _ (.inr herror)
  case neg =>
    split
    case h_2 => exact .inl currentAiMsg_touch
    case h_1 edit hedit =>
      have hc := claims_withProfile wf fresh own hr (stream.profileOf options event)
      refine .inr (.inr ⟨_, currentAiMsg_upsertCurrentAiMessage _, .inl ?run⟩)
      case run =>
        simp only [write, objects_upsertCurrentAiMessage, objects_editCurrent_self]
        exact ((kept_editOf hedit _ _).runId).trans hc.run

-- Every event of the sequence finds a list of messages in which it may not change `m`.
def Spared (options : LifecycleOptions) (m : Message) : Stream → List UiEvent → Prop
  | _, []                   => True
  | stream, event :: events =>
    stream.WellFormed ∧ stream.FreshId options ∧ stream.OwnRun event ∧ ¬stream.Writes event m ∧
    Spared options m (stream.applyRealtimeEventToMessages options event) events

theorem getElem?_applyAll {i : ℕ} {m : Message} (events : List UiEvent) (h : stream.messages[i]? = some m)
    (hs : Spared options m stream events) : (stream.applyAll options events).messages[i]? = some m := by
  induction events generalizing stream
  case nil => exact h
  case cons event events hi =>
    have ⟨wf, fresh, own, hno, hrest⟩ := hs
    exact hi (leaves_applyRealtimeEventToMessages wf fresh own i m h hno) hrest

-- An event of a run changes messages of that run only and moves the stream only to that run, and however many
-- events of other runs come late, a message that they may not change stays as it is.
theorem run_isolation (stream : Stream) (options : LifecycleOptions) :
    (∀ event, stream.WellFormed → stream.FreshId options → stream.OwnRun event →
      stream.Leaves (stream.Writes event) (stream.applyRealtimeEventToMessages options event) ∧
      stream.Follows event (stream.applyRealtimeEventToMessages options event)) ∧
    ∀ (events : List UiEvent) (i : ℕ) (m : Message), stream.messages[i]? = some m →
      Spared options m stream events → (stream.applyAll options events).messages[i]? = some m :=
  ⟨fun _ wf fresh own =>
    ⟨leaves_applyRealtimeEventToMessages wf fresh own, follows_applyRealtimeEventToMessages wf fresh own⟩,
    fun events _ _ h hs => getElem?_applyAll events h hs⟩

-- Options that number the ids and let every event pass
def numberedOptions : LifecycleOptions where
  createId p n                               :=
    text (if p = .assistant then "assistant-" else "node-") ++ text (toString n)
  defaultAgentProfile                        :=
    ⟨some Message.defaultAgentName, some Message.defaultAgentAvatar, some Message.defaultAgentRoleLabel⟩
  resolveAgentProfile _ profile              := profile
  resolveArtifact _                          := none
  shouldForwardRuntimeEventToRealtimeSurface := fun _ => true
  isTodoToolRuntimePayload _                 := false
  isTodoToolRuntimeData _                    := false

-- A message that streams for the run `s`
def streamingMessage : Message :=
  { buildAssistantMessage numberedOptions ⟨none, none, none⟩ (text "a") (text "s") with
    content       := text "so far"
    uiStreamPhase := some .streaming }

def streamingSample : Stream where
  objects            := fun _ => streamingMessage
  localMessages      := [0]
  currentAiMsg       := some 0
  activeAgentProfile := ⟨none, none, none⟩
  calls              := 0

-- A late text of the run `r`
def lateText : UiEvent :=
  { type := .text_chunk, content := text "late", run_id := text "r", targets := [text "message"] }

theorem wellFormed_streamingSample : streamingSample.WellFormed where
  ids          := by simp [messages, streamingSample]
  current _ _  := by
    intro m hm _
    simpa [messages, streamingSample] using hm

theorem freshId_streamingSample : streamingSample.FreshId numberedOptions := by
  intro m hm
  have hm : m = streamingMessage := by simpa [messages, streamingSample] using hm
  rw [hm]
  decide

theorem ownRun_lateText : streamingSample.OwnRun lateText where
  run         := by decide
  message _ h := absurd rfl h
  ending h    := by cases h <;> contradiction

theorem not_writes_lateText : ¬streamingSample.Writes lateText streamingMessage := by
  rintro (⟨⟨h, _⟩, _⟩ | ⟨_, h | ⟨⟨h, _⟩, _⟩⟩)
  case inl => cases h
  case inr.inl => exact absurd h (by decide)
  case inr.inr => exact absurd h (by decide)

theorem run_isolation_sample :
    streamingSample.Follows lateText (streamingSample.applyRealtimeEventToMessages numberedOptions lateText) ∧
    (streamingSample.applyAll numberedOptions [lateText]).messages[0]? = some streamingMessage := by
  have hown := ownRun_lateText
  have hno := not_writes_lateText
  constructor
  case left =>
    exact ((run_isolation streamingSample numberedOptions).1 lateText wellFormed_streamingSample
      freshId_streamingSample hown).2
  case right =>
    exact (run_isolation streamingSample numberedOptions).2 [lateText] 0 streamingMessage rfl
      ⟨wellFormed_streamingSample, freshId_streamingSample, hown, hno, trivial⟩

-- A user's message that waits for its receipt
def sentMessage : Message :=
  { UiEvent.recorded { type := .custom_event } with id := text "local", clientMessageId := text "c" }

def receipt : UiEvent :=
  { type       := .custom_event
    name       := .message_user_recorded
    run_id     := text "r"
    message_id := text "u"
    targets    := [text "message"]
    data       := { clientMessageId := text "c", content := text "hello" } }

-- Two messages of different runs with one id
def twin (ref : ℕ) : Message :=
  { streamingMessage with runId := text (if ref = 0 then "s" else "r") }

-- A message, and an older state of it
def earlier (ref : ℕ) : Message :=
  { streamingMessage with content := if ref = 0 then text "so far" else [] }

-- A stream with the messages of `objects`
def listing (objects : ℕ → Message) (messages : List ℕ) (current : Option ℕ) : Stream :=
  { streamingSample with objects := objects, localMessages := messages, currentAiMsg := current }

-- A receipt changes the user's message, which has no run; a late text moves the stream to its own run; of two
-- messages with one id the first is replaced; and an event of no other effect puts a current message that is not
-- listed in the place of the one with its id.
theorem run_isolation_fails :
    (sentMessage.runId = [] ∧ sentMessage.role = .user ∧
      ((listing (fun _ => sentMessage) [0] none).applyRealtimeEventToMessages numberedOptions receipt).messages[0]? ≠
        some sentMessage) ∧
    (streamingSample.applyRealtimeEventToMessages numberedOptions lateText).currentAiMsg ≠ some 0 ∧
    ((listing twin [0, 1] none).applyRealtimeEventToMessages numberedOptions lateText).messages[0]? ≠
      some (twin 0) ∧
    ((listing earlier [0] (some 1)).applyRealtimeEventToMessages numberedOptions
      { lateText with type := .custom_event }).messages[0]? ≠ some (earlier 0) := by
  decide

end SessionRealtime.Stream
