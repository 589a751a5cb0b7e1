import V8AgentOs.Neighbor.Keeping

namespace Neighbor

open Hoare (Triple)
open Python (strip take)

variable {host : TaskHost} {w : TaskWorld} {db db' : Database} {envelope : Envelope} {i : Admitted}
  {handoff : Bool} {a : Assignment} {id : String}

theorem lift_does {α β : Type} {x : Except Error α} {f : α → Tx β} {Q : β → Database → Prop}
    {E : Error → Database → Prop} (hf : ∀ a, x = .ok a → Triple (· = db) (f a) Q E) (he : ∀ e, E e db) :
    Triple (· = db) (lift x >>= f) Q E := by
  cases x
  case ok a    => exact hf a rfl
  case error e => exact .intro fun _ h => h ▸ he e

theorem lift_ok {α β : Type} {x : Except Error α} {y : α} {f : α → Tx β} {Q : β → Database → Prop}
    {E : Error → Database → Prop} (hx : x = .ok y) (hf : Triple (· = db) (f y) Q E) :
    Triple (· = db) (lift x >>= f) Q E := by
  subst hx
  exact hf

section Text

theorem strip_text (value : Python.Json) : strip (host.text value) = host.text value :=
  Python.strip_strip _

theorem hexDigest_not_space {text : String} {c : Char} (h : c ∈ (take 16 (host.sha1 text)).toList) :
    ¬Python.isSpace c := by
  rw [take, String.toList_ofList] at h
  have hs : "0123456789abcdef".toList.Forall fun c => ¬Python.isSpace c := by decide
  exact List.forall_iff_forall_mem.mp hs c (host.hexDigest text c (List.mem_of_mem_take h))

theorem strip_hexDigest {head text : String} (h : head.toList.Forall fun c => ¬Python.isSpace c) :
    strip (head ++ take 16 (host.sha1 text)) = head ++ take 16 (host.sha1 text) := by
  apply Python.strip_eq_self
  intro c hc
  rw [String.toList_append] at hc
  cases List.mem_append.mp hc
  case inl hc => exact List.forall_iff_forall_mem.mp h c hc
  case inr hc => exact hexDigest_not_space hc

theorem byId_of_strip {α : Type} {find : String → Option α} (h : strip id = id) (hn : id ≠ "") :
    Database.byId find id = find id := by
  unfold Database.byId
  rw [h, if_pos hn]

theorem byId_some {α : Type} {find : String → Option α} {x : α} (h : Database.byId find id = some x) :
    find (strip id) = some x := by
  unfold Database.byId at h
  split at h
  case isTrue  => exact h
  case isFalse => cases h

end Text

theorem require_ok {p : Prop} [Decidable p] {status : ℕ} {detail : String}
    (h : require p status detail = .ok ()) : p := by
  unfold require at h
  split at h
  case isTrue hp => exact hp
  case isFalse   => cases h

theorem found_ok {α : Type} {x : Option α} {y : α} {status : ℕ} {detail : String}
    (h : found x status detail = .ok y) : x = some y := by
  cases x
  case none   => cases h
  case some a => cases h; rfl

-- What the checks of a result establish
structure Admits (host : TaskHost) (envelope : Envelope) (db : Database) (handoff : Bool) (i : Admitted) :
    Prop where
  link       : db.getLinkByPeer envelope.fromPeerId = some i.link
  task       : db.getTask (host.text (envelope.get "taskId")) = some i.task
  assignment : db.getAssignment (host.text (envelope.get "assignmentId")) = some i.assignment
  taskId     : i.assignment.taskId = host.text (envelope.get "taskId")
  origin     : i.task.targetMode ≠ "inbound"
  status     : i.status = if handoff then "handoff_requested" else host.text (envelope.get "status")
  known      : i.known = (db.getResult i.resultId).isSome
  result     : ∀ r, db.getResult i.resultId = some r → r.status = i.status
  settled    : i.assignment.settled → i.known
  resultId   : strip i.resultId = i.resultId

theorem checkResult_ok (h : checkResult host envelope db handoff = .ok i) : Admits host envelope db handoff i := by
  have ⟨link, hl, h⟩ := Hoare.bind_ok h
  have ⟨task, ht, h⟩ := Hoare.bind_ok h
  have ⟨assignment, ha, h⟩ := Hoare.bind_ok h
  have ⟨_, hown, h⟩ := Hoare.bind_ok h
  have ⟨_, horigin, h⟩ := Hoare.bind_ok h
  have ⟨_, _, h⟩ := Hoare.bind_ok h
  have ⟨_, _, h⟩ := Hoare.bind_ok h
  have ⟨_, hr, h⟩ := Hoare.bind_ok h
  have ⟨_, hs, h⟩ := Hoare.bind_ok h
  have hi := Except.ok.inj h
  subst hi
  constructor
  case link       => exact found_ok hl
  case task       => exact found_ok ht
  case assignment => exact found_ok ha
  case taskId     => exact (require_ok hown).left
  case origin     => exact require_ok horigin
  case status     => rfl
  case known      => dsimp only
  case settled    =>
    dsimp only
    exact require_ok hs
  case result     =>
    intro r hf
    dsimp only at hf ⊢
    have hr := require_ok hr
    rw [hf] at hr
    simp only [Option.all_some, Bool.and_eq_true, decide_eq_true_eq] at hr
    exact hr.left.right
  case resultId   =>
    dsimp only
    unfold orElse
    split
    case isTrue  => exact strip_text _
    case isFalse => exact strip_hexDigest (by decide)

theorem Admits.task? (hi : Admits host envelope db handoff i) :
    db.task? (host.text (envelope.get "taskId")) = some i.task := by
  have ht := byId_some hi.task
  rwa [strip_text] at ht

theorem Admits.originates (hi : Admits host envelope db handoff i) : db.originates i.assignment := by
  simp [Database.originates, hi.taskId, hi.task?, hi.origin]

theorem Admits.delivery (hi : Admits host envelope db handoff i) :
    (resultDelivery host w envelope handoff i).Originates db := by
  intro r hr
  have hr : resultSeed host envelope handoff i = r := Option.some.inj hr
  subst hr
  exact ⟨i.task, hi.task?, hi.origin⟩

-- The stored result of an assignment with a final one
theorem Admits.late (hi : Admits host envelope db true i) (hs : db.Sound) (h : i.assignment.settled) : i.late := by
  have hk := hi.settled h
  have hm := List.mem_of_find?_eq_some (byId_some hi.assignment)
  have ⟨id, r, hid, hr, hst⟩ := hs.settled _ hm hi.originates h
  have ht : terminalStatuses.contains i.assignment.status := (Bool.and_eq_true _ _ ▸ h).left
  unfold Admitted.late
  simp only [hk, ht, hid, Bool.true_and, decide_eq_true_eq, ne_eq, Option.some.injEq]
  intro he
  subst he
  have hf : (db.getResult i.resultId).isSome := hi.known ▸ hk
  have ⟨r', hr'⟩ := Option.isSome_iff_exists.mp hf
  have hr'' := byId_some hr'
  rw [hi.resultId] at hr''
  cases hr.symm.trans hr''
  have hh : i.assignment.status = "handoff_requested" := by rw [← hst, hi.result r hr', hi.status]; rfl
  rw [hh] at ht
  exact absurd ht (by decide)

-- What a result or a handoff request leaves behind
inductive Receives (host : TaskHost) (w : TaskWorld) (envelope : Envelope) (handoff : Bool) (db : Database) :
    Ack → Database → Prop
  | late {i : Admitted} :
    checkResult host envelope db handoff = .ok i → i.late → w.sign "neighbor.task.ack" = .ok () →
    Receives host w envelope handoff db (resultAck host envelope i "duplicate") db
  | taken {ack : Ack} {t : Database} :
    Safe db t →
    (handoff → ∀ a, t.getAssignment (host.text (envelope.get "assignmentId")) = some a → ¬a.settled) →
    Receives host w envelope handoff db ack t

theorem recompute_assignments {taskId now : String} :
    (db.recomputeTaskStatus taskId now).assignments = db.assignments := by
  unfold Database.recomputeTaskStatus
  dsimp only
  split
  case isTrue => rfl
  split
  case isTrue =>
    split
    case isTrue => rfl
    split
    case isTrue  => rfl
    case isFalse => rfl
  split
  case isTrue  => rfl
  case isFalse => rfl

theorem getAssignment_congr (h : db'.assignments = db.assignments) (ha : db'.getAssignment id = some a) :
    db.getAssignment id = some a := by
  unfold Database.getAssignment Database.assignment? at ha
  rw [h] at ha
  exact ha

-- The assignment of a handoff that was just taken in
theorem handoff_unsettled {d : Delivery} {r : Receipt} {world : World} (hi : Admits host envelope db true i)
    (hd : d = resultDelivery host w envelope true i) (h : Accepts host.toHost world db d r db')
    (ha : db'.getAssignment (host.text (envelope.get "assignmentId")) = some a) : ¬a.settled := by
  have ⟨mid, h₁, h₂⟩ := h.effect
  have hr : d.result = some (resultSeed host envelope true i) := by rw [hd]; rfl
  have hf := byId_some ha
  rw [strip_text] at hf
  have hm := List.mem_of_find?_eq_some hf
  have hid : a.id = host.text (envelope.get "assignmentId") := by simpa using List.find?_some hf
  rw [h₂.assignments _ hr] at hm
  have ⟨b, _, he⟩ := List.mem_map.mp hm
  split at he
  case isTrue =>
    subst he
    apply Assignment.not_settled_of_status
    show ¬terminalStatuses.contains i.status
    rw [hi.status, if_pos rfl]
    decide
  case isFalse hne =>
    subst he
    exact (hne hid).elim

theorem storeInboundResult_does (hs : db.Sound) :
    Triple (· = db) (storeInboundResult host w envelope handoff) (Receives host w envelope handoff db)
      fun _ t => Safe db t := by
  apply Triple.read
  apply lift_does
  case he => exact fun _ => .refl hs
  intro i hi
  have ha := checkResult_ok hi
  apply Triple.ite
  case hx =>
    intro hl
    apply lift_does
    case he => exact fun _ => .refl hs
    exact fun _ hs => .done (.late hi hl hs)
  case hy =>
    intro hl
    apply Triple.chain (Q := fun r t => Repeats host.toHost db (resultDelivery host w envelope handoff i) r t ∨
      Accepts host.toHost w.toWorld db (resultDelivery host w envelope handoff i) r t)
    case hx =>
      refine receiveMessage_does.conseq (fun _ h => h) (fun _ _ h => h) fun _ t h => ?_
      subst h
      exact .refl hs
    intro r t hr
    apply Triple.update
    cases hr
    case inl hr =>
      rw [if_pos hr.duplicate]
      cases hr.unchanged
      apply lift_does
      case he => exact fun _ => .refl hs
      refine fun _ _ => .done (.taken (.refl hs) ?_)
      intro hh b hb
      subst hh
      cases ha.assignment.symm.trans hb
      exact fun hset => hl (ha.late hs hset)
    case inr hr =>
      rw [if_neg (by rw [hr.new]; exact Bool.false_ne_true)]
      have hsafe := Safe.of_accepts hs ha.delivery hr
      have hsafe' : Safe db (t.recomputeTaskStatus (host.text (envelope.get "taskId")) w.now) :=
        hsafe.trans (.recomputeTaskStatus hsafe.sound)
      apply lift_does
      case he => exact fun _ => hsafe'
      refine fun _ _ => .done (.taken hsafe' ?_)
      intro hh b hb
      subst hh
      apply handoff_unsettled ha rfl hr
      exact getAssignment_congr recompute_assignments hb

end Neighbor
