import V8AgentOs.Neighbor.Results

namespace Neighbor

open Hoare (Triple)
open Python (strip)

variable {host : TaskHost} {w : TaskWorld} {db db' db'' : Database} {envelope : Envelope} {b : Batch}
  {caller : Option String} {devices : List Device} {d : Dispatch} {a : Assignment} {link : Link} {task : Task}

-- New assignments, which have no result
structure Opens (db db' : Database) : Prop where
  safe        : Safe db db'
  assignments : ∃ new, db'.assignments = db.assignments ++ new ∧ ∀ a ∈ new, a.resultId = none

namespace Opens

theorem refl (hs : db.Sound) : Opens db db :=
  ⟨.refl hs, [], by simp⟩

theorem trans (h₁ : Opens db db') (h₂ : Opens db' db'') : Opens db db'' := by
  have ⟨l, hl, hn⟩ := h₁.assignments
  have ⟨l', hl', hn'⟩ := h₂.assignments
  refine ⟨h₁.safe.trans h₂.safe, l ++ l', by rw [hl', hl, List.append_assoc], ?_⟩
  intro a ha
  cases List.mem_append.mp ha
  case inl ha => exact hn a ha
  case inr ha => exact hn' a ha

theorem recompute {taskId now : String} (hs : db.Sound) : Opens db (db.recomputeTaskStatus taskId now) :=
  ⟨.recomputeTaskStatus hs, [], by simp [recompute_assignments]⟩

-- An assignment without a final result is still without one.
theorem unsettled (h : Opens db db') (hs : db.Sound) (ha : a ∈ db.assignments) (hn : ¬a.settled) :
    ∀ c ∈ db'.assignments, c.id = a.id → ¬c.settled := by
  intro c hc hid
  have ⟨new, he, hnew⟩ := h.assignments
  rw [he] at hc
  cases List.mem_append.mp hc
  case inl hc =>
    cases List.inj_on_of_nodup_map hs.ids hc ha hid
    exact hn
  case inr hc => exact Assignment.not_settled (hnew c hc)

end Opens

theorem dispatchNext_does (hs : db.Sound) :
    Triple (· = db) (dispatchNext host w b caller devices)
      (fun p t => Opens db t ∧ ∀ q ∈ p, q.caller = caller ∧ q.rest.length < devices.length)
      fun _ t => Opens db t := by
  induction devices
  case nil =>
    unfold dispatchNext
    apply Triple.update
    exact .done ⟨.recompute hs, by simp⟩
  case cons device rest hi =>
    have send (t : Database) (ht : Opens db t) (id : String) :
        Triple (· = t) (do lift (w.sign "neighbor.task.assign"); return some (Sending.mk b id rest caller))
          (fun p t => Opens db t ∧ ∀ q ∈ p, q.caller = caller ∧ q.rest.length < (device :: rest).length)
          fun _ t => Opens db t := by
      apply lift_does
      case he => exact fun _ => ht
      exact fun _ _ => .done ⟨ht, by simp⟩
    unfold dispatchNext
    refine Triple.read ?_
    split
    case h_1 prior _ =>
      apply Triple.ite
      case hy => exact fun _ => send db (.refl hs) _
      case hx =>
        intro _
        refine hi.conseq (fun _ h => h) (fun p t h => ⟨h.left, fun q hq => ?_⟩) fun _ _ h => h
        have ⟨hc, hl⟩ := h.right q hq
        exact ⟨hc, Nat.lt_succ_of_lt hl⟩
    case h_2 =>
      apply Triple.chain (Q := fun _ t => Opens db t)
      case hf => exact fun _ t ht => send t ht _
      case hx =>
        refine insertAssignment_exact.conseq (fun _ h => h) (fun _ t h => ?_) fun _ t h => ?_
        case refine_2 =>
          subst h
          exact .refl hs
        case refine_1 =>
          have ⟨hn, htask, ht⟩ := h
          subst ht
          exact ⟨.insertAssignment hs hn htask (Assignment.not_settled rfl), _, rfl, by simp [Batch.row]⟩

theorem dispatchTask_does (hs : db.Sound) :
    Triple (· = db) (dispatchTask host w d caller)
      (fun p t => Opens db t ∧ ∀ q ∈ p, q.caller = caller ∧
        ∃ b selected, plan host w d db = .ok (b, selected) ∧ q.rest.length < selected.length)
      fun _ t => Opens db t := by
  refine Triple.read ?_
  refine lift_does (fun p hp => ?_) fun _ => .refl hs
  refine Triple.read ?_
  have go (t : Database) (ht : Opens db t) :
      Triple (· = t) (dispatchNext host w p.1 caller p.2)
        (fun q t => Opens db t ∧ ∀ s ∈ q, s.caller = caller ∧
          ∃ b selected, plan host w d db = .ok (b, selected) ∧ s.rest.length < selected.length)
        fun _ t => Opens db t := by
    refine (dispatchNext_does ht.safe.sound).conseq (fun _ h => h) (fun q u h => ?_) fun _ u h => ht.trans h
    refine ⟨ht.trans h.left, fun s hsq => ?_⟩
    have ⟨hc, hl⟩ := h.right s hsq
    exact ⟨hc, p.1, p.2, hp, hl⟩
  split
  case isFalse => exact go db (.refl hs)
  case isTrue =>
    refine Triple.chain (Q := fun _ t => Opens db t) ?_ fun _ t ht => go t ht
    refine insertTask_exact.conseq (fun _ h => h) (fun _ t h => ?_) fun _ t h => ?_
    case refine_1 =>
      subst h
      exact ⟨.insertTask hs, [], by simp⟩
    case refine_2 =>
      subst h
      exact .refl hs

theorem selectLinks_auto {capabilities : List String} {l : List Device × String} (ha : d.target = "auto")
    (hl : d.linkIds = []) (hm : d.maxAssignments = 1) (h : selectLinks host w d capabilities = .ok l) :
    l.1.length ≤ 1 := by
  have hlow : host.lower (strip d.target) = "auto" := by
    have hc : "auto".toList.Forall fun c => 'a' ≤ c ∧ c ≤ 'z' := by decide
    rw [ha]
    exact host.lowerCase "auto" (List.forall_iff_forall_mem.mp hc)
  unfold selectLinks at h
  dsimp only at h
  rw [hl, hlow, hm] at h
  simp only [List.map_nil, List.filter_nil, List.isEmpty_nil, Bool.not_true, Bool.false_eq_true, if_false] at h
  split at h
  case isTrue  => cases h
  case isFalse =>
    rw [if_neg (by decide)] at h
    cases h
    exact (List.length_take_le _ _).trans (Nat.le_refl 1)

-- What the checks of a dispatch establish
structure Plans (host : TaskHost) (w : TaskWorld) (d : Dispatch) (b : Batch) (selected : List Device) : Prop where
  taskId   : b.taskId = orElse (strip d.taskId) ("ntask_" ++ w.uuid)
  selected : ∃ capabilities l, selectLinks host w d capabilities = .ok l ∧ l.1 = selected

theorem plan_ok {selected : List Device} (h : plan host w d db = .ok (b, selected)) : Plans host w d b selected := by
  have ⟨_, _, h⟩ := Hoare.bind_ok h
  have ⟨l, hl, h⟩ := Hoare.bind_ok h
  have ⟨_, _, h⟩ := Hoare.bind_ok h
  have ⟨hb, hs⟩ := Prod.mk.inj (Except.ok.inj h)
  exact ⟨congrArg Batch.taskId hb.symm, _, l, hl, hs⟩

-- A handoff is dispatched to one device at most.
theorem plan_handoff {selected : List Device}
    (h : plan host w (handoffDispatch host envelope task a link) db = .ok (b, selected)) : selected.length ≤ 1 := by
  have ⟨_, l, hl, hs⟩ := (plan_ok h).selected
  subst hs
  exact selectLinks_auto rfl rfl rfl hl

section Refused

-- A message has to be sent to the device: there is no assignment yet, or one that may be sent again.
def Batch.due (host : TaskHost) (b : Batch) (db : Database) (device : Device) : Bool :=
  (db.getAssignment (b.childId host device)).all fun prior => prior.status = "failed" || prior.status = "queued"

-- The dispatch is refused: a check of the task or of the devices fails, or the first message cannot be
-- built or recorded.
def Dispatch.refused (host : TaskHost) (w : TaskWorld) (d : Dispatch) (db : Database) : Bool :=
  match plan host w d db with
  | .error _          => true
  | .ok (b, selected) => (selected.find? (b.due host db)).any fun device =>
    !(w.sign "neighbor.task.assign").isOk ||
      ((db.getAssignment (b.childId host device)).isNone && (db.link? device.linkId).isNone)

theorem insertAssignment_goes (hn : db.assignment? a.id = none) (ht : (db.task? a.taskId).isSome)
    (hl : (db.link? a.linkId).isSome) :
    Triple (· = db) (insertAssignment a) (fun _ _ => True) fun _ _ => False := by
  apply Triple.read
  have ha : db.assignments.any (·.id = a.id) = false := by
    simpa [Database.assignment?] using hn
  rw [if_neg (by simp [ha, ht, hl])]
  exact .modify fun _ _ => trivial

theorem dispatchNext_goes (hb : (db.task? b.taskId).isSome)
    (h : ¬(devices.find? (b.due host db)).any fun device => !(w.sign "neighbor.task.assign").isOk ||
      ((db.getAssignment (b.childId host device)).isNone && (db.link? device.linkId).isNone)) :
    Triple (· = db) (dispatchNext host w b caller devices) (fun _ _ => True) fun _ _ => False := by
  induction devices
  case nil =>
    unfold dispatchNext
    apply Triple.update
    exact .done trivial
  case cons device rest hi =>
    have send (t : Database) (id : String) (hsign : (w.sign "neighbor.task.assign").isOk) :
        Triple (· = t) (do lift (w.sign "neighbor.task.assign"); return some (Sending.mk b id rest caller))
          (fun _ _ => True) fun _ _ => False := by
      cases hw : w.sign "neighbor.task.assign"
      case ok      => exact .done trivial
      case error e => simp [hw, Except.isOk, Except.toBool] at hsign
    rw [List.find?_cons] at h
    unfold dispatchNext
    refine Triple.read ?_
    split
    case h_1 prior hp =>
      split
      case isTrue hd =>
        have hdue : b.due host db device = false := by simp [Batch.due, hp, hd.left, hd.right]
        rw [hdue] at h
        exact hi h
      case isFalse hd =>
        have hdue : b.due host db device = true := by simpa [Batch.due, hp, imp_iff_not_or] using hd
        rw [hdue] at h
        simp only [Option.any_some, Bool.or_eq_true, not_or, Bool.not_eq_true', Bool.not_eq_false] at h
        exact send db _ h.left
    case h_2 hp =>
      have hdue : b.due host db device = true := by simp [Batch.due, hp]
      rw [hdue] at h
      simp only [Option.any_some, Bool.or_eq_true, not_or, Bool.not_eq_true', Bool.not_eq_false, hp,
        Option.isNone_none, Bool.true_and] at h
      refine Triple.chain (Q := fun _ _ => True) ?_ fun _ t _ => send t _ h.left
      apply insertAssignment_goes
      case ht => exact hb
      case hl =>
        show (db.link? device.linkId).isSome
        simpa [Option.isSome_iff_ne_none] using h.right
      case hn =>
        have hs : strip (b.childId host device) = b.childId host device := strip_hexDigest (by decide)
        have hne : b.childId host device ≠ "" := by
          intro he
          have := congrArg String.length he
          simp [Batch.childId, TaskHost.assignmentId] at this
        rw [Database.getAssignment, byId_of_strip hs hne] at hp
        exact hp

theorem dispatchTask_goes (h : ¬d.refused host w db)
    (ht : ∀ b selected, plan host w d db = .ok (b, selected) →
      (db.getTask b.taskId).isSome ∧ (db.task? b.taskId).isSome) :
    Triple (· = db) (dispatchTask host w d caller) (fun _ _ => True) fun _ _ => False := by
  unfold Dispatch.refused at h
  cases hp : plan host w d db
  case error e => simp [hp] at h
  case ok p =>
    rw [hp] at h
    have ⟨hg, ht⟩ := ht p.1 p.2 hp
    refine Triple.read ?_
    refine lift_ok hp ?_
    refine Triple.read ?_
    split
    case isTrue hn => simp [Option.isNone_iff_eq_none.mp hn] at hg
    case isFalse   => exact dispatchNext_goes ht h

theorem getTask_id {id : String} (ht : db.getTask id = some task) : strip task.id = task.id ∧ task.id ≠ "" := by
  have hf := byId_some ht
  have hid : task.id = strip id := by simpa using List.find?_some hf
  have hne : strip id ≠ "" := by
    unfold Database.getTask Database.byId at ht
    split at ht
    case isTrue hn => exact hn
    case isFalse   => cases ht
  exact ⟨by rw [hid, Python.strip_strip], hid ▸ hne⟩

-- The task of a handoff is there already.
theorem handoff_task {selected : List Device} (ht : db.getTask a.taskId = some task)
    (h : plan host w (handoffDispatch host envelope task a link) db = .ok (b, selected)) :
    (db.getTask b.taskId).isSome ∧ (db.task? b.taskId).isSome := by
  have ⟨hs, hne⟩ := getTask_id ht
  have hf : db.task? task.id = some task := by
    have hf := byId_some ht
    have hid : task.id = strip a.taskId := by simpa using List.find?_some hf
    rw [hid]
    exact hf
  have he : orElse (strip task.id) ("ntask_" ++ w.uuid) = task.id := by
    rw [hs, orElse, if_pos hne]
  have hb : b.taskId = task.id := (plan_ok h).taskId.trans he
  rw [hb, Database.getTask, byId_of_strip hs hne, hf]
  exact ⟨rfl, rfl⟩

end Refused

section FollowUp

-- The `except` writes to an assignment without a final result, or is not reached.
theorem catching_safe {x : Tx (Option Sending)} {R : Option Sending → Prop} (hs : db.Sound)
    (ha : a ∈ db.assignments)
    (hx : Triple (· = db) x (fun p t => Opens db t ∧ R p) fun _ t => Opens db t)
    (hg : a.settled → Triple (· = db) x (fun _ _ => True) fun _ _ => False) (hn : R none) :
    Triple (· = db) (catching host w (some a.id) x) (fun p t => Safe db t ∧ R p) fun _ t => Safe db t := by
  have hx' : Triple (· = db) x (fun p t => Safe db t ∧ R p) fun _ t => Opens db t ∧ ¬a.settled := by
    apply Triple.intro
    intro s h
    cases hr : x s
    case ok p t    =>
      have ht := hx.ok h hr
      exact ⟨ht.left.safe, ht.right⟩
    case error e t => exact ⟨hx.error h hr, fun hset => (hg hset).error h hr⟩
  refine Triple.tryCatch hx' fun e => ?_
  apply Triple.assume
  intro t ht
  apply Triple.update
  refine .done ⟨ht.left.safe.trans ?_, hn⟩
  apply Safe.update ht.left.safe.sound
  intro c hc hid _
  exact .inr ⟨ht.left.unsettled hs ha ht.right c hc hid, by decide⟩

-- A handoff would take the final status of an assignment away: nobody may dispatch it here, or the
-- dispatch is refused.
def demotes (host : TaskHost) (w : TaskWorld) (envelope : Envelope) (db : Database) (a : Assignment)
    (link : Link) : Bool :=
  strip (orElse link.localRole "primary") ≠ "primary" || 1 ≤ a.depth ||
    (db.getTask a.taskId).any fun task => (handoffDispatch host envelope task a link).refused host w db

-- The dispatch of a handoff, with the `except` around it
theorem handoff_does (hs : db.Sound) (hm : a ∈ db.assignments) (ht : db.getTask a.taskId = some task)
    (h : a.settled → ¬(handoffDispatch host envelope task a link).refused host w db) :
    Triple (· = db)
      (catching host w (some a.id) (dispatchTask host w (handoffDispatch host envelope task a link) (some a.id)))
      (fun p t => Safe db t ∧ ∀ q ∈ p, q.caller.isSome → q.rest = []) fun _ t => Safe db t := by
  apply catching_safe hs hm
  case hn => simp
  case hg =>
    intro hset
    exact dispatchTask_goes (h hset) fun b selected hp => handoff_task ht hp
  case hx =>
    apply (dispatchTask_does hs).conseq
    case hp => exact fun _ h => h
    case he => exact fun _ _ h => h
    case hq =>
      intro p t hp
      refine ⟨hp.left, fun q hq _ => ?_⟩
      have ⟨_, b, selected, hp, hlt⟩ := hp.right q hq
      exact List.length_eq_zero_iff.mp (Nat.lt_one_iff.mp (hlt.trans_le (plan_handoff hp)))

theorem followUp_does (hs : db.Sound) (h : ∀ a link,
      db.getAssignment (host.text (envelope.get "assignmentId")) = some a →
      db.getLinkByPeer envelope.fromPeerId = some link → a.settled → ¬demotes host w envelope db a link) :
    Triple (· = db) (followUp host w envelope)
      (fun p t => Safe db t ∧ ∀ q ∈ p, q.caller.isSome → q.rest = []) fun _ t => Safe db t := by
  refine Triple.read ?_
  split
  case h_2 => exact .done ⟨.refl hs, by simp⟩
  case h_1 a link ha hl =>
    have hm := List.mem_of_find?_eq_some (byId_some ha)
    have hd := h a link ha hl
    unfold demotes at hd
    simp only [Bool.or_eq_true, decide_eq_true_eq, not_or] at hd
    split
    case isTrue hc =>
      have hn : ¬a.settled := fun hset => hc.elim (hd hset).left.left (hd hset).left.right
      apply Triple.write
      refine .done ⟨.update hs ?_, by simp⟩
      intro c hc' hid _
      cases List.inj_on_of_nodup_map hs.ids hc' hm hid
      exact .inr ⟨hn, by decide⟩
    case isFalse =>
      split
      case h_2 => exact .done ⟨.refl hs, by simp⟩
      case h_1 task ht =>
        exact handoff_does hs hm ht fun hset => by simpa [ht] using (hd hset).right

end FollowUp

end Neighbor
