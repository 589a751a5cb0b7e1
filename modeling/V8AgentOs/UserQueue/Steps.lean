import V8AgentOs.UserQueue.Queue

-- What a step makes of the messages of the queue
namespace UserQueue

open Python (Dict)

variable {s t : State} {e : Event} {m m' r : Message} {rows : List Message} {queue queue' : Queue} {call : Option Call}
  {id reason now : String} {pid : ℕ} {change : Change}

-- What is written to the metadata of a message
def writesOf (writes : List (String × Dict)) (id : String) : List Dict :=
  writes.filterMap fun w => if w.1 = id then some w.2 else none

-- The step hands the message out, or not.
def Event.Hands (e : Event) (id : String) : Prop :=
  e.handed.map (·.1) = some id

instance : Decidable (e.Hands id) :=
  inferInstanceAs (Decidable (_ = _))

inductive Moves (s : State) (e : Event) (m : Message) : Message → Prop
  | same (handed : ¬e.Hands m.id) (writes : writesOf e.writes m.id = []) : Moves s e m m
  | taken {pid : ℕ} {row : Message} {runId now : String} (action : e.action = .take pid)
    (reads : s.calls pid = some (.claiming row runId now)) (id : row.id = m.id) (handed : e.Hands m.id)
    (writes : writesOf e.writes m.id = []) : Moves s e m (m.consume runId now)
  | putBack {pid : ℕ} {rows : List Message} {r : Message} {reason now : String} (action : e.action = .putBack pid)
    (reads : s.calls pid = some (.requeuing rows reason now)) (mem : r ∈ rows) (id : r.id = m.id)
    (handed : ¬e.Hands m.id) (writes : writesOf e.writes m.id = requeueUpdates reason now) :
    Moves s e m (m.requeue r.metadata reason now)
  | changed {pid : ℕ} {change : Change} {existing : Message} {now : String} (action : e.action = .write pid)
    (reads : s.calls pid = some (.updating m.id change existing now)) (handed : ¬e.Hands m.id)
    (writes : writesOf e.writes m.id = [change.updates]) : Moves s e m (m.change change existing.metadata now)

-- What a call has read is there.
def CallOk (queue : Queue) : Call → Prop
  | .claiming row _ _     => (queue.get? row.id).isSome
  | .requeuing rows _ _   => (rows.map (·.id)).Nodup ∧ ∀ r ∈ rows, (queue.get? r.id).isSome
  | .checked _ _          => True
  | .updating _ _ _ _     => True

def Valid (s : State) : Prop :=
  ∀ pid call, s.calls pid = some call → CallOk s.queue call

theorem get?_requeueItems (hn : (rows.map (·.id)).Nodup) : (requeueItems queue rows reason now).get? id =
    (queue.get? id).map fun m => ((rows.find? (·.id = id)).map fun r => m.requeue r.metadata reason now).getD m := by
  induction rows generalizing queue
  case nil => exact Option.map_id_apply.symm
  case cons r rows hi =>
    have ⟨hr, hn⟩ := List.nodup_cons.mp hn
    have hrest : (requeueItems (requeueItem queue r reason now) rows reason now).get? id = _ := hi hn
    refine hrest.trans ?_
    rw [get?_requeueItem]
    cases hm : queue.get? id
    case none => rfl
    case some m =>
      have hid : m.id = id := Table.key_of_get? hm
      simp only [Option.map_some]
      by_cases hr' : r.id = id
      case neg => simp [hid, Ne.symm hr', hr']
      case pos =>
        have hnone : rows.find? (·.id = id) = none := by
          apply List.find?_eq_none.mpr
          intro c hc hcid
          exact hr (List.mem_map.mpr ⟨c, hc, (of_decide_eq_true hcid).trans hr'.symm⟩)
        simp [hid, hr', hnone]

theorem writesOf_requeue (hn : (rows.map (·.id)).Nodup) :
    writesOf (rows.flatMap fun r => (requeueUpdates reason now).map fun d => (r.id, d)) id =
      if (rows.find? (·.id = id)).isSome then requeueUpdates reason now else [] := by
  induction rows
  case nil => rfl
  case cons r rows hi =>
    have ⟨hr, hn⟩ := List.nodup_cons.mp hn
    have hrest := hi hn
    simp only [writesOf, List.flatMap_cons, List.filterMap_append] at hrest ⊢
    rw [hrest]
    by_cases hid : r.id = id
    case neg => simp [hid, requeueUpdates]
    case pos =>
      have hnone : rows.find? (·.id = id) = none := by
        apply List.find?_eq_none.mpr
        intro c hc hcid
        exact hr (List.mem_map.mpr ⟨c, hc, (of_decide_eq_true hcid).trans hid.symm⟩)
      simp [hid, hnone, requeueUpdates]

theorem start_eq (h : s.start pid call = some t) : t = s.setCall pid call := by
  unfold State.start at h
  split at h
  case h_1 => cases h; rfl
  case h_2 => cases h

-- A step that does not touch the queue
theorem moves_same (hq : t.queue = s.queue) (hm : s.queue.get? id = some m) (hh : e.handed = none)
    (hw : e.writes = []) : ∃ m', t.queue.get? id = some m' ∧ Moves s e m m' := by
  refine ⟨m, hq ▸ hm, .same ?_ ?_⟩
  case _ => simp [Event.Hands, hh]
  case _ => simp [writesOf, hw]

theorem moves_take (hm : s.queue.get? id = some m) (haction : e.action = .take pid)
    (hhanded : e.handed = s.handed e.action) (hwrites : e.writes = s.writes e.action) {c : Call}
    (hc : s.calls pid = some c) (hs : s.take pid c = some t) : ∃ m', t.queue.get? id = some m' ∧ Moves s e m m' := by
  have hid : m.id = id := Table.key_of_get? hm
  have hw : writesOf e.writes m.id = [] := by rw [hwrites, haction]; rfl
  cases c
  case claiming row runId now =>
    cases hs
    have hhanded : e.handed = some (row.id, runId) := by rw [hhanded, haction]; simp [State.handed, hc]
    refine ⟨_, get?_consumeItem.trans (congrArg _ hm), ?_⟩
    simp only
    by_cases hr : m.id = row.id
    case pos =>
      rw [if_pos hr]
      exact .taken haction hc hr.symm (by simp [Event.Hands, hhanded, hr]) hw
    case neg =>
      rw [if_neg hr]
      exact .same (by simp [Event.Hands, hhanded, Ne.symm hr]) hw
  all_goals cases hs

theorem moves_putBack (hm : s.queue.get? id = some m) (hv : Valid s) (haction : e.action = .putBack pid)
    (hhanded : e.handed = s.handed e.action) (hwrites : e.writes = s.writes e.action) {c : Call}
    (hc : s.calls pid = some c) (hs : s.putBack pid c = some t) :
    ∃ m', t.queue.get? id = some m' ∧ Moves s e m m' := by
  have hid : m.id = id := Table.key_of_get? hm
  have hh : ¬e.Hands m.id := by
    rw [Event.Hands, hhanded, haction]
    exact fun h => by cases h
  cases c
  case requeuing rows reason now =>
    cases hs
    have hn : (rows.map (·.id)).Nodup := (hv pid _ hc).left
    have hw : writesOf e.writes m.id =
        if (rows.find? (·.id = m.id)).isSome then requeueUpdates reason now else [] := by
      rw [hwrites, haction]
      simp only [State.writes, hc]
      exact writesOf_requeue hn
    refine ⟨_, (get?_requeueItems hn).trans (congrArg _ hm), ?_⟩
    simp only
    rw [← hid]
    cases hr : rows.find? (·.id = m.id)
    case none => exact .same hh (by rw [hw, hr]; rfl)
    case some r =>
      have hrid : r.id = m.id := by simpa using List.find?_some hr
      exact .putBack haction hc (List.mem_of_find?_eq_some hr) hrid hh (by rw [hw, hr]; rfl)
  all_goals cases hs

theorem moves_write (hm : s.queue.get? id = some m) (haction : e.action = .write pid)
    (hhanded : e.handed = s.handed e.action) (hwrites : e.writes = s.writes e.action) {c : Call}
    (hc : s.calls pid = some c) (hs : s.write pid c = some t) :
    ∃ m', t.queue.get? id = some m' ∧ Moves s e m m' := by
  have hid : m.id = id := Table.key_of_get? hm
  have hh : ¬e.Hands m.id := by
    rw [Event.Hands, hhanded, haction]
    exact fun h => by cases h
  cases c
  case updating queueId change existing now =>
    cases hs
    have hw : e.writes = if (s.queue.get? queueId).isSome then [(queueId, change.updates)] else [] := by
      rw [hwrites, haction]
      simp only [State.writes, hc]
    refine ⟨_, get?_changeItem.trans (congrArg _ hm), ?_⟩
    simp only
    split
    case isTrue hq =>
      subst hq
      refine .changed haction hc hh ?_
      rw [hw, hid, hm]
      simp [writesOf]
    case isFalse hq =>
      refine .same hh ?_
      rw [hw]
      split
      case isTrue  => simp [writesOf, Ne.symm hq]
      case isFalse => rfl
  all_goals cases hs

theorem addItem_eq {a : Submission} (h : addItem queue a now = some queue') : (queue' = queue ∧
      (existing queue a.sessionId (normalizedClientMessageId a.clientMessageId)).isSome) ∨
    (existing queue a.sessionId (normalizedClientMessageId a.clientMessageId) = none ∧
      queue.insert? (a.message queue now) = some queue') := by
  unfold addItem at h
  split at h
  case h_1 he => cases h; exact .inl ⟨rfl, by rw [he]; rfl⟩
  case h_2 he => exact .inr ⟨he, h⟩

-- What becomes of a message in a step
theorem moves_of_step (hv : Valid s) (hs : system.step s e t) (hm : s.queue.get? id = some m) :
    ∃ m', t.queue.get? id = some m' ∧ Moves s e m m' := by
  obtain ⟨hhanded, hwrites, hstep⟩ := hs
  have hid : m.id = id := Table.key_of_get? hm
  cases haction : e.action
  all_goals rw [haction] at hstep
  case take pid =>
    obtain ⟨c, hc, hstep⟩ := Option.bind_eq_some_iff.mp hstep
    exact moves_take hm haction hhanded hwrites hc hstep
  case putBack pid =>
    obtain ⟨c, hc, hstep⟩ := Option.bind_eq_some_iff.mp hstep
    exact moves_putBack hm hv haction hhanded hwrites hc hstep
  case write pid =>
    obtain ⟨c, hc, hstep⟩ := Option.bind_eq_some_iff.mp hstep
    exact moves_write hm haction hhanded hwrites hc hstep
  all_goals have hh : e.handed = none := by rw [hhanded, haction]; rfl
  case add a now =>
    obtain ⟨queue', hadd, ht⟩ := Option.map_eq_some_iff.mp hstep
    subst ht
    cases addItem_eq hadd
    case inl h =>
      obtain ⟨c, hc⟩ := Option.isSome_iff_exists.mp h.right
      refine moves_same h.left hm hh ?_
      rw [hwrites, haction]
      simp [State.writes, hc]
    case inr h =>
      have ha : a.queueId ≠ id := by
        intro ha
        have hnone : s.queue.get? a.queueId = none := Table.get?_none_of_insert h.right
        rw [ha, hm] at hnone
        cases hnone
      refine ⟨m, ?_, .same (by simp [Event.Hands, hh]) ?_⟩
      case refine_1 =>
        rw [Table.get?_insert h.right]
        exact (if_neg ha).trans hm
      case refine_2 =>
        rw [hwrites, haction]
        simp [State.writes, h.left, writesOf, hid, ha]
  all_goals have hw : e.writes = [] := by rw [hwrites, haction]; rfl
  case claim   => rw [start_eq hstep]; exact moves_same rfl hm hh hw
  case requeue => rw [start_eq hstep]; exact moves_same rfl hm hh hw
  case check   => rw [start_eq hstep]; exact moves_same rfl hm hh hw
  case crash   => cases hstep; exact moves_same rfl hm hh hw
  case read pid now =>
    obtain ⟨c, hc, hstep⟩ := Option.bind_eq_some_iff.mp hstep
    cases c
    case checked => cases hstep; exact moves_same rfl hm hh hw
    all_goals cases hstep

-- A message that is there after a step but not before it was submitted by it.
theorem made_of_step (hv : Valid s) (hs : system.step s e t) (hn : s.queue.get? id = none) : ¬e.Hands id ∧
    (t.queue.get? id = none ∧ writesOf e.writes id = [] ∨ ∃ (a : Submission) (now : String),
      e.action = .add a now ∧ t.queue.get? id = some (a.message s.queue now) ∧
      a.queueId = id ∧ writesOf e.writes id = [a.metadata] ∧
      existing s.queue a.sessionId (normalizedClientMessageId a.clientMessageId) = none) := by
  obtain ⟨hhanded, hwrites, hstep⟩ := hs
  have hsame : e.handed = none → e.writes = [] → t.queue = s.queue →
      ¬e.Hands id ∧ t.queue.get? id = none ∧ writesOf e.writes id = [] := by
    intro hh hw hq
    exact ⟨by simp [Event.Hands, hh], by rw [hq, hn], by rw [hw]; rfl⟩
  cases haction : e.action
  all_goals rw [haction] at hstep hhanded hwrites
  case take pid =>
    obtain ⟨c, hc, hstep⟩ := Option.bind_eq_some_iff.mp hstep
    cases c
    case claiming row runId now =>
      cases hstep
      refine ⟨fun hh => ?_, .inl ⟨get?_consumeItem.trans (by rw [hn]; rfl), by rw [hwrites]; rfl⟩⟩
      have hrow : (s.queue.get? row.id).isSome := hv pid _ hc
      simp only [State.handed, hc] at hhanded
      have hid : row.id = id := by simpa [Event.Hands, hhanded] using hh
      rw [hid, hn] at hrow
      cases hrow
    all_goals cases hstep
  all_goals have hh : e.handed = none := hhanded
  case putBack pid =>
    obtain ⟨c, hc, hstep⟩ := Option.bind_eq_some_iff.mp hstep
    cases c
    case requeuing rows reason now =>
      cases hstep
      have hrows : (rows.map (·.id)).Nodup ∧ ∀ r ∈ rows, (s.queue.get? r.id).isSome := hv pid _ hc
      have hnone : rows.find? (·.id = id) = none := by
        apply List.find?_eq_none.mpr
        intro r hr hid
        have hsome := hrows.right r hr
        rw [of_decide_eq_true hid, hn] at hsome
        cases hsome
      have hget : (requeueItems s.queue rows reason now).get? id = none :=
        (get?_requeueItems hrows.left).trans (by rw [hn]; rfl)
      simp only [State.writes, hc] at hwrites
      exact ⟨by simp [Event.Hands, hh], .inl ⟨hget, by rw [hwrites, writesOf_requeue hrows.left, hnone]; rfl⟩⟩
    all_goals cases hstep
  case write pid =>
    obtain ⟨c, hc, hstep⟩ := Option.bind_eq_some_iff.mp hstep
    cases c
    case updating queueId change existing now =>
      cases hstep
      refine ⟨by simp [Event.Hands, hh], .inl ⟨get?_changeItem.trans (by rw [hn]; rfl), ?_⟩⟩
      simp only [State.writes, hc] at hwrites
      rw [hwrites]
      split
      case isFalse => rfl
      case isTrue hq =>
        have hne : queueId ≠ id := by
          intro hne
          rw [hne, hn] at hq
          cases hq
        simp [writesOf, hne]
    all_goals cases hstep
  case add a now =>
    obtain ⟨queue', hadd, ht⟩ := Option.map_eq_some_iff.mp hstep
    subst ht
    refine ⟨by simp [Event.Hands, hh], ?_⟩
    cases addItem_eq hadd
    case inl h =>
      obtain ⟨c, hc⟩ := Option.isSome_iff_exists.mp h.right
      refine .inl ⟨by rw [h.left, hn], ?_⟩
      rw [hwrites]
      simp [State.writes, hc, writesOf]
    case inr h =>
      simp only [State.writes, h.left] at hwrites
      by_cases ha : a.queueId = id
      case pos =>
        refine .inr ⟨a, now, rfl, ?_, ha, by rw [hwrites]; simp [writesOf, ha], h.left⟩
        rw [Table.get?_insert h.right]
        exact if_pos ha
      case neg =>
        refine .inl ⟨?_, by rw [hwrites]; simp [writesOf, ha]⟩
        rw [Table.get?_insert h.right]
        exact (if_neg ha).trans hn
  all_goals have hw : e.writes = [] := hwrites
  case claim   => exact (hsame hh hw (by rw [start_eq hstep]; rfl)).imp_right .inl
  case requeue => exact (hsame hh hw (by rw [start_eq hstep]; rfl)).imp_right .inl
  case check   => exact (hsame hh hw (by rw [start_eq hstep]; rfl)).imp_right .inl
  case crash   => cases hstep; exact (hsame hh hw rfl).imp_right .inl
  case read pid now =>
    obtain ⟨c, hc, hstep⟩ := Option.bind_eq_some_iff.mp hstep
    cases c
    case checked => cases hstep; exact (hsame hh hw rfl).imp_right .inl
    all_goals cases hstep

theorem callOk_mono {c : Call} (hq : ∀ id, (queue.get? id).isSome → (queue'.get? id).isSome) (h : CallOk queue c) :
    CallOk queue' c := by
  cases c
  case claiming  => exact hq _ h
  case requeuing => exact ⟨h.left, fun r hr => hq _ (h.right r hr)⟩
  case checked   => trivial
  case updating  => trivial

theorem mem_of_promotedOf {sessionId runId : String} (h : m ∈ promotedOf queue sessionId runId) :
    m ∈ queue.rows ∧ m.state = .promoted := by
  unfold promotedOf at h
  split at h
  case isTrue  => exact absurd h List.not_mem_nil
  case isFalse =>
    have h := List.mem_filter.mp ((List.mem_insertionSort _).mp h)
    simp only [Bool.and_eq_true, decide_eq_true_eq] at h
    exact ⟨h.left, h.right.left.right⟩

theorem nodup_promotedOf {sessionId runId : String} : ((promotedOf queue sessionId runId).map (·.id)).Nodup := by
  unfold promotedOf
  split
  case isTrue  => exact .nil
  case isFalse =>
    apply ((List.perm_insertionSort _ _).map _).nodup_iff.mpr
    exact queue.unique.sublist (List.filter_sublist.map _)

theorem mem_of_nextPending {sessionId : String} (h : nextPending queue sessionId = some m) :
    m ∈ pendingOf queue sessionId :=
  Rows.mem_oldest h

-- What a call has just read
inductive Reads (s : State) (e : Event) : Call → Prop
  | claiming {pid : ℕ} {sessionId runId now : String} {row : Message}
    (action : e.action = .claim pid sessionId runId now) (next : nextPending s.queue sessionId = some row) : Reads s e (.claiming row runId now)
  | requeuing {sessionId runId reason now : String} :
    Reads s e (.requeuing (promotedOf s.queue sessionId runId) reason now)
  | checked {queueId : String} {change : Change} : Reads s e (.checked queueId change)
  | updating {queueId now : String} {change : Change} {existing : Message} :
    Reads s e (.updating queueId change existing now)

theorem Reads.callOk {c : Call} (h : Reads s e c) : CallOk s.queue c := by
  cases h
  case checked  => trivial
  case updating => trivial
  case claiming row _ hnext =>
    show (s.queue.get? row.id).isSome
    rw [Table.get?_of_mem (List.mem_of_mem_filter (mem_of_nextPending hnext))]
    rfl
  case requeuing =>
    apply And.intro nodup_promotedOf
    intro r hr
    rw [Table.get?_of_mem (mem_of_promotedOf hr).left]
    rfl

-- What a call is going to write after a step, it was going to write before, or it has just read it.
theorem call_of_step (hs : system.step s e t) {c : Call} (hc : t.calls pid = some c) :
    s.calls pid = some c ∨ Reads s e c := by
  obtain ⟨_, _, hstep⟩ := hs
  have hset : ∀ {p call}, (∀ c, call = some c → Reads s e c) → (s.setCall p call).calls pid = some c →
      s.calls pid = some c ∨ Reads s e c := by
    intro p call hcall hc
    by_cases hp : pid = p
    case pos => subst hp; exact .inr (hcall c (by simpa [State.setCall] using hc))
    case neg => exact .inl (by simpa [State.setCall, hp] using hc)
  have hnone : ∀ c, (none : Option Call) = some c → Reads s e c := fun c h => (by cases h)
  cases haction : e.action
  all_goals rw [haction] at hstep
  case add =>
    obtain ⟨_, _, ht⟩ := Option.map_eq_some_iff.mp hstep
    subst ht
    exact .inl hc
  case claim p sessionId runId now =>
    rw [start_eq hstep] at hc
    apply hset _ hc
    intro c hc
    obtain ⟨row, hrow, hc⟩ := Option.map_eq_some_iff.mp hc
    exact hc ▸ .claiming haction hrow
  case requeue p sessionId runId reason now =>
    rw [start_eq hstep] at hc
    apply hset _ hc
    intro c hc
    split at hc
    case isTrue  => cases hc
    case isFalse => cases hc; exact .requeuing
  case check =>
    rw [start_eq hstep] at hc
    apply hset _ hc
    intro c hc
    split at hc
    case isTrue  => cases hc; exact .checked
    case isFalse => cases hc
  case crash => cases hstep; exact hset hnone hc
  all_goals obtain ⟨c', _, hstep⟩ := Option.bind_eq_some_iff.mp hstep
  all_goals cases c'
  case take.claiming     => cases hstep; exact hset hnone hc
  case putBack.requeuing => cases hstep; exact hset hnone hc
  case write.updating    => cases hstep; exact hset hnone hc
  case read.checked =>
    cases hstep
    apply hset _ hc
    intro c hc
    obtain ⟨_, _, hc⟩ := Option.map_eq_some_iff.mp hc
    exact hc ▸ .updating
  all_goals cases hstep

theorem valid_step (hv : Valid s) (hs : system.step s e t) : Valid t := by
  have hkept : ∀ id, (s.queue.get? id).isSome → (t.queue.get? id).isSome := by
    intro id hm
    obtain ⟨m, hm⟩ := Option.isSome_iff_exists.mp hm
    obtain ⟨m', hm', _⟩ := moves_of_step hv hs hm
    rw [hm']
    rfl
  intro pid c hc
  apply callOk_mono hkept
  cases call_of_step hs hc
  case inl h => exact hv pid c h
  case inr h => exact h.callOk

end UserQueue
