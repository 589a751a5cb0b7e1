import V8AgentOs.Executors.Moves
import V8AgentOs.Lib.Transition

-- What the transactions do that send a command and that take a receipt.
namespace Executors

open Python Hoare

variable {host : Host} {device : String} {epoch : ℤ} {db : Ledger} {times : ℕ → ℤ} {payload : Dict}

-- A queued command of a device that is sent at the time `t`.
structure Dispatched (db : Ledger) (r : Row) (t : ℤ) : Prop where
  row      : r ∈ db.commands
  queued   : r.state = .queued
  epoch    : r.body.leaseEpoch = (db.connections r.deviceId).epoch
  revision : r.body.grantRevision = (db.connections r.deviceId).grantRevision
  deadline : t < r.body.deadlineUnixMs

-- Nothing is sent, or one queued command, which is marked before.
structure Outbound (db db' : Ledger) (device : String) (t : ℤ) (out : List Command) : Prop where
  kept        : Kept db db'
  connections : db'.connections = db.connections
  sent        : out = [] ∨ ∃ r, Dispatched db r t ∧ r.deviceId = device ∧ out = [r.body] ∧
    ∀ r' ∈ db'.commands, r'.commandId = r.commandId → r'.state = .sent

-- The clock after one reading.
def Session.later (s : Session) : Session :=
  { s with times := fun n => s.times (n + 1) }

theorem triple_now {P : Session → Prop} {Q : ℤ → Session → Prop}
    (h : ∀ s, P s → Q (s.times 0) s.later) : Triple P now Q fun _ _ => True :=
  .intro h

-- The connection that is current; the clock was read once.
theorem current_eq {s : Session} : Triple (· = s) (current host device epoch)
    (fun c s' => s' = s.later ∧ s.db.connections device = c ∧ c.epoch = epoch) fun _ _ => True := by
  refine .bind (identity_still _) fun _ => ?_
  refine .bind (Q := fun c s' => s' = s ∧ s.db.connections device = c) ?_ fun c => ?_
  · exact .intro fun _ h => ⟨h, h ▸ rfl⟩
  refine .bind (Q := fun _ s' => s' = s.later ∧ s.db.connections device = c) (triple_now ?_) fun t => ?_
  · rintro _ ⟨rfl, h⟩
    exact ⟨rfl, h⟩
  refine .bind (Q := fun _ s' => s' = s.later ∧ s.db.connections device = c ∧ c.epoch = epoch)
    (triple_require fun hc s' ⟨hs, hd⟩ => ⟨hs, hd, ?_⟩) fun _ => .pure fun _ h => h
  simp only [Bool.and_eq_true, decide_eq_true_eq] at hc
  exact hc.left.left

-- The state of one command is rewritten.
def Ledger.setState (db : Ledger) (id : String) (st : State) (t : ℤ) : Ledger :=
  db.updateCommands (isCommand id) fun r => { r with state := st, updatedAt := t }

theorem Kept.setState {r : Row} {st : State} {t : ℤ} (hu : db.Unique) (hr : r ∈ db.commands)
    (hm : r.state.Moves st) : Kept db (db.setState r.commandId st t) :=
  (Kept.refl db).updateOne hu hr ⟨rfl, rfl, rfl, rfl, hm, le_refl _, id⟩

theorem Ledger.state_setState {id : String} {st : State} {t : ℤ} {r : Row}
    (hr : r ∈ (db.setState id st t).commands) (he : r.commandId = id) : r.state = st := by
  obtain ⟨c, _, rfl⟩ := List.mem_map.mp hr
  split
  case isTrue    => rfl
  case isFalse h =>
    rw [if_neg h] at he
    exact absurd (decide_eq_true he) h

theorem setState_then {α : Type} {a : α} {id : String} {st : State} {Q : α → Session → Prop}
    (db : Ledger) (h : ∀ t s, s.db = db.setState id st t → Q a s) :
    Triple (fun s => s.db = db)
      (do let t ← now
          updateCommands (isCommand id) fun r => { r with state := st, updatedAt := t }
          return a) Q fun _ _ => True := by
  refine .bind (triple_now (Q := fun _ s => s.db = db) fun _ h => h) fun t => ?_
  refine .bind (Q := fun _ s => s.db = db.setState id st t) ?_ fun _ => .pure (h t)
  exact .modify fun s h => h ▸ rfl

theorem outbound_does (hu : db.Unique) :
    Triple (· = ⟨db, times⟩) (outbound host device epoch)
      (fun out s => Outbound db s.db device (times 1) out) fun _ _ => True := by
  refine .bind current_eq fun c => .assume ?_
  rintro _ ⟨rfl, rfl, rfl⟩
  refine .bind (Q := fun db' s => db' = db ∧ s = (⟨db, times⟩ : Session).later) ?_ fun db' => ?_
  · exact .intro fun _ h => ⟨h ▸ rfl, h⟩
  refine .assume ?_
  rintro _ ⟨rfl, rfl⟩
  simp only []
  split
  case h_1 => exact .pure fun _ h => h ▸ ⟨.refl _, rfl, .inl rfl⟩
  case h_2 r rs hq =>
    have hmem := (List.mem_insertionSort _).mp (hq ▸ List.mem_cons_self (a := r) (l := rs))
    simp only [List.mem_filter, Bool.and_eq_true, decide_eq_true_eq] at hmem
    obtain ⟨hr, rfl, hs⟩ := hmem
    refine .bind (triple_now (Q := fun t s => t = times 1 ∧ s.db = db') ?_) fun t => ?_
    · rintro _ rfl
      exact ⟨rfl, rfl⟩
    refine .assume fun s' ⟨ht, hd⟩ => .ite (fun hv => ?_) fun _ => ?_
    all_goals
      refine (setState_then db' fun t' s hs' => ?_).conseq (fun _ h => h ▸ hd) (fun _ _ h => h)
        fun _ _ h => h
      rw [hs']
    · simp only [Bool.and_eq_true, decide_eq_true_eq] at hv
      have hm : r.state.Moves .sent := hs ▸ .later (by decide)
      refine ⟨.setState hu hr hm, rfl, .inr ⟨r, ⟨hr, hs, ?_, ?_, ht ▸ hv.right⟩, rfl, rfl, ?_⟩⟩
      · exact hv.left.left
      · exact hv.left.right
      · exact fun _ => Ledger.state_setState
    · exact ⟨.setState hu hr (hs ▸ .later (by decide)), rfl, .inl rfl⟩

-- The command and the number that a receipt is about.
structure Names (payload : Dict) (id : String) (seq : ℤ) : Prop where
  id  : queryText (payload.get "commandId") = .ok (some id)
  seq : payload.get "receiptSeq" = .int seq

theorem Names.eq {id id' : String} {seq seq' : ℤ} (h : Names payload id seq)
    (h' : Names payload id' seq') : id = id' ∧ seq = seq' := by
  have hi := h.id.symm.trans h'.id
  have hs := h.seq.symm.trans h'.seq
  simp only [Except.ok.injEq, Option.some.injEq, Json.int.injEq] at hi hs
  exact ⟨hi, hs⟩

def Recorded (db : Ledger) (id : String) (seq : ℤ) : Prop :=
  ∃ p ∈ db.receipts, p.commandId = id ∧ p.seq = seq

-- A new receipt is recorded, and moves its command.
structure Accepted (db db' : Ledger) (device : String) (payload : Dict) (r : Row) (status : State)
    (seq : ℤ) : Prop where
  names    : Names payload r.commandId seq
  row      : r ∈ db.commands
  device   : r.deviceId = device
  identity : identifies payload r.body
  reports  : statusOf (payload.get "status") = some status
  fresh    : ¬Recorded db r.commandId seq
  later    : r.receiptSeq < seq
  receipts : ∃ t, db'.receipts = db.receipts ++ [⟨r.commandId, seq, canonical payload, t⟩]
  commands : Rows.Kept Row.Moves db.commands db'.commands
  moved    : ∀ r' ∈ db'.commands, r'.commandId = r.commandId →
    r'.receiptSeq = seq ∧ r'.state = effective r.state status ∧ r'.receipt = some payload

theorem require_bind {α : Type} {c : Bool} {code : String} {status : ℕ} {f : Unit → Checked α} {a : α} :
    (require c code status >>= f) = .ok a ↔ c = true ∧ f () = .ok a := by
  cases c
  case false => simp [require, bind, Except.bind]
  case true  => simp [require, bind, Except.bind]

theorem integer_ok {value : Json} {lo hi n : ℤ} {code : String} (h : integer value lo hi code = .ok n) :
    value = .int n ∧ lo ≤ n ∧ n ≤ hi := by
  unfold integer at h
  split at h
  case h_2 => simp at h
  case h_1 k =>
    have ⟨hc, hk⟩ := require_bind.mp h
    simp only [Bool.and_eq_true, decide_eq_true_eq] at hc
    cases hk
    exact ⟨rfl, hc⟩

theorem acceptFrame_media {r : Row} {status : State} {observation : Dict} :
    Does (fun db' => ∃ m, db' = { db with media := m })
      (acceptFrame host device r status observation) fun _ db' => ∃ m, db' = { db with media := m } := by
  refine .bind (validateFrame_reads _) fun _ => .bind (currentCommand_reads _) fun _ => ?_
  refine .bind (Reads.checked _ _) fun _ => .bind (Reads.now _) fun _ => ?_
  refine .bind (Reads.checked _ _) fun _ => .bind (Reads.checked _ _) fun _ => ?_
  refine .bind (Reads.checked _ _) fun _ => .update ?_
  rintro _ ⟨m, rfl⟩
  exact ⟨_, rfl⟩

theorem checkObservation_media {r : Row} {status : State} :
    Does (fun db' => ∃ m, db' = { db with media := m })
      (checkObservation host device r status payload) fun _ db' => ∃ m, db' = { db with media := m } := by
  unfold checkObservation
  simp only []
  refine .bind ((Reads.checked _).inCase _) fun _ => ?_
  split
  case h_1 => exact .pure fun _ h => h
  case h_3 => exact .throw
  case h_2 =>
    refine .bind (Reads.checked _ _) fun _ => ?_
    split
    case h_1 => exact .pure fun _ h => h
    case h_2 => exact acceptFrame_media

-- The states that `accept` leaves a command in.
theorem State.moves_effective {s status : State} (hr : reportable status)
    (hu : !(s = .authorized || s = .queued || s = .expired))
    (ht : !(s.terminal && s ≠ .unknownOutcome) || status = s)
    (hs : !(s = .started && status = .received)) : s.Moves (effective s status) := by
  cases s <;> cases status <;> first | exact .refl | exact .later (by decide) | simp_all [State.terminal, reportable]

theorem statusOf_reportable {value : Json} {status : State} (h : statusOf value = some status) :
    reportable status := by
  unfold statusOf at h
  split at h
  case h_1 =>
    have := List.find?_some h
    simp only [Bool.and_eq_true] at this
    exact this.right
  case h_2 => simp at h

theorem accept_does {r : Row} {status : State} {seq : ℤ} (hu : db.Unique) (hr : r ∈ db.commands)
    (hn : Names payload r.commandId seq) (hi : identifies payload r.body)
    (hs : statusOf (payload.get "status") = some status) (hf : ¬Recorded db r.commandId seq) :
    Does (· = db) (accept host r.deviceId r status seq payload) fun _ db' =>
      Accepted db db' r.deviceId payload r status seq := by
  refine .guard fun hl => .guard fun hunsent => .guard fun hfinal => .guard fun hback => ?_
  refine .bind (checkObservation_media.conseq (fun _ (h : _ = db) => ⟨db.media, h⟩) fun _ _ h => h) fun _ => ?_
  refine .bind (Reads.now _) fun t => ?_
  refine .bind (Q := fun _ db' => ∃ m, db' = { db with
      receipts := db.receipts ++ [⟨r.commandId, seq, canonical payload, t⟩], media := m }) (.update ?_)
    fun _ => .bind (Reads.now _) fun t' => .update ?_
  · rintro _ ⟨m, rfl⟩
    exact ⟨m, rfl⟩
  rintro _ ⟨m, rfl⟩
  have hm := State.moves_effective (statusOf_reportable hs) hunsent hfinal hback
  refine ⟨hn, hr, rfl, hi, hs, hf, of_decide_eq_true hl, ⟨t, rfl⟩, ?_, ?_⟩
  · refine (Kept.updateOne hu (Kept.refl db) hr ?_).commands
    exact ⟨rfl, rfl, rfl, rfl, hm, (of_decide_eq_true hl).le, id⟩
  · intro r' hr' he
    obtain ⟨c, _, rfl⟩ := List.mem_map.mp hr'
    split
    case isTrue    => exact ⟨rfl, rfl, rfl⟩
    case isFalse h =>
      rw [if_neg h] at he
      exact absurd (decide_eq_true he) h

theorem receipt_does (hu : db.Unique) :
    Does (· = db) (receipt host device epoch payload) fun _ db' =>
      (db' = db ∧ ∃ p ∈ db.receipts, Names payload p.commandId p.seq ∧ p.body = canonical payload) ∨
      ∃ r status seq, Accepted db db' device payload r status seq := by
  refine .guard fun _ => ?_
  split
  case h_1 => exact .throw
  case h_2 status hst =>
    refine .value fun seq hseq => .bind (Reads.checked _ _) fun _ => .bind (current_reads _) fun _ => ?_
    refine .value fun id hid => .bind ledger_eq fun db' => .assume ?_
    rintro _ ⟨rfl, rfl⟩
    split
    case h_1 => exact .throw
    case h_2 r hr =>
      have hmem := List.mem_of_find?_eq_some hr
      have hfound := List.find?_some hr
      simp only [Bool.and_eq_true, decide_eq_true_eq] at hfound
      obtain ⟨rfl, rfl⟩ := hfound
      have hn : Names payload r.commandId seq := ⟨hid, (integer_ok hseq).left⟩
      refine .guard fun hi => .bind ledger_eq fun db'' => .assume ?_
      rintro _ ⟨rfl, rfl⟩
      split
      case h_1 old ho =>
        have hold := List.find?_some ho
        simp only [Bool.and_eq_true, decide_eq_true_eq] at hold
        refine .require fun hb _ h => .inl ⟨h, old, List.mem_of_find?_eq_some ho, ?_, by simpa using hb⟩
        exact hold.left ▸ hold.right ▸ hn
      case h_2 hnone =>
        refine (accept_does hu hmem hn hi hst ?_).conseq (fun _ h => h) fun _ _ h => .inr ⟨_, _, _, h⟩
        rintro ⟨p, hp, hid, hseq⟩
        exact List.find?_eq_none.mp hnone p hp (by simp [hid, hseq])

end Executors

-- The ledger as a transition system: any transactions, in any order, with any arguments.
namespace Executors

open Python Hoare

-- One transaction of the service. The methods `cancel` and `reconcile` go on with `status`, and
-- `revoke` begins with `revokeIdentity`; `elsewhere` stands for enrolment and the ingress of media.
inductive Op
  | create (owner device : String)
      (commandId capability resource arguments precondition ttlMs trace : Json)
  | activate (owner commandId : String)
  | outbound (device : String) (epoch : ℤ)
  | receipt (device : String) (epoch : ℤ) (payload : Dict)
  | cancel (owner commandId : String)
  | status (owner commandId : String)
  | reconcile (owner commandId : String) (note : Json)
  | grant (owner device : String) (expected allowed : Json)
  | revokeIdentity (owner device : String)
  | revoke (device : String)
  | hello (principal : Identity) (payload : Dict)
  | renew (device : String) (epoch : ℤ)
  | disconnect (device : String) (epoch : ℤ)
  | elsewhere (identities : List Identity) (media : List Media)

variable (sha256 : List Char → String)

-- The commands that a transaction hands to the transport.
def Op.run (host : Host) : Op → Tx (List Command)
  | create owner device id cap res args pre ttl trace =>
    (fun _ => []) <$> Executors.create sha256 host owner device id cap res args pre ttl trace
  | activate owner id              => (fun _ => []) <$> Executors.activate host owner id
  | outbound device epoch          => Executors.outbound host device epoch
  | receipt device epoch payload   => (fun _ => []) <$> Executors.receipt host device epoch payload
  | cancel owner id                => (fun _ => []) <$> Executors.cancel host owner id
  | status owner id                => (fun _ => []) <$> Executors.status host owner id
  | reconcile owner id note        => (fun _ => []) <$> Executors.reconcile host owner id note
  | grant owner device exp allowed => (fun _ => []) <$> Executors.grant host owner device exp allowed
  | revokeIdentity owner device    => (fun _ => []) <$> Executors.revokeIdentity host owner device
  | revoke device                  => (fun _ => []) <$> Executors.revoke device
  | hello principal payload        => (fun _ => []) <$> Executors.hello host principal payload
  | renew device epoch             => (fun _ => []) <$> Executors.renew host device epoch
  | disconnect device epoch        => (fun _ => []) <$> Executors.disconnect device epoch
  | elsewhere identities media     =>
    (fun _ => []) <$> update fun db => { db with identities := identities, media := media }

-- The host and the readings of the clock are arbitrary in each transaction.
structure Event where
  op     : Op
  host   : Host
  times  : ℕ → ℤ
  answer : Checked (List Command)

def Event.sent (e : Event) : List Command :=
  match e.answer with
  | .ok commands => commands
  | .error _     => []

def system : Transition Ledger Event where
  init db := db = .empty
  step db e db' := transaction (e.op.run sha256 e.host) e.times db = (e.answer, db')

-- What one transaction does to the tables.
inductive Effect (db db' : Ledger) (op : Op) (t : ℤ) : List Command → Prop
  | kept : Kept db db' → Effect db db' op t []
  | created {db₁ row} : Created db db' db₁ row → Effect db db' op t []
  | sent {device epoch r} : op = .outbound device epoch → Kept db db' → Dispatched db r t →
    r.deviceId = device → db'.connections = db.connections →
    (∀ r' ∈ db'.commands, r'.commandId = r.commandId → r'.state = .sent) →
    Effect db db' op t [r.body]
  | accepted {device epoch payload r status seq} : op = .receipt device epoch payload →
    Accepted db db' device payload r status seq → Effect db db' op t []

variable {sha256} {host : Host} {db db' : Ledger} {op : Op} {times : ℕ → ℤ} {e : Event}
  {es : List Event}

-- A transaction that hands no command to the transport.
theorem Does.silent {α : Type} {x : Tx α} {P : Ledger → Prop} {Q : α → Ledger → Prop}
    {R : List Command → Ledger → Prop} (h : Does P x Q) (hp : P db) (hq : ∀ a db', Q a db' → R [] db') :
    Triple (· = ⟨db, times⟩) ((fun _ => []) <$> x) (fun out s => R out s.db) fun _ _ => True :=
  .map (Triple.conseq h (fun _ hs => hs ▸ hp) (fun a s => hq a s.db) fun _ _ h => h)

theorem Does.kept {α : Type} {x : Tx α} (h : Does (Kept db) x fun _ => Kept db) :
    Triple (· = ⟨db, times⟩) ((fun _ => []) <$> x) (fun out s => Effect db s.db op (times 1) out)
      fun _ _ => True :=
  h.silent (R := fun out db' => Effect db db' op (times 1) out) (.refl db) fun _ _ h => .kept h

theorem Op.does (hu : db.Unique) : Triple (· = ⟨db, times⟩) (op.run sha256 host)
    (fun out s => Effect db s.db op (times 1) out) fun _ _ => True := by
  cases op
  case create =>
    refine (create_does hu).silent (R := fun out db' => Effect db db' _ (times 1) out) rfl fun _ _ h => ?_
    rcases h with h | ⟨_, _, h⟩
    · exact .kept h
    · exact .created h
  case outbound =>
    refine (outbound_does hu).conseq (fun _ h => h) (fun out s h => ?_) fun _ _ h => h
    rcases h.sent with rfl | ⟨r, hd, rfl, rfl, hs⟩
    · exact .kept h.kept
    · exact .sent rfl h.kept hd rfl h.connections hs
  case receipt =>
    refine (receipt_does hu).silent (R := fun out db' => Effect db db' _ (times 1) out) rfl fun _ _ h => ?_
    rcases h with ⟨h, _⟩ | ⟨_, _, _, h⟩
    · exact .kept (h ▸ .refl db)
    · exact .accepted rfl h
  case activate       => exact Does.kept (activate_kept hu)
  case cancel         => exact Does.kept (cancel_kept hu)
  case status         => exact Does.kept (status_kept hu)
  case reconcile      => exact Does.kept (reconcile_kept hu)
  case grant          => exact Does.kept grant_kept
  case revokeIdentity => exact Does.kept revokeIdentity_kept
  case revoke         => exact Does.kept revoke_kept
  case hello          => exact Does.kept hello_kept
  case renew          => exact Does.kept renew_kept
  case disconnect     => exact Does.kept disconnect_kept
  case elsewhere      => exact Does.kept (.update fun _ h => h.of_same rfl rfl)

theorem transaction_ok {α : Type} {x : Tx α} {a : α} (h : transaction x times db = (.ok a, db')) :
    ∃ s, x ⟨db, times⟩ = .ok a s ∧ s.db = db' := by
  unfold transaction at h
  split at h
  case h_1 hx =>
    simp only [Prod.mk.injEq, Except.ok.injEq] at h
    obtain ⟨rfl, rfl⟩ := h
    exact ⟨_, hx, rfl⟩
  case h_2 => simp at h

-- A refused transaction leaves every table as it was.
theorem transaction_error {α : Type} {x : Tx α} {f : Failure}
    (h : transaction x times db = (.error f, db')) : db' = db := by
  unfold transaction at h
  split at h
  case h_1 => simp at h
  case h_2 => exact (Prod.mk.inj h).right.symm

theorem step_refused {f : Failure} (h : (system sha256).step db e db') (ha : e.answer = .error f) :
    db' = db := by
  have h : transaction (e.op.run sha256 e.host) e.times db = (e.answer, db') := h
  exact transaction_error (ha ▸ h)

theorem step_effect (hu : db.Unique) (h : (system sha256).step db e db') :
    Effect db db' e.op (e.times 1) e.sent := by
  unfold Event.sent
  cases ha : e.answer
  case ok out =>
    have h : transaction (e.op.run sha256 e.host) e.times db = (e.answer, db') := h
    obtain ⟨s, hs, rfl⟩ := transaction_ok (ha ▸ h)
    have hd : Triple (· = ⟨db, e.times⟩) (e.op.run sha256 e.host)
      (fun out s => Effect db s.db e.op (e.times 1) out) fun _ _ => True := Op.does hu
    exact hd.ok rfl hs
  case error f =>
    obtain rfl := step_refused h ha
    exact .kept (.refl _)

-- What holds between the tables before and after any run.
structure Grown (db db' : Ledger) : Prop where
  commands : Rows.Grown Row.Moves db.commands db'.commands
  receipts : db.receipts <+: db'.receipts

theorem Grown.refl (db : Ledger) : Grown db db :=
  ⟨.refl .refl _, List.prefix_rfl⟩

theorem Grown.trans {db'' : Ledger} (h₁ : Grown db db') (h₂ : Grown db' db'') : Grown db db'' :=
  ⟨h₁.commands.trans .trans h₂.commands, h₁.receipts.trans h₂.receipts⟩

variable {t : ℤ} {out : List Command}

theorem Effect.grown (h : Effect db db' op t out) : Grown db db' := by
  cases h
  case kept h           => exact ⟨.of_kept h.commands, h.receipts ▸ List.prefix_rfl⟩
  case created h        => exact ⟨⟨_, _, h.kept.commands, h.commands⟩, h.receipts ▸ List.prefix_rfl⟩
  case sent h _ _ _ _   => exact ⟨.of_kept h.commands, h.receipts ▸ List.prefix_rfl⟩
  case accepted _ h     =>
    obtain ⟨_, hr⟩ := h.receipts
    exact ⟨.of_kept h.commands, hr ▸ List.prefix_append _ _⟩

theorem Created.unique {db₁ : Ledger} {row : Row} (h : Created db db' db₁ row) (hu : db.Unique) :
    db'.Unique := by
  unfold Ledger.Unique
  rw [h.commands, List.map_append]
  refine List.Nodup.append (h.kept.unique hu) (List.nodup_singleton _) ?_
  simp only [List.map_cons, List.map_nil, List.disjoint_singleton, List.mem_map, not_exists, not_and]
  exact h.fresh

theorem Effect.unique (h : Effect db db' op t out) (hu : db.Unique) : db'.Unique := by
  cases h
  case kept h         => exact h.unique hu
  case created h      => exact h.unique hu
  case sent h _ _ _ _ => exact h.unique hu
  case accepted _ h   => exact hu.of_kept h.commands

theorem step_unique (hu : db.Unique) (h : (system sha256).step db e db') : db'.Unique :=
  (step_effect hu h).unique hu

theorem empty_unique : Ledger.empty.Unique :=
  List.nodup_nil

theorem reachable_unique (h : (system sha256).Reachable db) : db.Unique := by
  refine h.invariant ?_ fun _ _ _ => step_unique
  rintro _ rfl
  exact empty_unique

theorem run_grown (h : (system sha256).Run db es db') (hu : db.Unique) : Grown db db' :=
  h.relates (fun _ _ _ => step_unique) .refl (fun _ _ _ => .trans)
    (fun _ _ _ hu h => (step_effect hu h).grown) hu

-- The events of a list of transactions, under one host and one clock.
def play (sha256 : List Char → String) (host : Host) (times : ℕ → ℤ) :
    List Op → Ledger → List Event × Ledger
  | [], db        => ([], db)
  | op :: ops, db =>
    let result := transaction (op.run sha256 host) times db
    let rest := play sha256 host times ops result.2
    (⟨op, host, times, result.1⟩ :: rest.1, rest.2)

theorem play_run (sha256 : List Char → String) (host : Host) (times : ℕ → ℤ) (ops : List Op)
    (db : Ledger) :
    (system sha256).Run db (play sha256 host times ops db).1 (play sha256 host times ops db).2 := by
  induction ops generalizing db
  case nil     => exact .refl
  case cons hi => exact .trans rfl (hi _)

end Executors
