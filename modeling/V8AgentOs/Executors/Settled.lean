import Mathlib.Data.List.Pairwise
import V8AgentOs.Executors.Run

-- A device works on one command at a time, and each command is sent at most once.
namespace Executors

open Python

variable {sha256 : List Char → String} {db db' : Ledger} {e : Event} {es : List Event} {op : Op}
  {t : ℤ} {out : List Command} {a b a' b' : Row}

-- The outcome of a sent command is not known, and its owner has not settled that.
def Row.unsettled (r : Row) : Prop :=
  r.state = .unknownOutcome ∧ ¬r.reconciled

-- A command that may still be sent and acts on the world.
def Row.pending (r : Row) : Prop :=
  r.state.unsent ∧ r.body.capability ∈ mutating

-- What holds between any two commands of one device.
structure Apart (a b : Row) : Prop where
  busy  : a.deviceId = b.deviceId → a.state.terminal ∨ b.state.terminal
  left  : a.deviceId = b.deviceId → a.pending → ¬b.unsettled
  right : a.deviceId = b.deviceId → b.pending → ¬a.unsettled

theorem Apart.symm (h : Apart a b) : Apart b a where
  busy he := (h.busy he.symm).symm
  left he := h.right he.symm
  right he := h.left he.symm

instance : Std.Symm Apart := ⟨fun _ _ => Apart.symm⟩

theorem Row.Moves.pending (h : a.Moves a') (hp : a'.pending) : a.pending :=
  ⟨h.state.unsent hp.left, h.body ▸ hp.right⟩

-- A command becomes unsettled only while it is worked on.
theorem Row.Moves.unsettled (h : a.Moves a') (hu : a'.unsettled) : a.unsettled ∨ a.state.terminal = false := by
  rcases h.state with he | hlt
  · exact .inl ⟨he.trans hu.left, fun hr => hu.right (h.reconciled hr)⟩
  · refine .inr ?_
    rw [hu.left] at hlt
    cases hs : a.state <;> first | rfl | simp [hs, State.stage] at hlt

theorem pending_spares (hb : a.state.terminal ∨ b.state.terminal) (hs : a.pending → ¬b.unsettled)
    (hp : a.pending) (hm : b.Moves b') : ¬b'.unsettled := by
  intro hu
  rcases hm.unsettled hu with hu | hb'
  · exact hs hp hu
  · have := State.unsent_busy hp.left
    simp_all

theorem Apart.moves (h : Apart a b) (ha : a.Moves a') (hb : b.Moves b') : Apart a' b' := by
  have device : a'.deviceId = b'.deviceId → a.deviceId = b.deviceId := by
    rw [ha.deviceId, hb.deviceId]
    exact id
  refine ⟨fun he => ?_, fun he => ?_, fun he => ?_⟩
  · exact (h.busy (device he)).imp ha.state.terminal hb.state.terminal
  · exact fun hp => pending_spares (h.busy (device he)) (h.left (device he)) (ha.pending hp) hb
  · exact fun hp => pending_spares (h.busy (device he)).symm (h.right (device he)) (hb.pending hp) ha

-- The invariant of the dispatch.
structure Safe (db : Ledger) : Prop where
  unique : db.Unique
  bodies : ∀ r ∈ db.commands, r.body.commandId = r.commandId
  apart  : db.commands.Pairwise Apart

theorem Safe.kept (h : Safe db) (hk : Rows.Kept Row.Moves db.commands db'.commands) : Safe db' := by
  refine ⟨h.unique.of_kept hk, fun r hr => ?_, hk.pairwise (fun _ _ _ _ => Apart.moves) h.apart⟩
  have ⟨r₀, hr₀, hm⟩ := hk.mem_left hr
  rw [hm.body, hm.commandId, h.bodies r₀ hr₀]

theorem Safe.created {db₁ : Ledger} {row : Row} (h : Safe db) (hc : Created db db' db₁ row) : Safe db' := by
  have h₁ := h.kept hc.kept.commands
  refine ⟨hc.unique h.unique, ?_, ?_⟩
  · rw [hc.commands]
    intro r hr
    rcases List.mem_append.mp hr with hr | hr
    · exact h₁.bodies r hr
    · obtain rfl := List.mem_singleton.mp hr
      exact hc.body
  · rw [hc.commands]
    refine List.pairwise_append.mpr ⟨h₁.apart, List.pairwise_singleton _ _, fun r hr row' hrow => ?_⟩
    obtain rfl := List.mem_singleton.mp hrow
    refine ⟨fun he => .inl (hc.idle r hr he), fun _ _ hu => ?_, fun he hp hu => ?_⟩
    · simp [Row.unsettled, hc.state] at hu
    · exact hu.right (hc.clear hp.right r hr he hu.left)

theorem Safe.effect (h : Safe db) (he : Effect db db' op t out) : Safe db' := by
  cases he
  case kept hk         => exact h.kept hk.commands
  case created hc      => exact h.created hc
  case sent hk _ _ _ _ => exact h.kept hk.commands
  case accepted _ ha   => exact h.kept ha.commands

theorem step_safe (h : Safe db) (hs : (system sha256).step db e db') : Safe db' :=
  h.effect (step_effect h.unique hs)

theorem empty_safe : Safe .empty :=
  ⟨empty_unique, fun _ h => absurd h List.not_mem_nil, .nil⟩

theorem run_safe (h : (system sha256).Run .empty es db) : Safe db :=
  h.preserves (fun _ _ _ => step_safe) empty_safe

-- The command was handed to the transport, or never will be.
def Spent (db : Ledger) (id : String) : Prop :=
  ∃ r ∈ db.commands, r.commandId = id ∧ ¬r.state.unsent

theorem Spent.grown {id : String} (h : Spent db id) (hg : Grown db db') : Spent db' id := by
  obtain ⟨r, hr, rfl, hs⟩ := h
  have ⟨r', hr', hm⟩ := hg.commands.mem hr
  exact ⟨r', hr', hm.commandId, fun h => hs (hm.state.unsent h)⟩

theorem Effect.fresh (hs : Safe db) (he : Effect db db' op t out) {k : String}
    (hk : k ∈ out.map Command.commandId) : ¬Spent db k ∧ Spent db' k := by
  cases he
  case kept       => simp at hk
  case created    => simp at hk
  case accepted   => simp at hk
  case sent r _ hkept hd _ _ hsent =>
    simp only [List.map_cons, List.map_nil, List.mem_singleton] at hk
    rw [hs.bodies r hd.row] at hk
    subst hk
    refine ⟨fun ⟨r', hr', he, hn⟩ => hn ?_, ?_⟩
    · rw [hs.unique.eq hd.row hr' he, hd.queued]
      rfl
    · have ⟨r', hr', hm⟩ := hkept.commands.mem_right hd.row
      exact ⟨r', hr', hm.commandId, by simp [hsent r' hr' hm.commandId, State.unsent]⟩

theorem Effect.nodup (he : Effect db db' op t out) : (out.map Command.commandId).Nodup := by
  cases he <;> simp

theorem sent_nodup (h : (system sha256).Run .empty es db) :
    (es.flatMap fun e => e.sent.map Command.commandId).Nodup := by
  refine h.nodup_emitted (I := Safe) (S := Spent) (fun _ _ _ => step_safe) ?_ ?_ ?_ ?_ empty_safe
  · exact fun _ _ _ hs h => (step_effect hs.unique h).nodup
  · exact fun _ _ _ hs h _ hk => ((step_effect hs.unique h).fresh hs hk).left
  · exact fun _ _ _ hs h _ hk => ((step_effect hs.unique h).fresh hs hk).right
  · exact fun _ _ _ hs h _ hk => hk.grown (step_effect hs.unique h).grown

-- At most one command of a device is worked on.
theorem Safe.exclusive (h : Safe db) (device : String) :
    (db.commands.filter fun r => r.deviceId = device && !r.state.terminal).length ≤ 1 := by
  refine Rows.length_le_one ((h.apart.filter _).imp_of_mem fun {a b} ha hb hab => ?_)
  have ha := (List.mem_filter.mp ha).right
  have hb := (List.mem_filter.mp hb).right
  simp only [Bool.and_eq_true, decide_eq_true_eq, Bool.not_eq_true'] at ha hb
  have := hab.busy (ha.left.trans hb.left.symm)
  simp [ha.right, hb.right] at this

-- A command that acts on the world is sent while no other outcome is in doubt.
structure Clear (db : Ledger) (c : Command) (device : String) (t : ℤ) : Prop where
  settled  : ∀ r ∈ db.commands, r.deviceId = device → r.commandId ≠ c.commandId →
    r.state = .unknownOutcome → r.reconciled
  epoch    : c.leaseEpoch = (db.connections device).epoch
  revision : c.grantRevision = (db.connections device).grantRevision
  deadline : t < c.deadlineUnixMs

theorem Effect.clear (hs : Safe db) (he : Effect db db' op t out) {c : Command} (hc : c ∈ out)
    (hm : c.capability ∈ mutating) : ∃ device epoch, op = .outbound device epoch ∧
      Clear db' c device t := by
  cases he
  case kept       => simp at hc
  case created    => simp at hc
  case accepted   => simp at hc
  case sent device epoch r ho hkept hd hdev hconn _ =>
    obtain rfl := List.mem_singleton.mp hc
    subst hdev
    refine ⟨_, epoch, ho, fun r' hr' hdev hne hu => ?_, hconn ▸ hd.epoch, hconn ▸ hd.revision, hd.deadline⟩
    have ⟨a, ha, hmov⟩ := hkept.commands.mem_left hr'
    have hne : r ≠ a := fun he => hne (by rw [hmov.commandId, ← he, hs.bodies r hd.row])
    have hap := hs.apart.forall hd.row ha hne
    have hdev : r.deviceId = a.deviceId := hdev.symm.trans hmov.deviceId
    by_contra hr
    exact pending_spares (hap.busy hdev) (hap.left hdev) ⟨by simp [hd.queued, State.unsent], hm⟩ hmov ⟨hu, hr⟩

theorem dispatch (h : (system sha256).Run .empty es db) :
    (es.flatMap fun e => e.sent.map Command.commandId).Nodup ∧
    (∀ device, (db.commands.filter fun r => r.deviceId = device && !r.state.terminal).length ≤ 1) ∧
    ∀ e db', (system sha256).step db e db' → ∀ c ∈ e.sent, c.capability ∈ mutating →
      ∃ device epoch, e.op = .outbound device epoch ∧ Clear db' c device (e.times 1) := by
  have hs := run_safe h
  exact ⟨sent_nodup h, hs.exclusive, fun e db' he c => (step_effect hs.unique he).clear hs⟩

-- A device is granted an actuator and connects, and a command for it is approved.
def ledHost : Host := ⟨"owner", fun _ => false⟩

def ledIdentity : Identity := ⟨"esp", "owner", "authority", "esp32", false⟩

def ledGrants : Json :=
  .list [.dict [("capability", .str "actuator.set"), ("resourceId", .str "led")]]

def ledHello : Dict :=
  [("type", .str "hello"), ("protocolVersion", .int 1), ("deviceId", .str "esp"),
   ("authorityId", .str "authority"), ("localEnabled", .bool true), ("bootId", .str "b1"),
   ("controlSessionId", .str "s1"), ("capabilityRevision", .int 1), ("capabilities", ledGrants)]

def ledQueued : List Op :=
  [.elsewhere [ledIdentity] [],
   .grant "owner" "esp" (.int 1) ledGrants,
   .hello ledIdentity ledHello,
   .create "owner" "esp" (.str "x") (.str "actuator.set") (.str "led")
     (.dict [("level", .bool true), ("maxHoldMs", .int 100)]) (.dict [("resourceRevision", .int 0)])
     (.int 1000) (.dict [("runId", .str "r"), ("episodeId", .str "e")]),
   .activate "owner" "x"]

def ledLedger : Ledger := (play (fun _ => "d") ledHost (fun _ => 0) ledQueued .empty).2

def ledOutbound : Checked (List Command) × Ledger :=
  transaction (outbound ledHost "esp" 1) (fun _ => 0) ledLedger

theorem dispatch_led : ∃ c, ledOutbound.1 = .ok [c] ∧ c.capability = "actuator.set" ∧
    ∃ device epoch, Op.outbound "esp" 1 = .outbound device epoch ∧ Clear ledOutbound.2 c device 0 :=
  ⟨_, rfl, rfl, (dispatch (play_run (fun _ => "d") ledHost (fun _ => 0) ledQueued .empty)).right.right
    ⟨.outbound "esp" 1, ledHost, fun _ => 0, ledOutbound.1⟩ ledOutbound.2 rfl _ (.head _) (by decide)⟩

end Executors

-- Final states are final, and receipts are counted once.
namespace Executors

open Python Hoare

variable {sha256 : List Char → String} {db db' db'' : Ledger} {e e' : Event} {es : List Event}
  {device : String} {epoch : ℤ} {payload : Dict} {out : List Command}

-- The row of a primary key.
def Ledger.command? (db : Ledger) (id : String) : Option Row :=
  db.commands.find? (isCommand id)

theorem Grown.command? {id : String} {r : Row} (h : Grown db db') (hr : db.command? id = some r) :
    ∃ r', db'.command? id = some r' ∧ r.Moves r' := by
  refine h.commands.find? (fun a b hm => ?_) hr
  simp only [isCommand, hm.commandId]

theorem Ledger.command?_mem {id : String} {r : Row} (h : db.command? id = some r) :
    r ∈ db.commands ∧ r.commandId = id :=
  ⟨List.mem_of_find?_eq_some h, of_decide_eq_true (List.find?_some (p := isCommand id) h)⟩

theorem Ledger.Unique.command? {r : Row} (hu : db.Unique) (hr : r ∈ db.commands) :
    db.command? r.commandId = some r := by
  cases h : db.command? r.commandId
  case none       =>
    exact absurd (decide_eq_true rfl) (List.find?_eq_none.mp h r hr)
  case some found =>
    have ⟨hf, he⟩ := Ledger.command?_mem h
    exact congrArg some (hu.eq hr hf he)

-- The outcome is unknown until a terminal state is reported, and a final state is kept.
structure Row.Later (r r' : Row) : Prop where
  settled : r.state.settled → r'.state = r.state
  unknown : r.state = .unknownOutcome → r'.state.terminal
  seq     : r.receiptSeq ≤ r'.receiptSeq

theorem Row.Moves.later {r r' : Row} (h : r.Moves r') : r.Later r' where
  settled := h.state.settled
  unknown hu := h.state.terminal (hu ▸ rfl)
  seq := h.seq

-- A receipt that was accepted before.
def Stored (db : Ledger) (payload : Dict) : Prop :=
  ∃ p ∈ db.receipts, Names payload p.commandId p.seq ∧ p.body = canonical payload

theorem Stored.grown (h : Stored db payload) (hg : Grown db db') : Stored db' payload := by
  obtain ⟨p, hp, hs⟩ := h
  exact ⟨p, hg.receipts.subset hp, hs⟩

-- A receipt that is new moves the number of its command up to its own.
structure Counted (db db' : Ledger) (payload : Dict) (id : String) (seq : ℤ) : Prop where
  names    : Names payload id seq
  fresh    : ¬Recorded db id seq
  receipts : ∃ t, db'.receipts = db.receipts ++ [⟨id, seq, canonical payload, t⟩]
  row      : ∃ r r', db.command? id = some r ∧ db'.command? id = some r' ∧ r.receiptSeq < seq ∧
    r'.receiptSeq = seq

theorem Accepted.counted {r : Row} {status : State} {seq : ℤ} (hu : db.Unique)
    (h : Accepted db db' device payload r status seq) : Counted db db' payload r.commandId seq := by
  refine ⟨h.names, h.fresh, h.receipts, ?_⟩
  have ⟨r', hr', hm⟩ := h.commands.mem_right h.row
  have hr'' := (hu.of_kept h.commands).command? hr'
  rw [hm.commandId] at hr''
  exact ⟨r, r', hu.command? h.row, hr'', h.later, (h.moved r' hr' hm.commandId).left⟩

theorem Accepted.stored {r : Row} {status : State} {seq : ℤ}
    (h : Accepted db db' device payload r status seq) : Stored db' payload := by
  have ⟨t, ht⟩ := h.receipts
  exact ⟨_, ht ▸ List.mem_append_right _ (List.mem_singleton.mpr rfl), h.names, rfl⟩

theorem step_receipt (hu : db.Unique) (h : (system sha256).step db e db')
    (ho : e.op = .receipt device epoch payload) (ha : e.answer = .ok out) :
    (db' = db ∧ Stored db payload) ∨
      ∃ r status seq, Accepted db db' device payload r status seq := by
  have h : transaction (e.op.run sha256 e.host) e.times db = (e.answer, db') := h
  rw [ho, ha] at h
  obtain ⟨s, hs, rfl⟩ := transaction_ok h
  have hd : Triple (· = ⟨db, e.times⟩) ((fun _ => []) <$> receipt e.host device epoch payload) _ _ :=
    (receipt_does hu).silent (R := fun _ db' => (db' = db ∧ Stored db payload) ∨
      ∃ r status seq, Accepted db db' device payload r status seq) rfl fun _ _ h => h
  exact hd.ok rfl hs

-- A receipt that was accepted before changes nothing, whoever submits it.
theorem Stored.resubmitted (hu : db.Unique) (hs : Stored db payload)
    (h : (system sha256).step db e db') (ho : e.op = .receipt device epoch payload) : db' = db := by
  cases ha : e.answer
  case error f => exact step_refused h ha
  case ok out  =>
    rcases step_receipt hu h ho ha with ⟨h, _⟩ | ⟨r, _, seq, h⟩
    · exact h
    · obtain ⟨p, hp, hn, _⟩ := hs
      have ⟨hid, hseq⟩ := hn.eq h.names
      exact absurd ⟨p, hp, hid, hseq⟩ h.fresh

theorem commands_settle (h : (system sha256).Reachable db) (hr : (system sha256).Run db es db') :
    (∀ id r, db.command? id = some r → ∃ r', db'.command? id = some r' ∧ r.Later r') ∧
    ∀ e db'', (system sha256).step db' e db'' →
      ∀ device epoch payload, e.op = .receipt device epoch payload →
        ((∃ f, e.answer = .error f) ∧ db'' = db') ∨
        (∃ out, e.answer = .ok out) ∧
          ((db'' = db' ∧ Stored db' payload) ∨ ∃ id seq, Counted db' db'' payload id seq) ∧
          ∀ es' db₃ e' db₄ device' epoch', (system sha256).Run db'' es' db₃ →
            (system sha256).step db₃ e' db₄ → e'.op = .receipt device' epoch' payload → db₄ = db₃ := by
  have hu := reachable_unique h
  have hu' := reachable_unique (h.run hr)
  refine ⟨fun id r hid => ?_, fun e db'' hs device epoch payload ho => ?_⟩
  · have ⟨r', hr', hm⟩ := (run_grown hr hu).command? hid
    exact ⟨r', hr', hm.later⟩
  cases ha : e.answer
  case error f => exact .inl ⟨⟨f, rfl⟩, step_refused hs ha⟩
  case ok out  =>
    have hu'' := step_unique hu' hs
    have hst : Stored db'' payload := by
      rcases step_receipt hu' hs ho ha with ⟨rfl, h⟩ | ⟨_, _, _, h⟩
      · exact h
      · exact h.stored
    refine .inr ⟨⟨out, rfl⟩, ?_, fun es' db₃ e' db₄ device' epoch' hrun hs' ho' => ?_⟩
    · rcases step_receipt hu' hs ho ha with h | ⟨_, _, _, h⟩
      · exact .inl h
      · exact .inr ⟨_, _, h.counted hu'⟩
    · have hg := run_grown hrun hu''
      exact (hst.grown hg).resubmitted (reachable_unique (((h.run hr).step hs).run hrun)) hs' ho'

-- The device reports that it received the command.
def ledReceipt : Dict :=
  [("type", .str "receipt"), ("protocolVersion", .int 1), ("commandId", .str "x"),
   ("commandDigest", .str "d"), ("deviceId", .str "esp"), ("authorityId", .str "authority"),
   ("bootId", .str "b1"), ("controlSessionId", .str "s1"), ("leaseEpoch", .int 1),
   ("grantRevision", .int 2), ("status", .str "received"), ("receiptSeq", .int 1),
   ("deviceMonotonicMs", .int 7)]

def ledReceived : Checked (List Command) × Ledger :=
  transaction ((Op.receipt "esp" 1 ledReceipt).run (fun _ => "d") ledHost) (fun _ => 0) ledOutbound.2

theorem commands_settle_led : ∃ id seq, Counted ledOutbound.2 ledReceived.2 ledReceipt id seq := by
  have queued := play_run (fun _ => "d") ledHost (fun _ => 0) ledQueued .empty
  have sent : (system fun _ => "d").Run ledLedger
    [⟨.outbound "esp" 1, ledHost, fun _ => 0, ledOutbound.1⟩] ledOutbound.2 := .single rfl
  have received : (system fun _ => "d").step ledOutbound.2
    ⟨.receipt "esp" 1 ledReceipt, ledHost, fun _ => 0, ledReceived.1⟩ ledReceived.2 := rfl
  have h := (commands_settle (.run (.init rfl) queued) sent).right _ _ received "esp" 1 ledReceipt rfl
  rcases h with ⟨⟨f, hf⟩, _⟩ | ⟨_, ⟨_, p, hp, _⟩ | h, _⟩
  · have answered : ledReceived.1 = .ok [] := rfl
    simp [answered] at hf
  · have none : ledOutbound.2.receipts = [] := rfl
    simp [none] at hp
  · exact h

end Executors
