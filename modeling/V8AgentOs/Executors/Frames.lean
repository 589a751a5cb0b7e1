import V8AgentOs.Executors.Run
import V8AgentOs.Firmware.Accepts

-- Whether the device accepts the frame of a command that the service created.
namespace Executors

open Python Hoare
open Firmware (cName isDouble isPlain parseFrame)

variable {sha256 : List Char → String} {host : Host} {owner device : String} {db db' : Ledger}
  {times : ℕ → ℤ} {commandId capability resource arguments precondition ttlMs trace : Json}

-- The bytes that the transport sends for a command.
def Command.frame (c : Command) : List UInt8 :=
  utf8 (canonical c.json)

-- The parts of a command that come with the request.
structure Requested (commandId capability resource arguments precondition ttlMs trace : Json)
    (c : Command) : Prop where
  commandId    : commandId = .str c.commandId
  capability   : capability = .str c.capability
  resource     : resource = .str c.resourceId
  arguments    : arguments = .dict c.arguments
  precondition : precondition = .dict c.precondition
  ttlMs        : ttlMs = .int c.ttlMs
  trace        : trace = .dict c.traceRef

-- The parts that come from the session of the device, and the time of the request.
structure Addressed (c : Command) (connection : Connection) (hello : Hello) (t : ℤ) : Prop where
  deviceId           : c.deviceId = hello.deviceId
  authorityId        : c.authorityId = hello.authorityId
  bootId             : c.bootId = hello.bootId
  controlSessionId   : c.controlSessionId = hello.controlSessionId
  capabilityRevision : c.capabilityRevision = hello.capabilityRevision
  leaseEpoch         : c.leaseEpoch = connection.epoch
  grantRevision      : c.grantRevision = connection.grantRevision
  issued             : c.issuedUnixMs = t
  deadline           : c.deadlineUnixMs = min (t + c.ttlMs) connection.leaseUntil

theorem identifier_ok {value : Json} {code id : String} (h : identifier value code = .ok id) :
    value = .str id := by
  unfold identifier at h
  split at h
  case h_2 => simp at h
  case h_1 s =>
    have ⟨_, h⟩ := require_bind.mp h
    cases h
    rfl

theorem checked_bind {α β : Type} {x : Checked α} {f : α → Checked β} {b : β} :
    (x >>= f) = .ok b ↔ ∃ a, x = .ok a ∧ f a = .ok b := by
  cases x <;> simp [bind, Except.bind]

theorem action_ok {a : Action} (h : action capability resource arguments precondition = .ok a) :
    capability = .str a.capability ∧ resource = .str a.resource ∧ arguments = .dict a.arguments ∧
      precondition = .dict a.precondition := by
  unfold action at h
  split at h
  case h_2 => simp at h
  case h_1 cap =>
    obtain ⟨_, h⟩ := require_bind.mp h
    obtain ⟨res, hres, h⟩ := checked_bind.mp h
    split at h
    case h_2 => simp at h
    case h_1 args pre =>
      obtain ⟨_, h⟩ := require_bind.mp h
      obtain ⟨_, _, h⟩ := checked_bind.mp h
      obtain ⟨_, _, h⟩ := checked_bind.mp h
      cases h
      exact ⟨rfl, identifier_ok hres, rfl, rfl⟩

theorem asDict_ok {value : Json} {d : Dict} (h : asDict value = .ok d) : value = .dict d := by
  cases value <;> cases h
  rfl

-- The rows before a request, and the sessions of the devices.
def Before (db db' : Ledger) : Prop :=
  db'.connections = db.connections

theorem expirePending_before (rows : List Row) :
    Does (Before db) (expirePending rows) fun _ => Before db := by
  induction rows
  case nil          => exact .pure fun _ h => h
  case cons r rs hi =>
    refine .bind (Reads.now _) fun t => .bind (.ite (fun _ => ?_) fun _ => .pure fun _ h => h) fun _ => hi
    exact .bind (Reads.now _) fun t => .update fun _ h => h

-- The session under which a command is created.
theorem admission_session {a : Action} : Does (Before db) (admission host device a) fun r _ =>
    db.connections device = r.1 ∧ r.1.hello = some r.2 := by
  refine .bind (Reads.ledger _) fun _ => .bind (expirePending_before _) fun _ => ?_
  refine .bind (Q := fun c _ => db.connections device = c) ?_ fun c => ?_
  · exact connection_eq.conseq (fun _ h => h) fun c db' ⟨hb, hc⟩ => hb ▸ hc
  refine .bind (current_reads _) fun _ => ?_
  split
  case h_1 => exact .throw
  case h_2 h hh =>
    refine .guard fun _ => .bind ((Reads.checked _).inCase _) fun _ => .bind (Reads.ledger _) fun _ => ?_
    refine .guard fun _ => .bind ((Reads.checked _).inCase _) fun _ => ?_
    refine .bind (Reads.inCase (.bind (.checked _) fun _ => observationCurrent_reads) _) fun _ => ?_
    exact .pure fun _ hc => ⟨hc, hh⟩

-- The row of a new command.
theorem create_row : Does (· = db)
    (create sha256 host owner device commandId capability resource arguments precondition ttlMs trace)
    fun row _ => row ∈ db.commands ∨ ∃ hello, (db.connections device).hello = some hello ∧
      Requested commandId capability resource arguments precondition ttlMs trace row.body ∧
      Addressed row.body (db.connections device) hello row.createdAt ∧
      row.body.commandDigest = digest sha256 row.body.unsigned := by
  refine .value fun id hid => .value fun a ha => .value fun ttl httl => .value fun trace htrace => ?_
  refine .guard fun _ => .bind (identity_reads _) fun _ => .bind ledger_eq fun db' => .assume ?_
  rintro _ ⟨rfl, rfl⟩
  split
  case h_1 old ho =>
    exact .guard fun _ => .pure fun _ _ => .inl (List.mem_of_find?_eq_some ho)
  case h_2 =>
    refine .bind (admission_session.conseq (fun _ h => congrArg Ledger.connections h) fun _ _ h => h) fun (c, h) => ?_
    refine .bind (Reads.now _) fun t => .bind (Q := fun _ _ => db'.connections device = c ∧ c.hello = some h)
      (.update fun _ h => h) fun _ => .pure fun _ ⟨hc, hh⟩ => .inr ⟨h, hc ▸ hh, ?_, ?_, rfl⟩
    · obtain ⟨rfl, rfl, rfl, rfl⟩ := action_ok ha
      exact ⟨identifier_ok hid, rfl, rfl, rfl, rfl, (integer_ok httl).left, asDict_ok htrace⟩
    · subst hc
      exact ⟨rfl, rfl, rfl, rfl, rfl, rfl, rfl, rfl, rfl⟩

-- The frame of a command has one level more than its deepest part.
theorem Command.nest_json (c : Command) : (Json.dict c.json).nest =
    max (Json.dict c.arguments).nest (max (Json.dict c.precondition).nest (Json.dict c.traceRef).nest) + 1 := by
  simp [Command.json, Command.unsigned, Json.nest, Json.nestMembers]

def Command.numbers (c : Command) : List ℤ :=
  [c.capabilityRevision, c.leaseEpoch, c.grantRevision, c.issuedUnixMs, c.deadlineUnixMs, c.ttlMs]

theorem Command.isPlain_json (c : Command) : isPlain (.dict c.json) ↔ (∀ n ∈ c.numbers, isDouble n) ∧
    isPlain (.dict c.arguments) ∧ isPlain (.dict c.precondition) ∧ isPlain (.dict c.traceRef) := by
  have names : (c.json.map fun m => cName m.1).Nodup := by
    simp only [Command.json, Command.unsigned, List.map_cons, List.map_nil, List.cons_append, List.nil_append]
    decide +kernel
  have version : isDouble 1 := Firmware.isDouble_of_lt (by decide)
  have count : c.json.length ≤ 256 := by
    simp only [Command.json, Command.unsigned, List.length_cons, List.length_nil, List.cons_append, List.nil_append]
    decide
  rw [isPlain, decide_eq_true names, decide_eq_true count, Bool.true_and, Bool.true_and,
    Firmware.plainMembers_iff]
  simp only [Command.json, Command.unsigned, Command.numbers, List.cons_append, List.nil_append,
    List.forall_mem_cons, isPlain, version]
  simp only [List.not_mem_nil, false_implies, implies_true, true_and, and_true]
  constructor
  · rintro ⟨capability, lease, grant, issued, deadline, ttl, arguments, precondition, trace⟩
    exact ⟨⟨capability, lease, grant, issued, deadline, ttl⟩, arguments, precondition, trace⟩
  · rintro ⟨⟨capability, lease, grant, issued, deadline, ttl⟩, arguments, precondition, trace⟩
    exact ⟨capability, lease, grant, issued, deadline, ttl, arguments, precondition, trace⟩

theorem Command.size_json (c : Command) : (Json.dict c.json).size = 290 +
    (Json.dict c.arguments).size + (Json.dict c.precondition).size + (Json.dict c.traceRef).size +
    (c.numbers.map fun n => (Json.int n).size).sum +
    ([c.commandId, c.deviceId, c.authorityId, c.bootId, c.controlSessionId, c.capability, c.resourceId,
      c.commandDigest].map fun s => (Json.str s).size).sum := by
  have names : (c.json.map fun m => bytes (quoted m.1) + 1).sum = 260 := by
    simp only [Command.json, Command.unsigned, List.map_cons, List.map_nil, List.cons_append, List.nil_append]
    decide +kernel
  have constants : (Json.str "command").size = 9 ∧ (Json.int 1).size = 1 := by decide +kernel
  have members : c.json.length = 19 := by
    simp only [Command.json, Command.unsigned, List.length_cons, List.length_nil, List.cons_append, List.nil_append]
  rw [Json.size, Json.sizeMembers_eq, members, List.sum_map_add, names]
  simp only [Command.json, Command.unsigned, Command.numbers, List.cons_append, List.nil_append,
    List.map_cons, List.map_nil, List.sum_cons, List.sum_nil, constants]
  omega

-- A hex digest of SHA-256
def IsHexDigest (s : String) : Prop :=
  s.toList.length = 64 ∧ ∀ c ∈ s.toList, c ∈ "0123456789abcdef".toList

theorem IsHexDigest.size {s : String} (h : IsHexDigest s) : (Json.str s).size = 66 := by
  -- A hex digit is one byte, and is not escaped.
  have digit : ∀ c ∈ "0123456789abcdef".toList, bytes (escape c) = 1 :=
    List.forall_iff_forall_mem.mp (by decide)
  have flat : ∀ cs : List Char, (∀ c ∈ cs, c ∈ "0123456789abcdef".toList) →
      bytes (cs.flatMap escape) = cs.length := by
    intro cs
    induction cs
    case nil          => exact fun _ => rfl
    case cons c cs hi =>
      intro hc
      have ⟨hc, hcs⟩ := List.forall_mem_cons.mp hc
      rw [List.flatMap_cons, bytes_append, digit c hc, hi hcs, List.length_cons, Nat.add_comm]
  show bytes ('"' :: s.toList.flatMap escape ++ ['"']) = 66
  rw [bytes_append, bytes_cons, flat _ h.right, h.left]
  rfl

-- The numbers and the texts of a frame, beside its three objects, its digest and its names.
def frameNumbers (connection : Connection) (hello : Hello) (ttl t : ℤ) : List ℤ :=
  [hello.capabilityRevision, connection.epoch, connection.grantRevision, t,
   min (t + ttl) connection.leaseUntil, ttl]

def helloTexts (hello : Hello) : List String :=
  [hello.deviceId, hello.authorityId, hello.bootId, hello.controlSessionId]

def frameSize (commandId capability resource arguments precondition trace : Json)
    (connection : Connection) (hello : Hello) (ttl t : ℤ) : ℕ :=
  356 + arguments.size + precondition.size + trace.size +
    ((frameNumbers connection hello ttl t).map fun n => (Json.int n).size).sum +
    ((helloTexts hello).map fun s => (Json.str s).size).sum +
    commandId.size + capability.size + resource.size

-- The requests whose frames the device can parse, at the time `t`.
structure Fits (commandId capability resource arguments precondition trace : Json)
    (connection : Connection) (hello : Hello) (ttl t : ℤ) : Prop where
  nest    : max arguments.nest (max precondition.nest trace.nest) ≤ 11
  plain   : isPlain arguments ∧ isPlain precondition ∧ isPlain trace
  numbers : ∀ n ∈ frameNumbers connection hello ttl t, isDouble n
  size    : frameSize commandId capability resource arguments precondition trace connection hello
    ttl t ≤ Firmware.maxFrame

theorem frame_accepted (cJSON : List UInt8 → Option Firmware.Item) {row : Row}
    (hdigest : ∀ text, IsHexDigest (sha256 text))
    (hcreate : transaction (create sha256 host owner device commandId capability resource arguments
      precondition ttlMs trace) times db = (.ok row, db'))
    (hnew : row ∉ db.commands)
    (hread : cJSON row.body.frame = some (Firmware.item (.dict row.body.json))) :
    ∃ hello, (db.connections device).hello = some hello ∧
      ((parseFrame cJSON row.body.frame).isSome ↔
        Fits commandId capability resource arguments precondition trace (db.connections device) hello
          row.body.ttlMs row.createdAt) := by
  obtain ⟨s, hs, rfl⟩ := transaction_ok hcreate
  obtain hold | ⟨hello, hh, hr, ha, hd⟩ := Triple.ok create_row rfl hs
  · exact absurd hold hnew
  refine ⟨hello, hh, ?_⟩
  generalize row.createdAt = t at ha
  generalize row.body = c at hr ha hd hread
  have numbers : c.numbers = frameNumbers (db.connections device) hello c.ttlMs t := by
    simp only [Command.numbers, frameNumbers, ha.capabilityRevision, ha.leaseEpoch, ha.grantRevision,
      ha.issued, ha.deadline]
  have size : (Json.dict c.json).size = frameSize commandId capability resource arguments precondition
      trace (db.connections device) hello c.ttlMs t := by
    have hex : (Json.str c.commandDigest).size = 66 := (hd ▸ hdigest _ : IsHexDigest c.commandDigest).size
    rw [Command.size_json, numbers, frameSize, hr.commandId, hr.capability, hr.resource, hr.arguments,
      hr.precondition, hr.trace]
    simp only [helloTexts, List.map_cons, List.map_nil, List.sum_cons, List.sum_nil, hex, ha.deviceId,
      ha.authorityId, ha.bootId, ha.controlSessionId]
    omega
  rw [Command.frame, canonical, Firmware.parseFrame_dumps hread, Command.nest_json, Command.isPlain_json,
    size, numbers, ← hr.arguments, ← hr.precondition, ← hr.trace]
  constructor
  · rintro ⟨hs, hn, hf, hp⟩
    exact ⟨Nat.le_of_succ_le_succ hn, hp, hf, hs⟩
  · rintro ⟨hn, hp, hf, hs⟩
    exact ⟨hs, Nat.succ_le_succ hn, hf, hp⟩

-- A device whose health may be read.
def healthHost : Host := ⟨"owner", fun _ => false⟩

def healthIdentity : Identity := ⟨"esp", "owner", "authority", "esp32", false⟩

def healthGrants : Json :=
  .list [.dict [("capability", .str "device.health"), ("resourceId", .str "device")]]

def healthHello : Dict :=
  [("type", .str "hello"), ("protocolVersion", .int 1), ("deviceId", .str "esp"),
   ("authorityId", .str "authority"), ("localEnabled", .bool true), ("bootId", .str "b1"),
   ("controlSessionId", .str "s1"), ("capabilityRevision", .int 1), ("capabilities", healthGrants)]

def zeroDigest : List Char → String :=
  fun _ => "0000000000000000000000000000000000000000000000000000000000000000"

def healthLedger : Ledger :=
  (play zeroDigest healthHost (fun _ => 0)
    [.elsewhere [healthIdentity] [], .grant "owner" "esp" (.int 1) healthGrants,
     .hello healthIdentity healthHello] .empty).2

def nested : ℕ → Json
  | 0     => .dict []
  | n + 1 => .dict [("a", nested n)]

def healthTrace : Json :=
  .dict [("runId", .str "r"), ("episodeId", .str "e")]

def healthCreated (precondition : Json) : Checked Row × Ledger :=
  transaction (create zeroDigest healthHost "owner" "esp" (.str "x") (.str "device.health")
    (.str "device") (.dict []) precondition (.int 1000) healthTrace) (fun _ => 0) healthLedger

def healthItem (precondition : Json) : Option Firmware.Item :=
  match (healthCreated precondition).1 with
  | .ok row  => some (Firmware.item (.dict row.body.json))
  | .error _ => none

theorem frame_accepted_health : ∃ row hello, (healthCreated (nested 0)).1 = .ok row ∧
    ((parseFrame (fun _ => healthItem (nested 0)) row.body.frame).isSome ↔
      Fits (.str "x") (.str "device.health") (.str "device") (.dict []) (nested 0) healthTrace
        (healthLedger.connections "esp") hello row.body.ttlMs row.createdAt) := by
  have digest : IsHexDigest (zeroDigest []) := ⟨by decide, List.forall_iff_forall_mem.mp (by decide)⟩
  have ⟨hello, _, h⟩ := frame_accepted (fun _ => healthItem (nested 0)) (fun _ => digest)
    (show healthCreated (nested 0) = (.ok _, _) from rfl) (fun h => nomatch h) rfl
  exact ⟨_, hello, rfl, h⟩

-- The service admits an empty object twelve levels deep, which is one level too deep in the frame.
theorem deepPrecondition_refused : ∃ row, (healthCreated (nested 11)).1 = .ok row ∧
    ∀ cJSON, parseFrame cJSON row.body.frame = none :=
  ⟨_, rfl, fun _ => Firmware.parseFrame_deep (by rw [Command.nest_json]; decide)⟩

end Executors
