import Mathlib.Algebra.Ring.Nat
import Mathlib.Data.Fintype.Basic
import Mathlib.Logic.Function.Basic

-- main/executor_core.c, with the driver of main/main.c as its environment.
--
-- C strings are `String`s and the fixed-width integers keep their widths. `vx_init` zeroes what is
-- modelled by the empty string, `0`, `false` and the empty status.
namespace Firmware

abbrev idSize : ℕ := 193

abbrev recordCount : ℕ := 32

abbrev capHealth : UInt32 := 1

abbrev capSensor : UInt32 := 2

abbrev capSet : UInt32 := 4

inductive Status
  | empty
  | received
  | started
  | succeeded
  | failed
  | rejected
  | cancelled
  | unknown
  deriving DecidableEq, Repr

-- `status >= VX_SUCCEEDED`
def Status.final : Status → Bool
  | empty | received | started => false
  | _                          => true

structure Command where
  id                 : String
  digest             : String
  authority          : String
  device             : String
  boot               : String
  session            : String
  epoch              : UInt64
  grant              : UInt64
  capabilityRevision : UInt64
  issuedMs           : UInt64
  deadlineMs         : UInt64
  ttlMs              : UInt64
  capability         : UInt32
  expectedRevision   : UInt64
  holdMs             : UInt32
  level              : Bool
  deriving DecidableEq

def Command.zero : Command :=
  ⟨"", "", "", "", "", "", 0, 0, 0, 0, 0, 0, 0, 0, 0, false⟩

structure Record where
  command          : Command
  status           : Status
  seq              : UInt64
  monoMs           : UInt64
  observedUnixMs   : UInt64
  resourceRevision : UInt64
  readback         : Bool
  acknowledged     : Bool
  deriving DecidableEq

def Record.zero : Record :=
  ⟨.zero, .empty, 0, 0, 0, 0, false, false⟩

structure Journal where
  version      : UInt32
  highestEpoch : UInt64
  records      : Fin recordCount → Record
  deriving DecidableEq

def Journal.zero : Journal :=
  ⟨0, 0, fun _ => .zero⟩

structure Executor where
  journal            : Journal
  authority          : String
  device             : String
  boot               : String
  session            : String
  armed              : Bool
  connected          : Bool
  healthy            : Bool
  epoch              : UInt64
  grant              : UInt64
  capabilityRevision : UInt64
  revision           : UInt64
  anchorServerMs     : UInt64
  anchorMonoMs       : UInt64
  leaseUntilMs       : UInt64
  outputUntilMono    : UInt64
  maxHoldMs          : UInt32
  localCapabilities  : UInt32
  grants             : UInt32

def Executor.zero : Executor :=
  ⟨.zero, "", "", "", "", false, false, false, 0, 0, 0, 0, 0, 0, 0, 0, 0, 0, 0⟩

-- The command that drove the output high, when it started and what its deadline left of it.
structure Raise where
  command   : Command
  mono      : UInt64
  now       : UInt64
  maxHoldMs : UInt32

-- What `receipt` of main.c sends.
structure Observation where
  resourceId       : String
  resourceRevision : UInt64
  value            : Bool
  observedUnixMs   : UInt64
  deriving DecidableEq

structure Receipt where
  authorityId       : String
  deviceId          : String
  bootId            : String
  controlSessionId  : String
  commandId         : String
  commandDigest     : String
  leaseEpoch        : UInt64
  grantRevision     : UInt64
  status            : Status
  receiptSeq        : UInt64
  deviceMonotonicMs : UInt64
  observation       : Option Observation
  deriving DecidableEq

def Command.resource (c : Command) : String :=
  if c.capability = capSet then "logic.led"
  else if c.capability = capSensor then "sensor.input"
  else "device"

def Record.receipt (r : Record) : Receipt where
  authorityId := r.command.authority
  deviceId := r.command.device
  bootId := r.command.boot
  controlSessionId := r.command.session
  commandId := r.command.id
  commandDigest := r.command.digest
  leaseEpoch := r.command.epoch
  grantRevision := r.command.grant
  status := r.status
  receiptSeq := r.seq
  deviceMonotonicMs := r.monoMs
  observation := if r.status = .succeeded then
      some ⟨r.command.resource, r.resourceRevision, r.readback, r.observedUnixMs⟩
    else none

-- The executor and its surroundings: the journal that the last successful `persist` left in flash,
-- the physical output (`none` is low), every receipt handed to the transport, and every command on
-- behalf of which the output driver was invoked.
structure World where
  ram      : Executor
  flash    : Option Journal
  output   : Option Raise
  sent     : List Receipt
  actuated : List Command

-- Power loss can interrupt every driver call; nothing that follows it happens.
inductive PowerLoss
  | mk

abbrev Exec := EStateM PowerLoss World

inductive Outcome
  | done
  | failed
  | powerLoss
  deriving DecidableEq

-- Where a failed write leaves the output.
inductive Leaves
  | unchanged
  | asRequested
  | low
  deriving DecidableEq

inductive WriteAnswer
  | done
  | failed (leaves : Leaves)
  | powerLoss
  deriving DecidableEq

inductive ReadAnswer
  | level (value : Bool)
  | powerLoss
  deriving DecidableEq

def Leaves.output (old requested : Option Raise) : Leaves → Option Raise
  | unchanged   => old
  | asRequested => requested
  | low         => none

def ram : Exec Executor := return (← get).ram

def modifyRam (f : Executor → Executor) : Exec Unit :=
  modify fun w => { w with ram := f w.ram }

def Executor.setRecord (e : Executor) (i : Fin recordCount) (r : Record) : Executor :=
  { e with journal.records := Function.update e.journal.records i r }

def modifyRecord (i : Fin recordCount) (f : Record → Record) : Exec Unit :=
  modifyRam fun e => e.setRecord i (f (e.journal.records i))

def persist : Outcome → Exec Bool
  | .done      => do
    modify fun w => { w with flash := some w.ram.journal }
    return true
  | .failed    => return false
  | .powerLoss => throw .mk

def writeOutput (level : Option Raise) : WriteAnswer → Exec Bool
  | .done          => do
    modify fun w => { w with output := level }
    return true
  | .failed leaves => do
    modify fun w => { w with output := leaves.output w.output level }
    return false
  | .powerLoss     => throw .mk

def readLevel : ReadAnswer → Exec Bool
  | .level value => return value
  | .powerLoss   => throw .mk

-- A dropped network receipt counts as sent here: the Engine receives some of what is sent.
def receipt (powerLoss : Bool) (r : Record) : Exec Unit :=
  if powerLoss then throw .mk
  else modify fun w => { w with sent := w.sent ++ [r.receipt] }

-- `copy_id` accepts these identifiers.
def validId (s : String) : Bool := s ≠ "" && s.utf8ByteSize < idSize

namespace Executor

variable (e : Executor)

def serverNow (mono : UInt64) : UInt64 :=
  if mono < e.anchorMonoMs then 0xFFFFFFFFFFFFFFFF else e.anchorServerMs + mono - e.anchorMonoMs

def query (id : String) : Option Record :=
  (List.finRange recordCount).map e.journal.records |>.find? fun r =>
    r.status ≠ .empty && r.command.id = id

def slot? (p : Record → Bool) : Option (Fin recordCount) :=
  (List.finRange recordCount).find? fun i => p (e.journal.records i)

end Executor

-- The driver's answers in a call of `save`: to `persist`, and to the write that follows a failure.
structure SaveAnswers where
  persist : Outcome := .done
  output  : WriteAnswer := .done
  deriving DecidableEq

def Executor.disable (e : Executor) : Executor :=
  { e with healthy := false, armed := false, connected := false }

def save (a : SaveAnswers) : Exec Bool := do
  let stored ← persist a.persist
  if stored then return true
  else
    modifyRam Executor.disable
    let _ ← writeOutput none a.output
    return false

structure EmitAnswers where
  save    : SaveAnswers := {}
  receipt : Bool := false
  deriving DecidableEq

def Record.stamp (r : Record) (e : Executor) (state : Status) (mono : UInt64) : Record :=
  { r with
    status := state
    seq := r.seq + 1
    monoMs := mono
    observedUnixMs := e.serverNow mono
    resourceRevision := e.revision }

-- The receipt of a record. A state that could not be stored is reported, and kept in RAM, as
-- unknown.
def report (powerLoss : Bool) (i : Fin recordCount) (stored : Bool) : Exec Unit := do
  modifyRecord i fun r => { r with status := if stored then r.status else .unknown }
  let e ← ram
  receipt powerLoss (e.journal.records i)

def emit (a : EmitAnswers) (i : Fin recordCount) (state : Status) (mono : UInt64) : Exec Unit := do
  let e ← ram
  modifyRecord i fun r => r.stamp e state mono
  let stored ← save a.save
  report a.receipt i stored

-- A record of an interrupted command, as the next boot finds it.
def Record.repair (r : Record) : Record :=
  if r.status = .started ∨ r.status = .received then
    { r with
      status := if r.status = .started then .unknown else .cancelled
      seq := r.seq + 1
      acknowledged := false }
  else r

structure BootAnswers where
  output : WriteAnswer := .done
  save   : SaveAnswers := {}
  deriving DecidableEq

-- The executor that `vx_init` builds from the journal in flash, where it accepts its arguments.
def Executor.boot? (flash : Option Journal) (authority device boot : String)
    (localCapabilities maxHoldMs : UInt32) : Option Executor :=
  let journal := flash.getD { Journal.zero with version := 1 }
  if !(validId authority && validId device && validId boot) || journal.version ≠ 1 then none
  else some
    { Executor.zero with
      journal := { journal with records := fun i => (journal.records i).repair }
      authority := authority
      device := device
      boot := boot
      capabilityRevision := 1
      revision := 1
      localCapabilities := localCapabilities
      maxHoldMs := maxHoldMs
      healthy := 0 < maxHoldMs }

def init (a : BootAnswers) (authority device boot : String)
    (localCapabilities maxHoldMs : UInt32) : Exec Bool := do
  let _ ← writeOutput none a.output
  let w ← get
  match Executor.boot? w.flash authority device boot localCapabilities maxHoldMs with
  | none   => return false
  | some e =>
    modifyRam fun _ => e
    if e.healthy then save a.save else return false

def arm (session : String) : Exec Bool := do
  let e ← ram
  if !e.healthy || e.armed || !validId session then return false
  else
    modifyRam fun e => { e with session := session, armed := true, connected := false }
    return true

-- A failed attempt to switch off is remembered.
def switchOff (a : WriteAnswer) : Exec Unit := do
  let written ← writeOutput none a
  modifyRam fun e => { e with healthy := e.healthy && written }

def stop (a : WriteAnswer) : Exec Unit := do
  modifyRam fun e =>
    { e with
      armed := false
      connected := false
      session := ""
      outputUntilMono := 0
      revision := e.revision + 1 }
  switchOff a

def disconnect (a : WriteAnswer) : Exec Unit := do
  modifyRam fun e =>
    { e with connected := false, outputUntilMono := 0, revision := e.revision + 1 }
  switchOff a

structure Session where
  epoch        : UInt64
  grant        : UInt64
  grants       : UInt32
  serverMs     : UInt64
  leaseUntilMs : UInt64
  deriving DecidableEq

def Executor.acceptsSession (e : Executor) (s : Session) (mono : UInt64) : Bool :=
  if !e.armed || !e.healthy || s.epoch < e.journal.highestEpoch || s.epoch = 0 || s.grant = 0 ||
      s.leaseUntilMs ≤ s.serverMs || s.leaseUntilMs - s.serverMs > 30000 then false
  else if e.connected && (s.epoch ≠ e.epoch || s.grant ≠ e.grant) then false
  else if s.epoch = e.epoch && (!e.connected || e.serverNow mono ≥ e.leaseUntilMs) then false
  else if e.connected && e.serverNow mono ≥ e.leaseUntilMs then false
  else if e.anchorServerMs ≠ 0 && s.serverMs + 1000 < e.serverNow mono then false
  else true

-- The end of `vx_session`: server time does not go back, and the lease starts.
def openSession (s : Session) (mono : UInt64) : Exec Bool := do
  let e ← ram
  let previousNow := if e.anchorServerMs ≠ 0 then e.serverNow mono else 0
  let serverMs := if s.serverMs < previousNow then previousNow else s.serverMs
  if serverMs ≥ s.leaseUntilMs then return false
  else
    modifyRam fun e =>
      { e with
        epoch := s.epoch
        grant := s.grant
        grants := s.grants &&& e.localCapabilities
        anchorServerMs := serverMs
        anchorMonoMs := mono
        leaseUntilMs := s.leaseUntilMs
        connected := true }
    return true

def session (a : SaveAnswers) (s : Session) (mono : UInt64) : Exec Bool := do
  let e ← ram
  if !e.acceptsSession s mono then return false
  else if s.epoch > e.journal.highestEpoch then
    modifyRam fun e => { e with journal.highestEpoch := s.epoch }
    let stored ← save a
    if stored then openSession s mono else return false
  else openSession s mono

-- Why `vx_execute` refuses a command that has no record.
def Executor.refusal (e : Executor) (c : Command) (mono : UInt64) : Option String :=
  let now := e.serverNow mono
  if !e.healthy || !e.armed || !e.connected then some "requires_local_arm"
  else if c.authority ≠ e.authority ∨ c.device ≠ e.device ∨ c.boot ≠ e.boot ∨
      c.session ≠ e.session then some "identity_stale"
  else if c.epoch ≠ e.epoch ∨ c.grant ≠ e.grant ∨ c.capabilityRevision ≠ e.capabilityRevision then
    some "authority_revision_stale"
  else if now ≥ e.leaseUntilMs ∨ now ≥ c.deadlineMs ∨ c.deadlineMs > e.leaseUntilMs ∨
      now < c.issuedMs ∨ c.ttlMs = 0 ∨ c.ttlMs > 30000 ∨ c.deadlineMs - c.issuedMs > c.ttlMs then
    some "expired"
  else if c.capability &&& e.grants = 0 ∨ (c.capability ≠ capHealth ∧ c.capability ≠ capSensor ∧
      c.capability ≠ capSet) then some "not_granted"
  else if c.capability = capSet ∧ (c.expectedRevision ≠ e.revision ∨ c.holdMs = 0 ∨
      c.holdMs > 30000) then some "resource_revision_or_hold_invalid"
  else none

-- A slot can be taken when it is empty, or when its command is settled, acknowledged and fenced off
-- by its deadline and its epoch.
def Executor.reusable (e : Executor) (now : UInt64) (r : Record) : Bool :=
  r.status = .empty ||
  (r.acknowledged && r.status.final && now > r.command.deadlineMs && r.command.epoch < e.epoch)

def Command.hold (c : Command) (maxHoldMs : UInt32) (now : UInt64) : UInt64 :=
  let hold := if c.holdMs < maxHoldMs then c.holdMs.toUInt64 else maxHoldMs.toUInt64
  if hold > c.deadlineMs - now then c.deadlineMs - now else hold

structure ExecuteAnswers where
  prior    : Bool := false
  received : EmitAnswers := {}
  started  : EmitAnswers := {}
  write    : WriteAnswer := .done
  read     : ReadAnswer := .level false
  final    : EmitAnswers := {}
  deriving DecidableEq

-- The effect of a command; it tells whether the effect was observed.
def act (a : ExecuteAnswers) (c : Command) (mono now : UInt64) (i : Fin recordCount) :
    Exec Bool := do
  if c.capability = capSet then
    let e ← ram
    let level := if c.level then some ⟨c, mono, now, e.maxHoldMs⟩ else none
    modifyRam fun e =>
      { e with outputUntilMono := if c.level then mono + c.hold e.maxHoldMs now else 0 }
    modify fun w => { w with actuated := w.actuated ++ [c] }
    let written ← writeOutput level a.write
    modifyRam fun e => { e with revision := e.revision + 1 }
    let readback ← readLevel a.read
    modifyRecord i fun r => { r with readback := readback }
    return written && readback == c.level
  else
    let readback ← readLevel a.read
    modifyRecord i fun r => { r with readback := readback }
    return true

-- The write-ahead order: RECEIVED, STARTED, the effect, the result.
def perform (a : ExecuteAnswers) (c : Command) (mono now : UInt64) (i : Fin recordCount) :
    Exec (Option String) := do
  modifyRecord i fun _ => { Record.zero with command := c }
  emit a.received i .received mono
  let e ← ram
  if !e.healthy then return some "journal_write_failed"
  else
    emit a.started i .started mono
    let e ← ram
    if !e.healthy then return some "journal_write_failed"
    else
      let ok ← act a c mono now i
      emit a.final i (if ok then .succeeded else .failed) mono
      let e ← ram
      return if e.healthy then none else some "journal_write_failed"

def execute (a : ExecuteAnswers) (c : Command) (mono : UInt64) : Exec (Option String) := do
  let e ← ram
  match e.query c.id with
  | some prior =>
    if prior.command.digest ≠ c.digest then return some "command_id_conflict"
    else
      receipt a.prior prior
      return none
  | none =>
    match e.refusal c mono with
    | some error => return some error
    | none =>
      match e.slot? (e.reusable (e.serverNow mono)) with
      | none   => return some "journal_full"
      | some i => perform a c mono (e.serverNow mono) i

def ack (a : SaveAnswers) (id : String) (seq : UInt64) : Exec Unit := do
  let e ← ram
  match e.slot? fun r => r.command.id = id && r.seq = seq && r.status.final && !r.acknowledged with
  | none   => return ()
  | some i =>
    modifyRecord i fun r => { r with acknowledged := true }
    let _ ← save a
    return ()

def Executor.mustSwitchOff (e : Executor) (mono : UInt64) : Bool :=
  (e.outputUntilMono ≠ 0 && mono ≥ e.outputUntilMono) ||
  (e.connected && e.serverNow mono ≥ e.leaseUntilMs)

def tick (a : WriteAnswer) (mono : UInt64) : Exec Unit := do
  let e ← ram
  if e.mustSwitchOff mono then
    switchOff a
    modifyRam fun e =>
      { e with
        outputUntilMono := 0
        revision := e.revision + 1
        connected := e.connected && e.serverNow mono < e.leaseUntilMs }
  else return ()

end Firmware
