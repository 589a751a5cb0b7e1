import V8AgentOs.Firmware.Core
import V8AgentOs.Lib.Transition
import V8AgentOs.Lib.Triple

-- main/main.c: the frames that reach the executor core, and the life of the device.
namespace Firmware

-- `handle_frame` for a command. A refused command that has no record is reported as rejected.
def handleCommand (a : ExecuteAnswers) (rejected : Bool) (c : Command) (mono rejectedAt : UInt64) :
    Exec Unit := do
  let failure ← execute a c mono
  let e ← ram
  if failure.isSome && (e.query c.id).isNone then
    receipt rejected
      { Record.zero with command := c, status := .rejected, seq := 1, monoMs := rejectedAt }
  else return ()

def handleQuery (powerLoss : Bool) (id : String) : Exec Unit := do
  let e ← ram
  match e.query id with
  | none        => return ()
  | some record => receipt powerLoss record

-- `safe_output` sets the pin itself.
def handleCancel (powerLoss : Bool) (id digest : String) : Exec Unit := do
  let e ← ram
  match e.query id with
  | none        => return ()
  | some record =>
    if record.command.digest = digest then
      modify fun w => { w with output := none }
      modifyRam fun e => { e with revision := e.revision + 1, outputUntilMono := 0 }
      receipt powerLoss record
    else return ()

-- A call of the core while the device is on, with the driver's answers to it.
inductive Call
  | arm (session : String)
  | stop (a : WriteAnswer)
  | disconnect (a : WriteAnswer)
  | session (a : SaveAnswers) (s : Session) (mono : UInt64)
  | command (a : ExecuteAnswers) (rejected : Bool) (c : Command) (mono rejectedAt : UInt64)
  | query (powerLoss : Bool) (id : String)
  | cancel (powerLoss : Bool) (id digest : String)
  | ack (a : SaveAnswers) (id : String) (seq : UInt64)
  | tick (a : WriteAnswer) (mono : UInt64)

def Call.run : Call → Exec Unit
  | arm s                           => discard <| Firmware.arm s
  | stop a                          => Firmware.stop a
  | disconnect a                    => Firmware.disconnect a
  | session a s mono                => discard <| Firmware.session a s mono
  | command a rejected c mono later => handleCommand a rejected c mono later
  | query powerLoss id              => handleQuery powerLoss id
  | cancel powerLoss id digest      => handleCancel powerLoss id digest
  | ack a id seq                    => Firmware.ack a id seq
  | tick a mono                     => Firmware.tick a mono

inductive Op
  | boot (a : BootAnswers) (authority device boot : String) (localCapabilities maxHoldMs : UInt32)
  | powerLoss
  | call (c : Call)

-- Without power the memory is lost and the pin is not driven.
def World.lose (w : World) : World :=
  { w with ram := .zero, output := none }

-- `boots` are the boot identifiers drawn so far, `delivered` the commands received so far.
structure State where
  world     : World
  on        : Bool
  boots     : List String
  delivered : List Command

def State.initial : State :=
  ⟨⟨.zero, none, none, [], []⟩, false, [], []⟩

def Call.delivers : Call → List Command
  | command _ _ c _ _ => [c]
  | _                 => []

namespace State

variable (s : State)

def off (w : World) : State :=
  { s with world := w.lose, on := false }

-- The device stays off when `vx_init` fails.
def boot (a : BootAnswers) (authority device boot : String) (localCapabilities maxHoldMs : UInt32) :
    State :=
  let s := { s with boots := boot :: s.boots }
  match init a authority device boot localCapabilities maxHoldMs s.world.lose with
  | .ok true w  => { s with world := w, on := true }
  | .ok false w => s.off w
  | .error _ w  => s.off w

def call (c : Call) : State :=
  let s := { s with delivered := c.delivers ++ s.delivered }
  match c.run s.world with
  | .ok _ w    => { s with world := w }
  | .error _ w => s.off w

def exec : Op → State
  | .boot a authority device boot caps hold => s.boot a authority device boot caps hold
  | .powerLoss                              => s.off s.world
  | .call c                                 => s.call c

-- A boot draws a boot identifier that was never used before.
def Allows : Op → Prop
  | .boot _ _ _ boot _ _ => boot ∉ s.boots
  | .powerLoss           => True
  | .call _              => s.on

instance : DecidablePred s.Allows
  | .boot _ _ _ boot _ _ => inferInstanceAs (Decidable (boot ∉ s.boots))
  | .powerLoss           => inferInstanceAs (Decidable True)
  | .call _              => inferInstanceAs (Decidable (s.on = true))

end State

def system : Transition State Op where
  init s := s = .initial
  step s op t := s.Allows op ∧ t = s.exec op

def State.run : State → List Op → State
  | s, []        => s
  | s, op :: ops => (s.exec op).run ops

-- Every operation of a list is allowed, and meets a condition, in the state it is performed in.
def State.passes (ok : State → Op → Prop) [∀ s, DecidablePred (ok s)] : State → List Op → Bool
  | _, []        => true
  | s, op :: ops => ok s op && s.Allows op && (s.exec op).passes ok ops

theorem run_restricted {ok : State → Op → Prop} [∀ s, DecidablePred (ok s)] {s : State}
    (h : (system.restrict ok).Reachable s) (ops : List Op) (hp : s.passes ok ops = true) :
    (system.restrict ok).Reachable (s.run ops) := by
  induction ops generalizing s
  case nil            => exact h
  case cons op ops hi =>
    simp only [State.passes, Bool.and_eq_true, decide_eq_true_eq] at hp
    exact hi (.step h ⟨hp.left.left, hp.left.right, rfl⟩) hp.right

theorem run_reachable (ops : List Op) (hp : State.initial.passes (fun _ _ => True) ops = true) :
    system.Reachable (State.initial.run ops) :=
  (run_restricted (.init rfl) ops hp).of_restrict

-- A high output for 100 ms, addressed to the first boot and its first epoch.
def highCommand : Command where
  id := "x"
  digest := "d1"
  authority := "A"
  device := "D"
  boot := "b1"
  session := "s"
  epoch := 1
  grant := 1
  capabilityRevision := 1
  issuedMs := 1000
  deadlineMs := 2000
  ttlMs := 1000
  capability := capSet
  expectedRevision := 1
  holdMs := 100
  level := true

def started : List Op :=
  [.boot {} "A" "D" "b1" 7 500, .call (.arm "s"), .call (.session {} ⟨1, 1, 7, 1000, 20000⟩ 0)]

def deliver (c : Command) (mono : UInt64) : Op :=
  .call (.command { read := .level c.level } false c mono mono)

end Firmware

namespace Firmware

open Hoare

variable {w t : World} {e : Executor} {i j : Fin recordCount} {r : Record} {c : Command}
  {state : Status} {mono now : UInt64} {id : String} {P : World → Prop} {α : Type}
  {Q : α → World → Prop} {E : PowerLoss → World → Prop}

namespace Executor

@[simp]
theorem setRecord_self : (e.setRecord i r).journal.records i = r := by
  simp [setRecord]

theorem setRecord_other (h : j ≠ i) :
    (e.setRecord i r).journal.records j = e.journal.records j := by
  simp [setRecord, h]

@[simp]
theorem setRecord_setRecord {r' : Record} : (e.setRecord i r).setRecord i r' = e.setRecord i r' := by
  simp [setRecord]

theorem setRecord_same : e.setRecord i (e.journal.records i) = e := by
  simp [setRecord]

@[simp]
theorem disable_setRecord : e.disable.setRecord i r = (e.setRecord i r).disable := rfl

@[simp]
theorem disable_journal : e.disable.journal = e.journal := rfl

theorem query_some (h : e.query id = some r) :
    ∃ i, e.journal.records i = r ∧ r.status ≠ .empty ∧ r.command.id = id := by
  have hm := List.mem_of_find?_eq_some h
  have hp := List.find?_some h
  simp only [List.mem_map, List.mem_finRange, true_and] at hm
  have ⟨i, hi⟩ := hm
  exact ⟨i, hi, by simpa using hp⟩

theorem query_none (h : e.query id = none) (i : Fin recordCount)
    (hs : (e.journal.records i).status ≠ .empty) : (e.journal.records i).command.id ≠ id := by
  have := List.find?_eq_none.mp h (e.journal.records i) (List.mem_map_of_mem (List.mem_finRange i))
  simpa [hs] using this

theorem slot?_some {p : Record → Bool} (h : e.slot? p = some i) : p (e.journal.records i) = true :=
  List.find?_some (p := fun i => p (e.journal.records i)) h

-- What holds of a command that has no reason to be refused.
structure Admits (e : Executor) (c : Command) (mono : UInt64) : Prop where
  healthy   : e.healthy
  armed     : e.armed
  connected : e.connected
  boot      : c.boot = e.boot
  epoch     : c.epoch = e.epoch
  deadline  : e.serverNow mono < c.deadlineMs
  lease     : c.deadlineMs ≤ e.leaseUntilMs
  hold      : c.capability = capSet → c.holdMs ≠ 0

theorem refusal_none (h : e.refusal c mono = none) : e.Admits c mono := by
  simp only [refusal] at h
  split_ifs at h with h₁ h₂ h₃ h₄ h₅ h₆
  simp only [Bool.or_eq_true, Bool.not_eq_true', not_or, Bool.not_eq_false] at h₁
  simp only [not_or, not_and, ne_eq, not_not] at h₂ h₃ h₄ h₆
  exact ⟨h₁.left.left, h₁.left.right, h₁.right, h₂.right.right.left, h₃.left,
    UInt64.not_le.mp h₄.right.left, UInt64.not_lt.mp h₄.right.right.left, fun hc => (h₆ hc).right.left⟩

end Executor

-- A command that `vx_execute` performs.
def World.Performs (w : World) (c : Command) (mono : UInt64) : Prop :=
  w.ram.query c.id = none ∧ w.ram.refusal c mono = none ∧
  (w.ram.slot? (w.ram.reusable (w.ram.serverNow mono))).isSome

instance (w : World) (c : Command) (mono : UInt64) : Decidable (w.Performs c mono) :=
  inferInstanceAs (Decidable (_ ∧ _ ∧ _))

-- The part of the world that survives power loss.
structure World.Durable (w t : World) : Prop where
  flash    : t.flash = w.flash
  sent     : t.sent = w.sent
  actuated : t.actuated = w.actuated

theorem World.Durable.refl : w.Durable w := ⟨rfl, rfl, rfl⟩

-- What the calls do that only work on the output and on the session.
structure Quiet (w t : World) : Prop extends w.Durable t where
  journal : t.ram.journal = w.ram.journal
  boot    : t.ram.boot = w.ram.boot
  epoch   : t.ram.epoch = w.ram.epoch
  healthy : t.ram.healthy → w.ram.healthy

theorem Quiet.refl : Quiet w w := ⟨.refl, rfl, rfl, rfl, fun h => h⟩

theorem Quiet.trans {u : World} (h₁ : Quiet w t) (h₂ : Quiet t u) : Quiet w u where
  flash := h₂.flash.trans h₁.flash
  sent := h₂.sent.trans h₁.sent
  actuated := h₂.actuated.trans h₁.actuated
  journal := h₂.journal.trans h₁.journal
  boot := h₂.boot.trans h₁.boot
  epoch := h₂.epoch.trans h₁.epoch
  healthy h := h₁.healthy (h₂.healthy h)

section Primitives

theorem triple_ram {Q : Executor → World → Prop} (h : ∀ w, P w → Q w.ram w) : Triple P ram Q E := .intro h

theorem triple_readRam : Triple P ram (fun e w => P w ∧ e = w.ram) E :=
  triple_ram fun _ h => ⟨h, rfl⟩

theorem triple_skipRam : Triple P ram (fun _ => P) E :=
  triple_ram fun _ h => h

theorem triple_modifyRam {Q : Unit → World → Prop} {f : Executor → Executor}
    (h : ∀ w, P w → Q () { w with ram := f w.ram }) : Triple P (modifyRam f) Q E := .intro h

theorem triple_modifyRecord {Q : Unit → World → Prop} {f : Record → Record}
    (h : ∀ w, P w → Q () { w with ram := w.ram.setRecord i (f (w.ram.journal.records i)) }) :
    Triple P (modifyRecord i f) Q E := .intro h

theorem triple_readLevel {Q : Bool → World → Prop} {a : ReadAnswer} (h : ∀ w b, P w → Q b w)
    (he : ∀ w, P w → E .mk w) : Triple P (readLevel a) Q E := by
  cases a
  case level b   => exact .pure fun w => h w b
  case powerLoss => exact .throw he

theorem triple_receipt {Q : Unit → World → Prop} {cut : Bool}
    (h : cut = false → ∀ w, P w → Q () { w with sent := w.sent ++ [r.receipt] })
    (he : ∀ w, P w → E .mk w) : Triple P (receipt cut r) Q E :=
  .ite (fun _ => .throw he) fun hc => .modify (h (by simpa using hc))

-- A failed write leaves the output as it was, as requested, or low.
theorem triple_writeOutput {Q : Bool → World → Prop} {level : Option Raise} {a : WriteAnswer}
    (done : a = .done → ∀ w, P w → Q true { w with output := level })
    (failed : ∀ leaves, a = .failed leaves → ∀ w, P w →
      Q false { w with output := Leaves.output w.output level leaves })
    (he : a = .powerLoss → ∀ w, P w → E .mk w) : Triple P (writeOutput level a) Q E := by
  cases a
  case done          => exact .bind (Q := fun _ => Q true) (.modify (done rfl)) fun _ => .pure fun _ h => h
  case failed leaves =>
    exact .bind (Q := fun _ => Q false) (.modify (failed leaves rfl)) fun _ => .pure fun _ h => h
  case powerLoss     => exact .throw (he rfl)

end Primitives

theorem triple_persist {Q : Bool → World → Prop} {o : Outcome}
    (done : o = .done → ∀ w, P w → Q true { w with flash := some w.ram.journal })
    (failed : o = .failed → ∀ w, P w → Q false w) (he : ∀ w, P w → E .mk w) :
    Triple P (persist o) Q E := by
  cases o
  case done      =>
    exact .bind (Q := fun _ => Q true) (.modify (done rfl)) fun _ => .pure fun _ h => h
  case failed    => exact .pure (failed rfl)
  case powerLoss => exact .throw he

def WriteAnswer.works : WriteAnswer → Bool
  | failed _ => false
  | _        => true

-- What a call of `save` did.
inductive Saved (a : SaveAnswers) (w : World) : Bool → World → Prop
  | stored : a.persist = .done → Saved a w true { w with flash := some w.ram.journal }
  | failed {out : Option Raise} : a.persist = .failed → a.output ≠ .powerLoss →
    out = none ∨ (out = w.output ∧ ¬a.output.works) →
    Saved a w false { w with ram := w.ram.disable, output := out }

theorem save_triple {a : SaveAnswers} :
    Triple (· = w) (save a) (Saved a w) (fun _ t => w.Durable t) := by
  refine .bind (Q := fun b t => (b = true ∧ Saved a w true t) ∨
    (b = false ∧ a.persist = .failed ∧ t = w)) (triple_persist ?_ ?_ fun _ h => h ▸ .refl) ?_
  · exact fun hp _ h => h ▸ .inl ⟨rfl, .stored hp⟩
  · exact fun hp _ h => .inr ⟨rfl, hp, h⟩
  intro stored
  refine .ite (fun h => .pure fun t ht => ?_) fun h => ?_
  · exact h ▸ (ht.resolve_right fun h' => absurd (h.symm.trans h'.left) nofun).right
  refine .bind (Q := fun _ t => a.persist = .failed ∧ t = { w with ram := w.ram.disable })
    (triple_modifyRam fun t ht => ?_) fun _ => ?_
  · have ⟨_, hp, ht⟩ := ht.resolve_left fun h' => h h'.left
    exact ⟨hp, ht ▸ rfl⟩
  refine .bind (Q := fun _ => Saved a w false)
    (triple_writeOutput ?_ ?_ fun _ t ht => ht.right ▸ ⟨rfl, rfl, rfl⟩) fun _ => .pure fun _ h => h
  · rintro hd t ⟨hp, rfl⟩
    exact .failed hp (by simp [hd]) (.inl rfl)
  · rintro leaves hl t ⟨hp, rfl⟩
    cases leaves
    case unchanged   => exact .failed hp (by simp [hl]) (.inr ⟨rfl, by simp [hl, WriteAnswer.works]⟩)
    case asRequested => exact .failed hp (by simp [hl]) (.inl rfl)
    case low         => exact .failed hp (by simp [hl]) (.inl rfl)

-- The record that `emit` writes.
def World.stamped (w : World) (i : Fin recordCount) (state : Status) (mono : UInt64) : Record :=
  (w.ram.journal.records i).stamp w.ram state mono

def EmitAnswers.Stores (a : EmitAnswers) : Prop :=
  a.save.persist = .done ∧ a.receipt = false

-- The new state is reported although its write failed.
def EmitAnswers.Loses (a : EmitAnswers) : Prop :=
  a.save.persist = .failed ∧ a.save.output ≠ .powerLoss ∧ a.receipt = false

instance (a : EmitAnswers) : Decidable a.Stores := inferInstanceAs (Decidable (_ ∧ _))

instance (a : EmitAnswers) : Decidable a.Loses := inferInstanceAs (Decidable (_ ∧ _ ∧ _))

-- What a call of `emit` did: the new state is stored and reported, or it is reported as unknown and
-- the executor is disabled.
inductive Emitted (a : EmitAnswers) (w : World) (i : Fin recordCount) (state : Status)
    (mono : UInt64) : World → Prop
  | stored : a.Stores → Emitted a w i state mono
      { w with
        ram := w.ram.setRecord i (w.stamped i state mono)
        flash := some (w.ram.setRecord i (w.stamped i state mono)).journal
        sent := w.sent ++ [(w.stamped i state mono).receipt] }
  | failed {out : Option Raise} : a.Loses →
    out = none ∨ (out = w.output ∧ ¬a.save.output.works) →
    Emitted a w i state mono
      { w with
        ram := (w.ram.setRecord i { w.stamped i state mono with status := .unknown }).disable
        output := out
        sent := w.sent ++ [{ w.stamped i state mono with status := .unknown }.receipt] }

-- What power loss during `emit` leaves behind.
structure EmitCut (w : World) (i : Fin recordCount) (state : Status) (mono : UInt64) (t : World) :
    Prop where
  flash    : t.flash = w.flash ∨ t.flash = some (w.ram.setRecord i (w.stamped i state mono)).journal
  sent     : t.sent = w.sent
  actuated : t.actuated = w.actuated

def Record.reported (r : Record) (stored : Bool) : Record :=
  { r with status := if stored then r.status else .unknown }

theorem report_triple {cut stored : Bool} : Triple (· = w) (report cut i stored)
    (fun _ t => cut = false ∧ t = { w with
      ram := w.ram.setRecord i ((w.ram.journal.records i).reported stored)
      sent := w.sent ++ [((w.ram.journal.records i).reported stored).receipt] })
    (fun _ t => w.Durable t) := by
  refine .bind (Q := fun _ t => t =
    { w with ram := w.ram.setRecord i ((w.ram.journal.records i).reported stored) }) ?_ fun _ => ?_
  · exact triple_modifyRecord fun t ht => ht ▸ rfl
  refine .bind triple_readRam fun e => triple_receipt ?_ ?_
  · rintro hc t ⟨rfl, rfl⟩
    simp [hc]
  · rintro t ⟨rfl, rfl⟩
    exact ⟨rfl, rfl, rfl⟩

theorem emit_triple {a : EmitAnswers} :
    Triple (· = w) (emit a i state mono) (fun _ => Emitted a w i state mono)
      (fun _ => EmitCut w i state mono) := by
  refine .bind (Q := fun e t => e = w.ram ∧ t = w) (triple_ram fun t h => by simp [h]) fun e => ?_
  refine .bind (Q := fun _ t => t = { w with ram := w.ram.setRecord i (w.stamped i state mono) })
    (triple_modifyRecord ?_) fun _ => ?_
  · rintro t ⟨rfl, rfl⟩
    rfl
  refine .bind (Q := Saved a.save { w with ram := w.ram.setRecord i (w.stamped i state mono) }) ?_
    fun b => .adapt (fun _ => report_triple) ?_ ?_
  · exact save_triple.conseq (fun _ h => h) (fun _ _ h => h)
      fun _ _ h => ⟨.inl h.flash, h.sent, h.actuated⟩
  · rintro t _ u ht ⟨hc, rfl⟩
    cases ht
    case stored hp =>
      have hr : (w.stamped i state mono).reported true = w.stamped i state mono := rfl
      simpa [hr] using (Emitted.stored ⟨hp, hc⟩ : Emitted a w i state mono _)
    case failed out hp hl ho =>
      have hr : (w.stamped i state mono).reported false =
        { w.stamped i state mono with status := .unknown } := rfl
      simpa [hr] using (Emitted.failed ⟨hp, hl, hc⟩ ho : Emitted a w i state mono _)
  · rintro t _ u ht hd
    cases ht
    case stored => exact ⟨.inr hd.flash, hd.sent, hd.actuated⟩
    case failed => exact ⟨.inl hd.flash, hd.sent, hd.actuated⟩

-- What `vx_init` did: it either starts an executor whose repaired journal is in flash, or fails and
-- leaves the flash alone.
inductive Booted (w : World) (authority device boot : String) (caps hold : UInt32) :
    Bool → World → Prop
  | started {e : Executor} {out : Option Raise} : Executor.boot? w.flash authority device boot caps hold = some e →
    e.healthy → out = none ∨ out = w.output →
    Booted w authority device boot caps hold true
      { w with ram := e, flash := some e.journal, output := out }
  | failed {t : World} : w.Durable t → Booted w authority device boot caps hold false t

theorem init_triple (a : BootAnswers) (authority device boot : String) (caps hold : UInt32) :
    Triple (· = w) (init a authority device boot caps hold) (Booted w authority device boot caps hold)
      (fun _ => w.Durable) := by
  refine .bind (Q := fun _ t => ∃ out, t = { w with output := out } ∧ (out = none ∨ out = w.output))
    (triple_writeOutput ?_ ?_ fun _ _ h => h ▸ .refl) fun _ => ?_
  · rintro - t rfl
    exact ⟨none, rfl, .inl rfl⟩
  · rintro leaves - t rfl
    cases leaves
    case unchanged   => exact ⟨_, rfl, .inr rfl⟩
    case asRequested => exact ⟨_, rfl, .inl rfl⟩
    case low         => exact ⟨_, rfl, .inl rfl⟩
  refine .assume fun t ⟨out, ht, ho⟩ => .bind (Q := fun u t' => u = t ∧ t' = t)
    (.get fun _ h => ⟨h, h⟩) fun u => .assume fun _ ⟨hu, ht'⟩ => ?_
  subst hu ht' ht
  split
  case h_1 => exact .pure fun _ h => .failed (h ▸ ⟨rfl, rfl, rfl⟩)
  case h_2 e he =>
    refine .bind (Q := fun _ t => t = { w with ram := e, output := out })
      (triple_modifyRam fun _ h => h ▸ rfl) fun _ => ?_
    refine .ite (fun hh => ?_) fun _ => .pure fun _ h => .failed (h ▸ ⟨rfl, rfl, rfl⟩)
    refine save_triple.conseq (fun _ h => h) ?_ fun _ _ h => ⟨h.flash, h.sent, h.actuated⟩
    intro b t hs
    cases hs
    case stored => exact .started he hh ho
    case failed => exact .failed ⟨rfl, rfl, rfl⟩

-- The quiet parts of a call keep a world quiet.
section Quiet

variable {f : Executor → Executor} {a : WriteAnswer}

theorem quiet_modifyRam (hj : ∀ e, (f e).journal = e.journal) (hb : ∀ e, (f e).boot = e.boot)
    (he : ∀ e, (f e).epoch = e.epoch) (hh : ∀ e, (f e).healthy → e.healthy) :
    Triple (Quiet w) (modifyRam f) (fun _ => Quiet w) (fun _ => w.Durable) :=
  triple_modifyRam fun _ h => h.trans ⟨⟨rfl, rfl, rfl⟩, hj _, hb _, he _, hh _⟩

theorem quiet_writeOutput {level : Option Raise} :
    Triple (Quiet w) (writeOutput level a) (fun _ => Quiet w) (fun _ => w.Durable) :=
  triple_writeOutput (fun _ _ h => h.trans ⟨⟨rfl, rfl, rfl⟩, rfl, rfl, rfl, fun h => h⟩)
    (fun _ _ _ h => h.trans ⟨⟨rfl, rfl, rfl⟩, rfl, rfl, rfl, fun h => h⟩) fun _ _ h => h.toDurable

theorem quiet_switchOff : Triple (Quiet w) (switchOff a) (fun _ => Quiet w) (fun _ => w.Durable) :=
  .bind quiet_writeOutput fun _ => quiet_modifyRam (fun _ => rfl) (fun _ => rfl) (fun _ => rfl)
    (by simp +contextual)

theorem arm_quiet {s : String} :
    Triple (Quiet w) (arm s) (fun _ => Quiet w) (fun _ => w.Durable) := by
  refine .bind triple_skipRam fun _ => .ite (fun _ => .pure fun _ h => h) fun _ => ?_
  refine .bind ?_ fun _ => .pure fun _ h => h
  exact quiet_modifyRam (fun _ => rfl) (fun _ => rfl) (fun _ => rfl) fun _ h => h

theorem stop_quiet : Triple (Quiet w) (stop a) (fun _ => Quiet w) (fun _ => w.Durable) := by
  refine .bind ?_ fun _ => quiet_switchOff
  exact quiet_modifyRam (fun _ => rfl) (fun _ => rfl) (fun _ => rfl) fun _ h => h

theorem disconnect_quiet :
    Triple (Quiet w) (disconnect a) (fun _ => Quiet w) (fun _ => w.Durable) := by
  refine .bind ?_ fun _ => quiet_switchOff
  exact quiet_modifyRam (fun _ => rfl) (fun _ => rfl) (fun _ => rfl) fun _ h => h

theorem tick_quiet : Triple (Quiet w) (tick a mono) (fun _ => Quiet w) (fun _ => w.Durable) := by
  refine .bind triple_skipRam fun e => .ite (fun _ => ?_) fun _ => .pure fun _ h => h
  refine .bind quiet_switchOff fun _ => ?_
  exact quiet_modifyRam (fun _ => rfl) (fun _ => rfl) (fun _ => rfl) fun _ h => h

end Quiet

-- What only depends on the quiet parts of the world is kept by a quiet call.
theorem quiet_keeps {D : World → Prop} {x : Exec α}
    (hx : ∀ w, Triple (Quiet w) x (fun _ => Quiet w) (fun _ => w.Durable))
    (hq : ∀ w t, P w → Quiet w t → P t) (hd : ∀ w t, P w → w.Durable t → D t) :
    Triple P x (fun _ => P) (fun _ => D) :=
  .adapt (fun w => (hx w).conseq (fun _ h => h ▸ .refl) (fun _ _ h => h) fun _ _ h => h)
    (fun w _ t => hq w t) fun w _ t => hd w t

-- A boot either starts the device, with a repaired journal and a low output, or leaves it off.
theorem boot_cases (s : State) (a : BootAnswers) (authority device boot : String)
    (caps hold : UInt32) :
    (∃ e, Executor.boot? s.world.flash authority device boot caps hold = some e ∧ e.healthy ∧
      s.exec (.boot a authority device boot caps hold) =
        { s with
          world := { s.world with ram := e, flash := some e.journal, output := none }
          on := true
          boots := boot :: s.boots }) ∨
    (∃ t, s.world.Durable t ∧ s.exec (.boot a authority device boot caps hold) =
      { s with world := t.lose, on := false, boots := boot :: s.boots }) := by
  have triple : Triple (· = s.world.lose) _ _ _ :=
    init_triple a authority device boot caps hold
  simp only [State.exec, State.boot]
  cases hr : init a authority device boot caps hold s.world.lose
  case error =>
    have hd := triple.error rfl hr
    exact .inr ⟨_, ⟨hd.flash, hd.sent, hd.actuated⟩, rfl⟩
  case ok b t =>
    cases triple.ok rfl hr
    case started e out he hh ho =>
      obtain rfl : out = none := by simpa [World.lose] using ho
      exact .inl ⟨e, he, hh, rfl⟩
    case failed hd => exact .inr ⟨_, ⟨hd.flash, hd.sent, hd.actuated⟩, rfl⟩

theorem call_cases (s : State) (call : Call) :
    (∃ t, call.run s.world = .ok () t ∧
      s.exec (.call call) = { s with world := t, delivered := call.delivers ++ s.delivered }) ∨
    (∃ t, call.run s.world = .error .mk t ∧ s.exec (.call call) =
      { s with world := t.lose, on := false, delivered := call.delivers ++ s.delivered }) := by
  simp only [State.exec, State.call]
  cases hr : call.run s.world
  case ok t    => exact .inl ⟨t, rfl, rfl⟩
  case error t => exact .inr ⟨t, rfl, rfl⟩

end Firmware
