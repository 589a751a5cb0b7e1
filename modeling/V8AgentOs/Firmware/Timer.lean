import V8AgentOs.Firmware.Steps

-- The pending switch-off of a high output.
namespace Firmware

open Hoare

-- The latest time at which the command that raised the output must have been switched off.
def Raise.limit (r : Raise) : ℕ :=
  r.mono.toNat + min r.command.holdMs.toNat
    (min r.maxHoldMs.toNat (r.command.deadlineMs.toNat - r.now.toNat))

-- While a healthy executor drives its output high, its timer is set within the limit. While every
-- write works, no other executor drives it high.
structure Timed (works : Prop) (w : World) : Prop where
  maxHold   : w.ram.healthy → 0 < w.ram.maxHoldMs
  armed     : w.ram.healthy → w.output.isSome → w.ram.armed
  connected : w.ram.healthy → w.output.isSome → w.ram.connected
  pending   : w.ram.healthy → w.output.isSome → w.ram.outputUntilMono ≠ 0
  bounded   : w.ram.healthy → ∀ r ∈ w.output, w.ram.outputUntilMono.toNat ≤ r.limit
  lit       : works → w.output.isSome → w.ram.healthy

variable {works : Prop} {w t : World} {e : Executor} {i : Fin recordCount} {r : Record} {c : Command}
  {state : Status} {mono now : UInt64} {α : Type} {s s' : State} {op : Op}

theorem Timed.of_unhealthy (h : w.ram.healthy = false) (ho : works → w.output = none) :
    Timed works w where
  maxHold hh := absurd hh (by simp [h])
  armed hh := absurd hh (by simp [h])
  connected hh := absurd hh (by simp [h])
  pending hh := absurd hh (by simp [h])
  bounded hh := absurd hh (by simp [h])
  lit hw hs := absurd hs (by simp [ho hw])

-- After an attempt to switch off, the output is low or the executor unhealthy.
structure Low (works : Prop) (w : World) : Prop where
  maxHold : w.ram.healthy → 0 < w.ram.maxHoldMs
  low     : w.ram.healthy → w.output = none
  dark    : works → w.output = none

theorem Low.timed (h : Low works w) : Timed works w where
  maxHold := h.maxHold
  armed hh ho := by simp [h.low hh] at ho
  connected hh ho := by simp [h.low hh] at ho
  pending hh ho := by simp [h.low hh] at ho
  bounded hh r hr := by simp [h.low hh] at hr
  lit hw hs := absurd hs (by simp [h.dark hw])

-- What the timer depends on is left alone.
structure SameTimer (w t : World) : Prop where
  output    : t.output = w.output
  armed     : t.ram.armed = w.ram.armed
  connected : t.ram.connected = w.ram.connected
  healthy   : t.ram.healthy = w.ram.healthy
  timer     : t.ram.outputUntilMono = w.ram.outputUntilMono
  maxHold   : t.ram.maxHoldMs = w.ram.maxHoldMs

theorem SameTimer.trans {u : World} (h₁ : SameTimer w t) (h₂ : SameTimer t u) : SameTimer w u where
  output := h₂.output.trans h₁.output
  armed := h₂.armed.trans h₁.armed
  connected := h₂.connected.trans h₁.connected
  healthy := h₂.healthy.trans h₁.healthy
  timer := h₂.timer.trans h₁.timer
  maxHold := h₂.maxHold.trans h₁.maxHold

theorem Timed.same (h : Timed works w) (hs : SameTimer w t) : Timed works t where
  maxHold hh := hs.maxHold ▸ h.maxHold (hs.healthy ▸ hh)
  armed hh ho := hs.armed ▸ h.armed (hs.healthy ▸ hh) (hs.output ▸ ho)
  connected hh ho := hs.connected ▸ h.connected (hs.healthy ▸ hh) (hs.output ▸ ho)
  pending hh ho := hs.timer ▸ h.pending (hs.healthy ▸ hh) (hs.output ▸ ho)
  bounded hh r hr := hs.timer ▸ h.bounded (hs.healthy ▸ hh) r (hs.output ▸ hr)
  lit hw ho := hs.healthy ▸ h.lit hw (hs.output ▸ ho)

def Anything (_ : PowerLoss) (_ : World) : Prop := True

theorem save_timed {a : SaveAnswers} (ha : works → a.output.works) : Triple (Timed works) (save a) (fun _ => Timed works) Anything := by
  refine .adapt (fun _ => save_triple) (fun w b t h hs => ?_) fun _ _ _ _ _ => trivial
  cases hs
  case stored      => exact h.same ⟨rfl, rfl, rfl, rfl, rfl, rfl⟩
  case failed _ ho => exact .of_unhealthy rfl fun hw => ho.resolve_right fun h' => h'.right (ha hw)

theorem Emitted.timed {a : EmitAnswers} (ha : works → a.save.output.works) (h : Timed works w)
    (he : Emitted a w i state mono t) : Timed works t := by
  cases he
  case stored    => exact h.same ⟨rfl, rfl, rfl, rfl, rfl, rfl⟩
  case failed ho => exact .of_unhealthy rfl fun hw => ho.resolve_right fun h' => h'.right (ha hw)

theorem Emitted.sameTimer {a : EmitAnswers} (he : Emitted a w i state mono t) (hh : t.ram.healthy) :
    SameTimer w t ∧ a.Stores := by
  cases he
  case stored hs => exact ⟨⟨rfl, rfl, rfl, rfl, rfl, rfl⟩, hs⟩
  case failed    => exact absurd hh nofun

theorem emit_timed {a : EmitAnswers} (ha : works → a.save.output.works) :
    Triple (Timed works) (emit a i state mono) (fun _ => Timed works) Anything :=
  .adapt (fun _ => emit_triple) (fun _ _ _ h he => he.timed ha h) fun _ _ _ _ _ => trivial

-- After `emit` the executor is unhealthy, or its timer is as before and the state is stored.
theorem emit_sameTimer {a : EmitAnswers} (ha : works → a.save.output.works) (hw : Timed works w) :
    Triple (SameTimer w) (emit a i state mono)
      (fun _ t => Timed works t ∧ (t.ram.healthy → SameTimer w t ∧ a.Stores)) Anything := by
  refine .adapt (fun _ => emit_triple) (fun t _ u h he => ?_) fun _ _ _ _ _ => trivial
  refine ⟨he.timed ha (hw.same h), fun hh => ?_⟩
  have ⟨h', hs⟩ := he.sameTimer hh
  exact ⟨h.trans h', hs⟩

theorem receipt_timed {cut : Bool} : Triple (Timed works) (receipt cut r) (fun _ => Timed works) Anything :=
  triple_receipt (fun _ _ h => h.same ⟨rfl, rfl, rfl, rfl, rfl, rfl⟩) fun _ _ => trivial

-- Switching off leaves the output low or the executor unhealthy.
theorem switchOff_low {a : WriteAnswer} (ha : works → a.works) :
    Triple (fun w => w.ram.healthy → 0 < w.ram.maxHoldMs) (switchOff a) (fun _ => Low works)
      Anything := by
  refine .bind (Q := fun (b : Bool) w => (w.ram.healthy → 0 < w.ram.maxHoldMs) ∧
    (b → w.output = none) ∧ (works → w.output = none))
    (triple_writeOutput ?_ ?_ fun _ _ _ => trivial) fun b => ?_
  · exact fun _ w h => ⟨h, fun _ => rfl, fun _ => rfl⟩
  · exact fun leaves hl w h => ⟨h, nofun, fun hw => absurd (ha hw) (by simp [hl, WriteAnswer.works])⟩
  · refine triple_modifyRam fun w h => ⟨fun hh => h.left ?_, fun hh => h.right.left ?_, h.right.right⟩
    · exact (Bool.and_eq_true _ _ ▸ hh).left
    · exact (Bool.and_eq_true _ _ ▸ hh).right

theorem switchOff_timed {a : WriteAnswer} (ha : works → a.works) :
    Triple (fun w => w.ram.healthy → 0 < w.ram.maxHoldMs) (switchOff a) (fun _ => Timed works)
      Anything :=
  (switchOff_low ha).conseq (fun _ h => h) (fun _ _ h => h.timed) fun _ _ h => h

theorem arm_timed {a : String} : Triple (Timed works) (arm a) (fun _ => Timed works) Anything := by
  refine .bind triple_readRam fun e => .ite (fun _ => .pure fun _ h => h.left) fun ha => ?_
  refine .bind (Q := fun _ => Timed works) (triple_modifyRam ?_) fun _ => .pure fun _ h => h
  rintro w ⟨h, rfl⟩
  -- A healthy executor that is not armed has a low output.
  have hlow (hh : w.ram.healthy) : w.output = none := by
    by_contra ho
    have := h.armed hh (Option.isSome_iff_ne_none.mpr ho)
    simp_all
  refine Low.timed ⟨h.maxHold, hlow, fun hw => ?_⟩
  by_contra ho
  exact ho (hlow (h.lit hw (Option.isSome_iff_ne_none.mpr ho)))

theorem stop_timed {a : WriteAnswer} (ha : works → a.works) : Triple (Timed works) (stop a) (fun _ => Timed works) Anything :=
  .bind (triple_modifyRam fun _ h => h.maxHold) fun _ => switchOff_timed ha

theorem disconnect_timed {a : WriteAnswer} (ha : works → a.works) :
    Triple (Timed works) (disconnect a) (fun _ => Timed works) Anything :=
  .bind (triple_modifyRam fun _ h => h.maxHold) fun _ => switchOff_timed ha

theorem tick_timed {a : WriteAnswer} (ha : works → a.works) : Triple (Timed works) (tick a mono) (fun _ => Timed works) Anything := by
  refine .bind triple_skipRam fun e => .ite (fun _ => ?_) fun _ => .pure fun _ h => h
  refine .bind ((switchOff_low ha).conseq (fun _ h => h.maxHold) (fun _ _ h => h) fun _ _ h => h)
    fun _ => triple_modifyRam fun _ h => ?_
  exact Low.timed ⟨h.maxHold, h.low, h.dark⟩

theorem openSession_timed {p : Session} :
    Triple (Timed works) (openSession p mono) (fun _ => Timed works) Anything := by
  refine .bind triple_skipRam fun e => .ite (fun _ => .pure fun _ h => h) fun _ => ?_
  refine .bind (Q := fun _ => Timed works) (triple_modifyRam fun w h => ?_) fun _ => .pure fun _ h => h
  exact ⟨h.maxHold, h.armed, fun _ _ => rfl, h.pending, h.bounded, h.lit⟩

theorem session_timed {a : SaveAnswers} {p : Session} (ha : works → a.output.works) :
    Triple (Timed works) (session a p mono) (fun _ => Timed works) Anything := by
  refine .bind triple_skipRam fun e => .ite (fun _ => .pure fun _ h => h) fun _ => ?_
  refine .ite (fun _ => ?_) fun _ => openSession_timed
  refine .bind (Q := fun _ => Timed works) (triple_modifyRam fun _ h => ?_) fun _ => ?_
  · exact h.same ⟨rfl, rfl, rfl, rfl, rfl, rfl⟩
  · exact .bind (save_timed ha) fun b => .ite (fun _ => openSession_timed) fun _ => .pure fun _ h => h

theorem ack_timed {a : SaveAnswers} {id : String} {seq : UInt64} (ha : works → a.output.works) :
    Triple (Timed works) (ack a id seq) (fun _ => Timed works) Anything := by
  refine .bind triple_skipRam fun e => ?_
  split
  case h_1 => exact .pure fun _ h => h
  case h_2 =>
    refine .bind (Q := fun _ => Timed works) (triple_modifyRecord fun _ h => ?_) fun _ => ?_
    · exact h.same ⟨rfl, rfl, rfl, rfl, rfl, rfl⟩
    · exact .bind (save_timed ha) fun _ => .pure fun _ h => h

theorem handleQuery_timed {cut : Bool} {id : String} :
    Triple (Timed works) (handleQuery cut id) (fun _ => Timed works) Anything := by
  refine .bind triple_skipRam fun e => ?_
  split
  · exact .pure fun _ h => h
  · exact receipt_timed

theorem handleCancel_timed {cut : Bool} {id digest : String} :
    Triple (Timed works) (handleCancel cut id digest) (fun _ => Timed works) Anything := by
  refine .bind triple_skipRam fun e => ?_
  split
  case h_1 => exact .pure fun _ h => h
  case h_2 =>
    refine .ite (fun _ => ?_) fun _ => .pure fun _ h => h
    refine .bind (Q := fun _ => Low works) (.modify fun w h => ⟨h.maxHold, fun _ => rfl, fun _ => rfl⟩) fun _ => ?_
    refine .bind (Q := fun _ => Timed works) (triple_modifyRam fun w h => ?_) fun _ => receipt_timed
    exact Low.timed ⟨h.maxHold, h.low, h.dark⟩

-- What the write of a command leaves at the output.
def WriteAnswer.output (old requested : Option Raise) : WriteAnswer → Option Raise
  | done          => requested
  | failed leaves => leaves.output old requested
  | powerLoss     => none

def World.raise (w : World) (c : Command) (mono : UInt64) : Raise :=
  ⟨c, mono, w.ram.serverNow mono, w.ram.maxHoldMs⟩

def World.requested (w : World) (c : Command) (mono : UInt64) : Option Raise :=
  if c.level then some (w.raise c mono) else none

-- A command is performed up to its effect.
def World.ReachesEffect (w : World) (a : ExecuteAnswers) (c : Command) (mono : UInt64) : Prop :=
  w.Performs c mono ∧ a.received.Stores ∧ a.started.Stores

instance (w : World) (a : ExecuteAnswers) (c : Command) (mono : UInt64) :
    Decidable (w.ReachesEffect a c mono) := inferInstanceAs (Decidable (_ ∧ _ ∧ _))

-- The write of a SET command leaves the output high, while the command clears the timer, or sets
-- one that wraps to "none" or is too late for the command that raised the output.
def World.LosesSwitchOff (w : World) : Call → Prop
  | .command a _ c mono _ =>
    c.capability = capSet ∧ w.ReachesEffect a c mono ∧
    ∃ r ∈ a.write.output w.output (w.requested c mono), c.level = false ∨
      (w.raise c mono).limit % 2 ^ 64 = 0 ∨ r.limit < (w.raise c mono).limit % 2 ^ 64
  | _ => False

-- The timer that a SET command with a high level sets.
def World.timer (w : World) (c : Command) (mono : UInt64) : UInt64 :=
  mono + c.hold w.ram.maxHoldMs (w.ram.serverNow mono)

theorem hold_eq (h : now < c.deadlineMs) (m : UInt32) : (c.hold m now).toNat =
    min c.holdMs.toNat (min m.toNat (c.deadlineMs.toNat - now.toNat)) := by
  have hsub : (c.deadlineMs - now).toNat = c.deadlineMs.toNat - now.toNat :=
    UInt64.toNat_sub_of_le _ _ (UInt64.le_of_lt h)
  simp only [Command.hold, UInt32.lt_iff_toNat_lt, gt_iff_lt, UInt64.lt_iff_toNat_lt]
  split_ifs <;> simp_all <;> omega

theorem timer_eq (h : w.ram.serverNow mono < c.deadlineMs) :
    (w.timer c mono).toNat = (w.raise c mono).limit % 2 ^ 64 := by
  rw [World.timer, UInt64.toNat_add, hold_eq h]
  rfl

-- The executor after the timer of a SET command is set, before its write.
structure TimerSet (w : World) (c : Command) (mono : UInt64) (t : World) : Prop where
  output    : t.output = w.output
  healthy   : t.ram.healthy
  armed     : t.ram.armed
  connected : t.ram.connected
  maxHold   : 0 < t.ram.maxHoldMs
  timer     : t.ram.outputUntilMono = if c.level then w.timer c mono else 0

theorem TimerSet.timed {out : Option Raise} (h : TimerSet w c mono t)
    (ho : ∀ r ∈ out, c.level = true ∧ w.timer c mono ≠ 0 ∧ (w.timer c mono).toNat ≤ r.limit) :
    Timed works { t with output := out } where
  maxHold _ := h.maxHold
  armed _ _ := h.armed
  connected _ _ := h.connected
  pending _ hs := by
    have ⟨r, hr⟩ := Option.isSome_iff_exists.mp hs
    have ⟨hl, hz, _⟩ := ho r hr
    simpa [h.timer, hl] using hz
  bounded _ r hr := by
    have ⟨hl, _, hb⟩ := ho r hr
    simpa [h.timer, hl] using hb
  lit _ _ := h.healthy

theorem act_timed {a : ExecuteAnswers} (hw : Timed works w) (ha : w.ram.Admits c mono)
    (hn : c.capability = capSet → ∀ r ∈ a.write.output w.output (w.requested c mono),
      c.level = true ∧ w.timer c mono ≠ 0 ∧ (w.timer c mono).toNat ≤ r.limit) :
    Triple (SameTimer w) (act a c mono (w.ram.serverNow mono) i) (fun _ => Timed works) Anything := by
  have observed (b : Bool) : Triple (Timed works) (modifyRecord i fun r => { r with readback := b })
      (fun _ => Timed works) Anything :=
    triple_modifyRecord fun _ h => h.same ⟨rfl, rfl, rfl, rfl, rfl, rfl⟩
  refine .ite (fun hset => ?_) fun _ => ?_
  · refine .bind (Q := fun e t => SameTimer w t ∧ e.maxHoldMs = w.ram.maxHoldMs)
      (triple_ram fun t h => ⟨h, h.maxHold⟩) fun e => .assume fun _ ⟨hs, he⟩ => ?_
    refine .bind (Q := fun _ => TimerSet w c mono) (triple_modifyRam ?_) fun _ => ?_
    · rintro t rfl
      exact ⟨hs.output, hs.healthy.trans ha.healthy, hs.armed.trans ha.armed, hs.connected.trans ha.connected,
        hs.maxHold ▸ hw.maxHold ha.healthy, by simp [World.timer, hs.maxHold]⟩
    refine .bind (Q := fun _ => TimerSet w c mono) (.modify fun t h => ?_) fun _ => ?_
    · exact ⟨h.output, h.healthy, h.armed, h.connected, h.maxHold, h.timer⟩
    have hreq : (if c.level then some (Raise.mk c mono (w.ram.serverNow mono) e.maxHoldMs) else none) =
        w.requested c mono := by rw [he]; rfl
    rw [hreq]
    refine .bind (Q := fun _ => Timed works) (triple_writeOutput ?_ ?_ fun _ _ _ => trivial) fun _ => ?_
    · intro hd t h
      rw [hd] at hn
      exact h.timed (hn hset)
    · intro leaves hl t h
      rw [hl] at hn
      exact h.timed (h.output ▸ hn hset)
    refine .bind (Q := fun _ => Timed works) (triple_modifyRam fun _ h => ?_) fun _ => ?_
    · exact h.same ⟨rfl, rfl, rfl, rfl, rfl, rfl⟩
    refine .bind (triple_readLevel (fun _ _ h => h) fun _ _ => trivial) fun b => ?_
    exact .bind (observed b) fun _ => .pure fun _ h => h
  · refine .bind (Q := fun _ => Timed works) (triple_readLevel (fun _ _ h => hw.same h) fun _ _ => trivial)
      fun b => ?_
    exact .bind (observed b) fun _ => .pure fun _ h => h

-- The writes of a call work: they may be cut short by power loss, but do not fail.
structure ExecuteAnswers.Works (a : ExecuteAnswers) : Prop where
  received : a.received.save.output.works
  started  : a.started.save.output.works
  final    : a.final.save.output.works

def Call.Works : Call → Prop
  | stop a | disconnect a | tick a _ => a.works
  | session a _ _ | ack a _ _        => a.output.works
  | command a _ _ _ _                => a.write.works ∧ a.Works
  | _                                => True

-- One `emit` of the write-ahead order, after which an unhealthy executor gives up.
theorem perform_timed {a : ExecuteAnswers} (hk : works → a.Works) (hw : Timed works w) (ha : w.ram.Admits c mono)
    (hn : c.capability = capSet → a.received.Stores → a.started.Stores →
      ∀ r ∈ a.write.output w.output (w.requested c mono),
        c.level = true ∧ w.timer c mono ≠ 0 ∧ (w.timer c mono).toNat ≤ r.limit) :
    Triple (· = w) (perform a c mono (w.ram.serverNow mono) i) (fun _ => Timed works) Anything := by
  refine .bind (Q := fun _ => SameTimer w) (triple_modifyRecord ?_) fun _ => ?_
  · rintro _ rfl
    exact ⟨rfl, rfl, rfl, rfl, rfl, rfl⟩
  refine .bind (emit_sameTimer (fun h => (hk h).received) hw) fun _ => .bind triple_readRam fun e => ?_
  refine .ite (fun _ => .pure fun _ h => h.left.left) fun hh => .assume fun _ ⟨⟨_, h⟩, he⟩ => ?_
  have ⟨hs, hreceived⟩ := h (by simpa [he] using hh)
  refine .bind ((emit_sameTimer (fun h => (hk h).started) hw).conseq (fun _ h => h ▸ hs) (fun _ _ h => h) fun _ _ h => h)
    fun _ => .bind triple_readRam fun e => ?_
  refine .ite (fun _ => .pure fun _ h => h.left.left) fun hh => .assume fun _ ⟨⟨_, h⟩, he⟩ => ?_
  have ⟨hs, hstarted⟩ := h (by simpa [he] using hh)
  refine .bind ((act_timed hw ha fun hset => hn hset hreceived hstarted).conseq
    (fun _ h => h ▸ hs) (fun _ _ h => h) fun _ _ h => h) fun ok => ?_
  exact .bind (emit_timed fun h => (hk h).final) fun _ => .bind triple_skipRam fun _ => .pure fun _ h => h

theorem execute_timed {a : ExecuteAnswers} {cut : Bool} {later : UInt64} (hk : works → a.Works) (hw : Timed works w)
    (hn : ¬w.LosesSwitchOff (.command a cut c mono later)) :
    Triple (· = w) (execute a c mono) (fun _ => Timed works) Anything := by
  refine .bind (Q := fun e t => e = w.ram ∧ t = w) (triple_ram ?_) fun e => .assume fun t ⟨he, ht⟩ => ?_
  · rintro _ rfl
    exact ⟨rfl, rfl⟩
  subst he ht
  split
  case h_1 prior hq =>
    refine .ite (fun _ => .pure fun _ h => h ▸ hw) fun _ => ?_
    exact .bind (receipt_timed.conseq (fun _ h => h ▸ hw) (fun _ _ h => h) fun _ _ h => h)
      fun _ => .pure fun _ h => h
  case h_2 hq =>
    split
    case h_1 => exact .pure fun _ h => h ▸ hw
    case h_2 hr =>
      split
      case h_1 => exact .pure fun _ h => h ▸ hw
      case h_2 i hi =>
        have ha := t.ram.refusal_none hr
        refine perform_timed hk hw ha fun hset hreceived hstarted r hmem => ?_
        -- Otherwise the command loses the pending switch-off.
        by_contra hbad
        refine hn ⟨hset, ⟨⟨hq, hr, by simp [hi]⟩, hreceived, hstarted⟩, r, hmem, ?_⟩
        rw [← timer_eq ha.deadline]
        by_cases hl : c.level = false
        case pos => exact .inl hl
        case neg =>
          by_cases hz : t.timer c mono = 0
          case pos => exact .inr (.inl (by rw [hz]; rfl))
          case neg =>
            refine .inr (.inr (Nat.lt_of_not_le fun hle => hbad ⟨?_, hz, hle⟩))
            simpa using hl

theorem handleCommand_timed {a : ExecuteAnswers} {cut : Bool} {later : UInt64} (hk : works → a.Works) (hw : Timed works w)
    (hn : ¬w.LosesSwitchOff (.command a cut c mono later)) :
    Triple (· = w) (handleCommand a cut c mono later) (fun _ => Timed works) Anything := by
  refine .bind (execute_timed hk hw hn) fun _ => .bind triple_skipRam fun e => ?_
  exact .ite (fun _ => receipt_timed) fun _ => .pure fun _ h => h

theorem call_timed (call : Call) (hk : works → call.Works) (hw : Timed works w) (hn : ¬w.LosesSwitchOff call) :
    Triple (· = w) call.run (fun _ => Timed works) Anything := by
  have keeps {x : Exec Unit} (hx : Triple (Timed works) x (fun _ => Timed works) Anything) :
      Triple (· = w) x (fun _ => Timed works) Anything :=
    hx.conseq (fun _ h => h ▸ hw) (fun _ _ h => h) fun _ _ h => h
  cases call
  case arm        => exact keeps (.map arm_timed)
  case stop       => exact keeps (stop_timed hk)
  case disconnect => exact keeps (disconnect_timed hk)
  case session    => exact keeps (.map (session_timed hk))
  case command    => exact handleCommand_timed (fun h => (hk h).right) hw hn
  case query      => exact keeps handleQuery_timed
  case cancel     => exact keeps handleCancel_timed
  case ack        => exact keeps (ack_timed hk)
  case tick       => exact keeps (tick_timed hk)

-- The timer over the life of the device.
structure State.Timed (works : Prop) (s : State) : Prop where
  off : s.on = false → s.world.output = none
  on  : s.on → Firmware.Timed works s.world

theorem boot?_maxHold {flash : Option Journal} {authority device boot : String} {caps hold : UInt32}
    (h : Executor.boot? flash authority device boot caps hold = some e) (hh : e.healthy) :
    0 < e.maxHoldMs := by
  simp only [Executor.boot?] at h
  split at h <;> cases h
  simpa using hh

-- Every command keeps the pending switch-off.
def State.KeepsSwitchOff (s : State) : Op → Prop
  | .call c => ¬s.world.LosesSwitchOff c
  | _       => True

def Op.Works : Op → Prop
  | call c => c.Works
  | _      => True

theorem step_timed (h : s.Timed works) (hk : works → op.Works) (hn : s.KeepsSwitchOff op)
    (hs : system.step s op s') : s'.Timed works := by
  obtain ⟨ha, rfl⟩ := hs
  cases op
  case powerLoss => exact ⟨fun _ => rfl, nofun⟩
  case boot a authority device boot caps hold =>
    rcases boot_cases s a authority device boot caps hold with ⟨e, he, hh, h'⟩ | ⟨t, _, h'⟩
    · have hlow : Low works
          { s.world with ram := e, flash := some e.journal, output := none } :=
        ⟨boot?_maxHold he, fun _ => rfl, fun _ => rfl⟩
      exact h' ▸ ⟨fun _ => rfl, fun _ => hlow.timed⟩
    · exact h' ▸ ⟨fun _ => rfl, nofun⟩
  case call call =>
    rcases call_cases s call with ⟨t, hr, h'⟩ | ⟨t, _, h'⟩
    · have ht := (call_timed call hk (h.on ha) hn).ok rfl hr
      exact h' ▸ ⟨fun hoff => absurd hoff (by simp [show s.on = true from ha]), fun _ => ht⟩
    · exact h' ▸ ⟨fun _ => rfl, nofun⟩

theorem reachable_timed {ok : State → Op → Prop} (hk : works → ∀ s op, ok s op → op.Works)
    (hn : ∀ s op, ok s op → s.KeepsSwitchOff op) (h : (system.restrict ok).Reachable s) :
    s.Timed works := by
  refine h.invariant (I := State.Timed works) ?_ ?_
  · rintro _ rfl
    exact ⟨fun _ => rfl, nofun⟩
  · intro t op _ ht ⟨hok, hs⟩
    exact step_timed ht (fun hw => hk hw t op hok) (hn t op hok) hs

-- The time of the command that raised the output, or the lease, has run out.
def World.Due (w : World) (mono : UInt64) : Prop :=
  (∀ r ∈ w.output, r.limit ≤ mono.toNat) ∨ w.ram.serverNow mono ≥ w.ram.leaseUntilMs

theorem tick_low (h : Timed works w) (hh : w.output.isSome → w.ram.healthy) (hd : w.Due mono) :
    Triple (· = w) (tick .done mono) (fun _ t => t.output = none) fun _ _ => False := by
  refine .bind (Q := fun e t => e = w.ram ∧ t = w) (triple_ram ?_) fun e => ?_
  · rintro _ rfl
    exact ⟨rfl, rfl⟩
  refine .ite (fun _ => ?_) fun hm => .pure ?_
  · refine .bind (Q := fun _ t => t.output = none) ?_ fun _ => triple_modifyRam fun _ h => h
    exact .bind (Q := fun _ t => t.output = none)
      (triple_writeOutput (fun _ _ _ => rfl) nofun nofun) fun _ => triple_modifyRam fun _ h => h
  · rintro t ⟨rfl, rfl⟩
    -- A high output comes with a timer and a lease, one of which has run out.
    by_contra ho
    obtain ⟨r, hr⟩ := Option.ne_none_iff_exists'.mp ho
    have hs : t.output.isSome := by simp [hr]
    refine hm ?_
    simp only [Executor.mustSwitchOff, Bool.or_eq_true, Bool.and_eq_true, decide_eq_true_eq]
    refine hd.imp (fun hlim => ⟨h.pending (hh hs) hs, ?_⟩) fun hl => ⟨h.connected (hh hs) hs, hl⟩
    rw [ge_iff_le, UInt64.le_iff_toNat_le]
    exact (h.bounded (hh hs) r hr).trans (hlim r hr)

-- In every run in which each command keeps the pending switch-off, a high output has a timer within
-- the limit of the command that raised it, or the executor is unhealthy. So a tick whose write works
-- switches a due output off, unless an earlier write failed and left the executor unhealthy.
theorem pending_switchOff (h : (system.restrict State.KeepsSwitchOff).Reachable s) :
    (∀ r ∈ s.world.output, s.world.ram.healthy = false ∨ (s.world.ram.outputUntilMono ≠ 0 ∧
      s.world.ram.outputUntilMono.toNat ≤
        r.mono.toNat + min r.command.holdMs.toNat
          (min r.maxHoldMs.toNat (r.command.deadlineMs.toNat - r.now.toNat)))) ∧
    ∀ mono, s.on → s.world.Due mono →
      (s.world.ram.healthy ∨
        (system.restrict fun s op => s.KeepsSwitchOff op ∧ op.Works).Reachable s) →
      (s.exec (.call (.tick .done mono))).world.output = none := by
  have ht : s.Timed False := reachable_timed nofun (fun _ _ h => h) h
  refine ⟨fun r hr => ?_, fun mono hon hd hh => ?_⟩
  · cases hon : s.on
    case false => simp [ht.off hon] at hr
    case true =>
      have htimed := ht.on hon
      cases hh : s.world.ram.healthy
      case false => exact .inl rfl
      case true  => exact .inr ⟨htimed.pending hh (Option.isSome_of_mem hr), htimed.bounded hh r hr⟩
  · have hlit : s.world.output.isSome → s.world.ram.healthy := by
      refine fun ho => hh.elim id fun hw => ?_
      have hall : s.Timed True := reachable_timed (fun _ _ _ h => h.right) (fun _ _ h => h.left) hw
      exact (hall.on hon).lit trivial ho
    have htick := tick_low (ht.on hon) hlit hd
    rcases call_cases s (.tick .done mono) with ⟨t, hr, h'⟩ | ⟨t, hr, _⟩
    · exact h' ▸ htick.ok rfl hr
    · exact (htick.error rfl hr).elim

instance (w : World) : DecidablePred w.LosesSwitchOff
  | .command a _ c mono _ => inferInstanceAs (Decidable (c.capability = capSet ∧
      w.ReachesEffect a c mono ∧ ∃ r ∈ a.write.output w.output (w.requested c mono), _ ∨ _ ∨ _))
  | .arm _ | .stop _ | .disconnect _ | .session .. | .query .. | .cancel .. | .ack .. | .tick .. =>
    inferInstanceAs (Decidable False)

instance (s : State) : DecidablePred s.KeepsSwitchOff
  | .call _    => inferInstanceAs (Decidable ¬_)
  | .boot ..   => inferInstanceAs (Decidable True)
  | .powerLoss => inferInstanceAs (Decidable True)

def raised : List Op :=
  started ++ [deliver highCommand 0]

theorem pending_switchOff_raised : (State.initial.run raised).world.output.isSome ∧
    ((State.initial.run raised).exec (.call (.tick .done 100))).world.output = none :=
  ⟨by decide +kernel,
    (pending_switchOff (run_restricted (.init rfl) raised (by decide +kernel))).right 100
      (by decide +kernel) (.inl (by decide +kernel)) (.inl (by decide +kernel))⟩

-- A second command switches off: its write fails, the output stays high, and its timer is cleared.
def failedSwitchOff : List Op :=
  raised ++ [.call (.command { write := .failed .unchanged, read := .level true } false
    { highCommand with id := "y", digest := "d2", expectedRevision := 2, level := false } 10 10)]

theorem failedSwitchOff_reachable : system.Reachable (State.initial.run failedSwitchOff) :=
  run_reachable _ (by decide +kernel)

theorem failedSwitchOff_unbounded : ¬∀ s, system.Reachable s →
    ∀ r ∈ s.world.output, s.world.ram.healthy = false ∨ (s.world.ram.outputUntilMono ≠ 0 ∧
      s.world.ram.outputUntilMono.toNat ≤
        r.mono.toNat + min r.command.holdMs.toNat
          (min r.maxHoldMs.toNat (r.command.deadlineMs.toNat - r.now.toNat))) := by
  intro h
  have := h _ failedSwitchOff_reachable
  revert this
  decide +kernel

end Firmware
