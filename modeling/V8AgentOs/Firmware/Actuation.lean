import Mathlib.Data.List.Nodup
import V8AgentOs.Firmware.Steps

-- At most one actuation for each command.
namespace Firmware

open Hoare

def Command.key (c : Command) : String × String × UInt64 :=
  (c.boot, c.id, c.epoch)

-- A record answers for the identifier and the epoch of a command.
def Executor.Holds (e : Executor) (c : Command) : Prop :=
  ∃ i, (e.journal.records i).status ≠ .empty ∧ (e.journal.records i).command.id = c.id ∧
    (e.journal.records i).command.epoch = c.epoch

-- What power loss leaves of the fence: the actuations of earlier boots cannot come back.
structure Spent (boots : List String) (w : World) : Prop where
  nodup : (w.actuated.map Command.key).Nodup
  known : ∀ c ∈ w.actuated, c.boot ∈ boots

-- An actuated command of this boot belongs to an older epoch or still has its record.
structure Fenced (boots : List String) (w : World) : Prop extends Spent boots w where
  booted  : w.ram.boot ∈ boots
  highest : w.ram.epoch ≤ w.ram.journal.highestEpoch
  older   : ∀ c ∈ w.actuated, c.boot = w.ram.boot → c.epoch ≤ w.ram.epoch
  held    : ∀ c ∈ w.actuated, c.boot = w.ram.boot → c.epoch = w.ram.epoch → w.ram.Holds c

-- The slot of the command that is being performed.
structure Owned (boots : List String) (c : Command) (i : Fin recordCount) (w : World) : Prop
    extends Fenced boots w where
  command : (w.ram.journal.records i).command = c
  boot    : c.boot = w.ram.boot
  epoch   : c.epoch = w.ram.epoch

variable {w t : World} {e : Executor} {boots : List String} {i j : Fin recordCount} {r : Record}
  {c d : Command} {state : Status} {mono now : UInt64} {s s' : State} {op : Op}

theorem Spent.durable (h : Spent boots w) (hd : w.Durable t) : Spent boots t :=
  ⟨hd.actuated ▸ h.nodup, hd.actuated ▸ h.known⟩

theorem Fenced.frame (h : Fenced boots w) (ha : t.actuated = w.actuated)
    (hb : t.ram.boot = w.ram.boot) (he : t.ram.epoch = w.ram.epoch)
    (hj : t.ram.journal.highestEpoch = w.ram.journal.highestEpoch)
    (hh : ∀ c, c.epoch = w.ram.epoch → w.ram.Holds c → t.ram.Holds c) : Fenced boots t where
  nodup := ha ▸ h.nodup
  known := ha ▸ h.known
  booted := hb ▸ h.booted
  highest := by rw [he, hj]; exact h.highest
  older c hc := by
    rw [hb, he]
    exact h.older c (ha ▸ hc)
  held c hc := by
    rw [hb, he]
    exact fun hboot hepoch => hh c hepoch (h.held c (ha ▸ hc) hboot hepoch)

theorem Fenced.quiet (h : Fenced boots w) (hq : Quiet w t) : Fenced boots t := by
  refine h.frame hq.actuated hq.boot hq.epoch (congrArg _ hq.journal) fun c _ hc => ?_
  unfold Executor.Holds
  exact hq.journal ▸ hc

-- A command keeps its record while that record is only updated.
theorem Executor.Holds.setRecord (h : e.Holds c)
    (hs : (e.journal.records i).status ≠ .empty → r.status ≠ .empty)
    (hr : r.command = (e.journal.records i).command) : (e.setRecord i r).Holds c := by
  have ⟨j, h₁, h₂, h₃⟩ := h
  by_cases hj : j = i
  case pos =>
    subst hj
    exact ⟨j, by simpa using hs h₁, by simpa [hr] using h₂, by simpa [hr] using h₃⟩
  case neg => exact ⟨j, by simpa [Executor.setRecord_other hj] using ⟨h₁, h₂, h₃⟩⟩

theorem Saved.fenced {a : SaveAnswers} {b : Bool} (h : Fenced boots w) (hs : Saved a w b t) : Fenced boots t := by
  cases hs <;> exact h.frame rfl rfl rfl rfl fun _ _ h => h

theorem save_fenced {a : SaveAnswers} :
    Triple (Fenced boots) (save a) (fun _ => Fenced boots) (fun _ => Spent boots) :=
  .adapt (fun _ => save_triple) (fun _ _ _ h hs => hs.fenced h) fun _ _ _ h hd => h.toSpent.durable hd

theorem receipt_fenced {cut : Bool} :
    Triple (Fenced boots) (receipt cut r) (fun _ => Fenced boots) (fun _ => Spent boots) :=
  triple_receipt (fun _ _ h => h.frame rfl rfl rfl rfl fun _ _ h => h) fun _ h => h.toSpent

theorem Emitted.owned {a : EmitAnswers} (h : Owned boots c i w) (hs : state ≠ .empty)
    (he : Emitted a w i state mono t) :
    Owned boots c i t ∧ t.actuated = w.actuated ∧ (t.ram.journal.records i).status ≠ .empty := by
  have hc : (w.stamped i state mono).command = (w.ram.journal.records i).command := rfl
  cases he
  case stored =>
    refine ⟨⟨h.toFenced.frame rfl rfl rfl rfl fun d _ hd => hd.setRecord (fun _ => hs) hc, ?_, h.boot, h.epoch⟩,
      rfl, ?_⟩
    · simpa [hc] using h.command
    · simpa [World.stamped, Record.stamp] using hs
  case failed =>
    refine ⟨⟨h.toFenced.frame rfl rfl rfl rfl fun d _ hd => hd.setRecord (fun _ => nofun) hc, ?_, h.boot, h.epoch⟩,
      rfl, ?_⟩
    · simpa [hc] using h.command
    · simp

theorem emit_owned {P : World → Prop} {a : EmitAnswers} (K : List Command → Prop)
    (hs : state ≠ .empty) (hp : ∀ w, P w → Owned boots c i w ∧ K w.actuated) :
    Triple P (emit a i state mono)
      (fun _ t => Owned boots c i t ∧ K t.actuated ∧ (t.ram.journal.records i).status ≠ .empty)
      (fun _ => Spent boots) := by
  refine .adapt (fun _ => emit_triple) ?_ ?_
  · intro w _ t hw he
    have ⟨h, hk⟩ := hp w hw
    have ⟨h', ha, hs'⟩ := he.owned h hs
    exact ⟨h', ha ▸ hk, hs'⟩
  · intro w _ t hw hc
    have ⟨h, _⟩ := hp w hw
    exact ⟨hc.actuated ▸ h.nodup, hc.actuated ▸ h.known⟩

theorem Owned.quiet (h : Owned boots c i w) (hq : Quiet w t) : Owned boots c i t :=
  ⟨h.toFenced.quiet hq, hq.journal ▸ h.command, h.boot.trans hq.boot.symm,
    h.epoch.trans hq.epoch.symm⟩

theorem Fenced.update (h : Fenced boots w) (hs : r.status = (w.ram.journal.records i).status)
    (hr : r.command = (w.ram.journal.records i).command) :
    Fenced boots { w with ram := w.ram.setRecord i r } :=
  h.frame rfl rfl rfl rfl fun _ _ hd => hd.setRecord (fun h => hs ▸ h) hr

theorem Owned.update (h : Owned boots c i w) (hs : r.status = (w.ram.journal.records i).status)
    (hr : r.command = (w.ram.journal.records i).command) :
    Owned boots c i { w with ram := w.ram.setRecord i r } :=
  ⟨h.toFenced.update hs hr, by simpa [hr] using h.command, h.boot, h.epoch⟩

-- Actuating an owned command spends its key.
theorem Owned.actuate (h : Owned boots c i w) (hk : c.key ∉ w.actuated.map Command.key)
    (hs : (w.ram.journal.records i).status ≠ .empty) :
    Owned boots c i { w with actuated := w.actuated ++ [c] } := by
  have held : w.ram.Holds c := ⟨i, hs, congrArg _ h.command, congrArg _ h.command⟩
  refine ⟨⟨⟨?nodup, ?known⟩, h.booted, h.highest, ?older, ?held⟩, h.command, h.boot, h.epoch⟩
  case nodup =>
    rw [List.map_append, List.nodup_append_comm]
    exact List.nodup_cons.mpr ⟨hk, h.nodup⟩
  case known =>
    intro d hd
    cases List.mem_append.mp hd
    case inl hd => exact h.known d hd
    case inr hd => exact List.mem_singleton.mp hd ▸ h.boot ▸ h.booted
  case older =>
    intro d hd hb
    cases List.mem_append.mp hd
    case inl hd => exact h.older d hd hb
    case inr hd => exact UInt64.le_of_eq (List.mem_singleton.mp hd ▸ h.epoch)
  case held =>
    intro d hd hb he
    cases List.mem_append.mp hd
    case inl hd => exact h.held d hd hb he
    case inr hd => exact List.mem_singleton.mp hd ▸ held

theorem act_owned {a : ExecuteAnswers} :
    Triple (fun w => Owned boots c i w ∧ c.key ∉ w.actuated.map Command.key ∧
        (w.ram.journal.records i).status ≠ .empty) (act a c mono now i)
      (fun _ => Owned boots c i) (fun _ => Spent boots) := by
  have observed (b : Bool) : Triple (Owned boots c i)
      (modifyRecord i fun r => { r with readback := b }) (fun _ => Owned boots c i)
      (fun _ => Spent boots) := triple_modifyRecord fun _ h => h.update rfl rfl
  refine .ite (fun _ => ?_) fun _ => ?_
  · refine .bind triple_skipRam fun e => ?_
    refine .bind (triple_modifyRam fun _ ⟨h, hk, hs⟩ => ?_) (Q := fun _ w => Owned boots c i w ∧
      c.key ∉ w.actuated.map Command.key ∧ (w.ram.journal.records i).status ≠ .empty) fun _ => ?_
    · exact ⟨h.quiet ⟨⟨rfl, rfl, rfl⟩, rfl, rfl, rfl, fun h => h⟩, hk, hs⟩
    refine .bind (Q := fun _ => Owned boots c i)
      (.modify fun _ ⟨h, hk, hs⟩ => h.actuate hk hs) fun _ => ?_
    refine .bind (Q := fun _ => Owned boots c i)
      (quiet_keeps (fun _ => quiet_writeOutput) (fun _ _ h => h.quiet) fun _ _ h => h.toSpent.durable)
      fun _ => ?_
    refine .bind (Q := fun _ => Owned boots c i) (triple_modifyRam fun _ h => ?_) fun _ => ?_
    · exact h.quiet ⟨⟨rfl, rfl, rfl⟩, rfl, rfl, rfl, fun h => h⟩
    refine .bind (triple_readLevel (fun _ _ h => h) fun _ h => h.toSpent) fun b => ?_
    exact .bind (observed b) fun _ => .pure fun _ h => h
  · refine .bind (triple_readLevel (fun _ _ h => h.left) fun _ h => h.left.toSpent) fun b => ?_
    exact .bind (observed b) fun _ => .pure fun _ h => h

-- Taking a slot that may be reused keeps every record of the current epoch.
theorem Fenced.take (h : Fenced boots w) (hr : w.ram.reusable now (w.ram.journal.records i)) :
    Fenced boots { w with ram := w.ram.setRecord i { Record.zero with command := c } } := by
  refine h.frame rfl rfl rfl rfl fun d he ⟨j, h₁, h₂, h₃⟩ => ⟨j, ?_⟩
  by_cases hj : j = i
  case neg => simpa [Executor.setRecord_other hj] using ⟨h₁, h₂, h₃⟩
  case pos =>
    subst hj
    simp only [Executor.reusable, Bool.or_eq_true, Bool.and_eq_true, decide_eq_true_eq, h₁,
      false_or] at hr
    exact absurd (h₃.trans he ▸ hr.right) (UInt64.lt_irrefl _)

theorem perform_fenced {a : ExecuteAnswers} :
    Triple (fun w => Fenced boots w ∧ w.ram.Admits c mono ∧ w.ram.query c.id = none ∧
        w.ram.reusable now (w.ram.journal.records i)) (perform a c mono now i)
      (fun _ => Fenced boots) (fun _ => Spent boots) := by
  refine .bind (Q := fun _ w => Owned boots c i w ∧ c.key ∉ w.actuated.map Command.key)
    (triple_modifyRecord fun w ⟨h, ha, hq, hr⟩ => ?_) fun _ => ?_
  · refine ⟨⟨h.take hr, by simp, ha.boot, ha.epoch⟩, fun hk => ?_⟩
    -- An actuated command with this key would still have its record.
    have ⟨d, hd, hkey⟩ := List.mem_map.mp hk
    simp only [Command.key, Prod.mk.injEq] at hkey
    have ⟨j, hs, hid, _⟩ := h.held d hd (hkey.left.trans ha.boot) (hkey.right.right.trans ha.epoch)
    exact w.ram.query_none hq j hs (hid.trans hkey.right.left)
  refine .bind (emit_owned (c.key ∉ ·.map Command.key) nofun fun _ h => h) fun _ => ?_
  refine .bind triple_skipRam fun e => .ite (fun _ => .pure fun _ h => h.left.toFenced) fun _ => ?_
  refine .bind (emit_owned (c.key ∉ ·.map Command.key) nofun fun _ h => ⟨h.left, h.right.left⟩)
    fun _ => ?_
  refine .bind triple_skipRam fun e => .ite (fun _ => .pure fun _ h => h.left.toFenced) fun _ => ?_
  refine .bind act_owned fun ok => ?_
  refine .bind (emit_owned (fun _ => True) (by split <;> nofun) fun _ h => ⟨h, trivial⟩) fun _ => ?_
  exact .bind triple_skipRam fun e => .pure fun _ h => h.left.toFenced

theorem execute_fenced {a : ExecuteAnswers} :
    Triple (Fenced boots) (execute a c mono) (fun _ => Fenced boots) (fun _ => Spent boots) := by
  refine .bind triple_readRam fun e => ?_
  split
  case h_1 prior hq =>
    refine .ite (fun _ => .pure fun _ h => h.left) fun _ => ?_
    exact .bind (receipt_fenced.conseq (fun _ h => h.left) (fun _ _ h => h) fun _ _ h => h)
      fun _ => .pure fun _ h => h
  case h_2 hq =>
    split
    case h_1 => exact .pure fun _ h => h.left
    case h_2 hr =>
      split
      case h_1 => exact .pure fun _ h => h.left
      case h_2 i hi =>
        refine perform_fenced.conseq ?_ (fun _ _ h => h) fun _ _ h => h
        rintro w ⟨h, rfl⟩
        exact ⟨h, w.ram.refusal_none hr, hq, w.ram.slot?_some hi⟩

theorem handleCommand_fenced {a : ExecuteAnswers} {cut : Bool} {later : UInt64} :
    Triple (Fenced boots) (handleCommand a cut c mono later) (fun _ => Fenced boots)
      (fun _ => Spent boots) := by
  refine .bind execute_fenced fun _ => .bind triple_skipRam fun e => ?_
  exact .ite (fun _ => receipt_fenced) fun _ => .pure fun _ h => h

theorem handleQuery_fenced {cut : Bool} {id : String} :
    Triple (Fenced boots) (handleQuery cut id) (fun _ => Fenced boots) (fun _ => Spent boots) := by
  refine .bind triple_skipRam fun e => ?_
  split
  · exact .pure fun _ h => h
  · exact receipt_fenced

theorem handleCancel_fenced {cut : Bool} {id digest : String} :
    Triple (Fenced boots) (handleCancel cut id digest) (fun _ => Fenced boots)
      (fun _ => Spent boots) := by
  refine .bind triple_skipRam fun e => ?_
  split
  case h_1 => exact .pure fun _ h => h
  case h_2 =>
    refine .ite (fun _ => ?_) fun _ => .pure fun _ h => h
    refine .bind (.modify fun _ h => ?_) (Q := fun _ => Fenced boots) fun _ => ?_
    · exact h.quiet ⟨⟨rfl, rfl, rfl⟩, rfl, rfl, rfl, fun h => h⟩
    refine .bind (triple_modifyRam fun _ h => ?_) fun _ => receipt_fenced
    exact h.quiet ⟨⟨rfl, rfl, rfl⟩, rfl, rfl, rfl, fun h => h⟩

theorem ack_fenced {a : SaveAnswers} {id : String} {seq : UInt64} :
    Triple (Fenced boots) (ack a id seq) (fun _ => Fenced boots) (fun _ => Spent boots) := by
  refine .bind triple_skipRam fun e => ?_
  split
  case h_1 => exact .pure fun _ h => h
  case h_2 i _ =>
    refine .bind (Q := fun _ => Fenced boots) (triple_modifyRecord fun _ h => h.update rfl rfl)
      fun _ => ?_
    exact .bind save_fenced fun _ => .pure fun _ h => h

-- A session may only move to an epoch that fences off every older one.
theorem openSession_fenced {p : Session} :
    Triple (fun w => Fenced boots w ∧ w.ram.epoch ≤ p.epoch ∧ p.epoch ≤ w.ram.journal.highestEpoch)
      (openSession p mono) (fun _ => Fenced boots) (fun _ => Spent boots) := by
  refine .bind triple_skipRam fun e => .ite (fun _ => .pure fun _ h => h.left) fun _ => ?_
  refine .bind (triple_modifyRam fun w ⟨h, hle, hhi⟩ => ?_) fun _ => .pure fun _ h => h
  refine ⟨⟨h.nodup, h.known⟩, h.booted, hhi, fun d hd hb => ?_, fun d hd hb he => ?_⟩
  · exact UInt64.le_trans (h.older d hd hb) hle
  · exact h.held d hd hb (UInt64.le_antisymm (h.older d hd hb) (he ▸ hle))

theorem acceptsSession_epoch {p : Session} (h : e.acceptsSession p mono = true) :
    e.journal.highestEpoch ≤ p.epoch := by
  by_contra hlt
  simp [Executor.acceptsSession, UInt64.not_le.mp hlt] at h

theorem session_fenced {a : SaveAnswers} {p : Session} :
    Triple (Fenced boots) (session a p mono) (fun _ => Fenced boots) (fun _ => Spent boots) := by
  refine .bind triple_readRam fun e => .ite (fun _ => .pure fun _ h => h.left) fun ha => ?_
  have hge : e.journal.highestEpoch ≤ p.epoch := acceptsSession_epoch (by simpa using ha)
  refine .ite (fun _ => ?_) fun hle => ?_
  · refine .bind (Q := fun _ w => Fenced boots w ∧ w.ram.epoch ≤ p.epoch ∧
      p.epoch ≤ w.ram.journal.highestEpoch) (triple_modifyRam ?_) fun _ => ?_
    · rintro w ⟨h, rfl⟩
      have hep : w.ram.epoch ≤ p.epoch := UInt64.le_trans h.highest hge
      exact ⟨⟨⟨h.nodup, h.known⟩, h.booted, hep, h.older, h.held⟩, hep, UInt64.le_refl _⟩
    refine .bind (Q := fun _ w => Fenced boots w ∧ w.ram.epoch ≤ p.epoch ∧
      p.epoch ≤ w.ram.journal.highestEpoch) (.adapt (fun _ => save_triple) ?_ ?_) fun stored => ?_
    · intro w b t ⟨h, h₁, h₂⟩ hs
      exact ⟨hs.fenced h, by cases hs <;> exact h₁, by cases hs <;> exact h₂⟩
    · intro w _ t ⟨h, _⟩ hd
      exact h.toSpent.durable hd
    exact .ite (fun _ => openSession_fenced) fun _ => .pure fun _ h => h.left
  · refine openSession_fenced.conseq ?_ (fun _ _ h => h) fun _ _ h => h
    rintro w ⟨h, rfl⟩
    exact ⟨h, UInt64.le_trans h.highest hge, UInt64.not_lt.mp hle⟩

theorem call_fenced (call : Call) :
    Triple (Fenced boots) call.run (fun _ => Fenced boots) (fun _ => Spent boots) := by
  have quietly {x : Exec Unit} (hx : ∀ w, Triple (Quiet w) x (fun _ => Quiet w) fun _ => w.Durable) :
      Triple (Fenced boots) x (fun _ => Fenced boots) (fun _ => Spent boots) :=
    quiet_keeps hx (fun _ _ h => h.quiet) fun _ _ h => h.toSpent.durable
  cases call
  case arm        => exact quietly fun _ => .map arm_quiet
  case stop       => exact quietly fun _ => stop_quiet
  case disconnect => exact quietly fun _ => disconnect_quiet
  case session    => exact .map session_fenced
  case command    => exact handleCommand_fenced
  case query      => exact handleQuery_fenced
  case cancel     => exact handleCancel_fenced
  case ack        => exact ack_fenced
  case tick       => exact quietly fun _ => tick_quiet

-- The fence over the life of the device.
structure State.Fenced (s : State) : Prop where
  spent : Spent s.boots s.world
  on    : s.on → Firmware.Fenced s.boots s.world

theorem Spent.lose (h : Spent boots w) (hd : w.Durable t) : Spent boots t.lose :=
  ⟨(h.durable hd).nodup, (h.durable hd).known⟩

theorem Spent.boot (h : Spent boots w) (b : String) : Spent (b :: boots) w :=
  ⟨h.nodup, fun c hc => List.mem_cons_of_mem _ (h.known c hc)⟩

-- A new boot identifier fences off everything that was actuated before.
theorem Spent.fresh {b : String} (h : Spent boots w) (hb : b ∉ boots) (he : w.ram.boot = b)
    (hz : w.ram.epoch = 0) : Firmware.Fenced (b :: boots) w where
  toSpent := h.boot b
  booted := he ▸ List.mem_cons_self
  highest := hz ▸ UInt64.zero_le
  older c hc hcb := absurd (hcb.trans he ▸ h.known c hc) hb
  held c hc hcb := absurd (hcb.trans he ▸ h.known c hc) hb

theorem boot?_some {flash : Option Journal} {authority device boot : String} {caps hold : UInt32}
    (h : Executor.boot? flash authority device boot caps hold = some e) :
    e.boot = boot ∧ e.epoch = 0 := by
  simp only [Executor.boot?] at h
  split at h <;> cases h
  exact ⟨rfl, rfl⟩

theorem step_fenced (h : s.Fenced) (hs : system.step s op s') : s'.Fenced := by
  obtain ⟨ha, rfl⟩ := hs
  cases op
  case powerLoss => exact ⟨h.spent.lose .refl, nofun⟩
  case boot a authority device boot caps hold =>
    rcases boot_cases s a authority device boot caps hold with ⟨e, he, _, h'⟩ | ⟨t, hd, h'⟩
    · have ⟨hb, hz⟩ := boot?_some he
      have hf : Firmware.Fenced (boot :: s.boots)
          { s.world with ram := e, flash := some e.journal, output := none } :=
        Spent.fresh ⟨h.spent.nodup, h.spent.known⟩ ha hb hz
      exact h' ▸ ⟨hf.toSpent, fun _ => hf⟩
    · exact h' ▸ ⟨(h.spent.lose hd).boot _, nofun⟩
  case call call =>
    rcases call_cases s call with ⟨t, hr, h'⟩ | ⟨t, hr, h'⟩
    · have hf := (call_fenced call).ok (h.on ha) hr
      exact h' ▸ ⟨hf.toSpent, fun _ => hf⟩
    · exact h' ▸ ⟨((call_fenced call).error (h.on ha) hr).lose .refl, nofun⟩

theorem reachable_fenced (h : system.Reachable s) : s.Fenced := by
  refine h.invariant (I := State.Fenced) ?_ fun _ _ _ => step_fenced
  rintro _ rfl
  exact ⟨⟨List.nodup_nil, nofun⟩, nofun⟩

-- Over the whole life of the device, the output driver is invoked at most once on behalf of a
-- command with a given boot identifier, command identifier and lease epoch: in particular never
-- twice for the same command, however often it is delivered.
theorem actuated_once (h : system.Reachable s) :
    (s.world.actuated.map fun c => (c.boot, c.id, c.epoch)).Nodup :=
  (reachable_fenced h).spent.nodup

-- The record of "x" is acknowledged, a new epoch opens, its slot goes to "y", and "x" comes again as
-- a command of the new epoch.
def reusedId : List Op :=
  started ++
  [deliver highCommand 0, .call (.ack {} "x" 3), .call (.disconnect .done),
   .call (.session {} ⟨2, 1, 7, 3000, 20000⟩ 2000),
   deliver { highCommand with
     id := "y", digest := "d2", epoch := 2, issuedMs := 3000, deadlineMs := 4000,
     expectedRevision := 3 } 2000,
   deliver { highCommand with
     digest := "d3", epoch := 2, issuedMs := 3000, deadlineMs := 4000, expectedRevision := 4 } 2000]

theorem reusedId_reachable : system.Reachable (State.initial.run reusedId) :=
  run_reachable _ (by decide +kernel)

-- Without the epoch the key is not unique: a command identifier can be used again in the same boot.
theorem reusedId_actuated : ¬∀ s, system.Reachable s →
    (s.world.actuated.map fun c => (c.boot, c.id)).Nodup := by
  intro h
  have := h _ reusedId_reachable
  revert this
  decide +kernel

theorem actuated_once_reusedId :
    ((State.initial.run reusedId).world.actuated.map fun c => (c.boot, c.id, c.epoch)).Nodup :=
  actuated_once reusedId_reachable

end Firmware
