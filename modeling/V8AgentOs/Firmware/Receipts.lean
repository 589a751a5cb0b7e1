import V8AgentOs.Firmware.Steps
import V8AgentOs.Lib.Numbered

-- One receipt for each sequence number of a command.
namespace Firmware

open Hoare

abbrev Key := String × String

-- A receipt is about the command with an identifier and a digest, and numbered by its sequence.
def labels : Labels Receipt Key where
  key p := (p.commandId, p.commandDigest)
  num p := p.receiptSeq.toNat

def Command.name (c : Command) : Key :=
  (c.id, c.digest)

abbrev Records := Fin recordCount → Record

variable {K K' : Key → Prop} {said said' : Receipt → Prop} {recs recs' : Records} {w t : World}
  {e : Executor} {i j : Fin recordCount} {r : Record} {c : Command} {m : Receipt} {state : Status}
  {mono now : UInt64} {s s' : State} {op : Op}

-- The sequence number of a record leaves room for what can still happen to it.
structure Record.Bounded (r : Record) : Prop where
  pending : r.status = .started ∨ r.status = .received → r.seq.toNat ≤ 2
  settled : r.seq.toNat ≤ 3

-- The receipts said so far agree with each other and with the records of a journal. `K` are the
-- commands heard of.
structure Told (K : Key → Prop) (said : Receipt → Prop) (recs : Records) : Prop where
  agree    : labels.Agree said
  next     : ∀ i, (recs i).status ≠ .empty → labels.Next said (recs i).receipt
  distinct : ∀ i j, (recs i).status ≠ .empty → (recs j).status ≠ .empty →
    (recs i).command.name = (recs j).command.name → i = j
  bounded  : ∀ i, (recs i).status ≠ .empty → (recs i).Bounded
  known    : ∀ i, (recs i).status ≠ .empty → K (recs i).command.name
  heard    : ∀ p, said p → K (labels.key p)

def Tells (recs : Records) (p : Receipt) : Prop :=
  ∃ i, (recs i).status ≠ .empty ∧ p = (recs i).receipt

theorem repair_status : r.repair.status ≠ .empty ↔ r.status ≠ .empty := by
  unfold Record.repair
  split
  case isTrue h  => rcases h with h | h <;> simp [h]
  case isFalse h => rfl

theorem repair_command : r.repair.command = r.command := by
  unfold Record.repair
  split <;> rfl

theorem seq_succ {n : UInt64} (h : n.toNat ≤ 3) : (n + 1).toNat = n.toNat + 1 := by
  rw [UInt64.toNat_add]
  exact Nat.mod_eq_of_lt (Nat.lt_of_le_of_lt (Nat.add_le_add_right h 1) (by decide))

theorem Record.Bounded.repair (h : r.Bounded) : r.repair.Bounded := by
  unfold Record.repair
  split
  case isTrue hp =>
    refine ⟨fun h' => ?_, ?_⟩
    · split at h' <;> simp at h'
    · have := h.pending hp
      exact seq_succ h.settled ▸ Nat.succ_le_succ this
  case isFalse => exact h

-- A repaired record says nothing new, or says it under the next number.
theorem repair_next (h : r.Bounded) (hn : labels.Next said r.receipt) :
    labels.Next said r.repair.receipt := by
  unfold Record.repair
  split
  case isTrue  => exact hn.advance rfl (Nat.lt_of_lt_of_eq (Nat.lt_succ_self _) (seq_succ h.settled).symm)
  case isFalse => exact hn

namespace Told

theorem weaken (h : Told K said recs) (hk : ∀ k, K k → K' k) (hs : ∀ p, said' p → said p) :
    Told K' said' recs where
  agree := h.agree.mono hs
  next i hi := (h.next i hi).mono hs
  distinct := h.distinct
  bounded := h.bounded
  known i hi := hk _ (h.known i hi)
  heard p hp := hk _ (h.heard p (hs p hp))

-- Only what the records tell matters.
theorem congr (h : Told K said recs) (hr : ∀ i, (recs' i).receipt = (recs i).receipt) :
    Told K said recs' := by
  have status (i : Fin recordCount) : (recs' i).status = (recs i).status :=
    congrArg Receipt.status (hr i)
  have name (i : Fin recordCount) : (recs' i).command.name = (recs i).command.name :=
    congrArg labels.key (hr i)
  have seq (i : Fin recordCount) : (recs' i).seq = (recs i).seq :=
    congrArg Receipt.receiptSeq (hr i)
  refine ⟨h.agree, fun i hi => ?_, fun i j hi hj hk => ?_, fun i hi => ?_, fun i hi => ?_, h.heard⟩
  · exact hr i ▸ h.next i (status i ▸ hi)
  · exact h.distinct i j (status i ▸ hi) (status j ▸ hj) (name i ▸ name j ▸ hk)
  · have hb := h.bounded i (status i ▸ hi)
    exact ⟨fun hp => seq i ▸ hb.pending (status i ▸ hp), seq i ▸ hb.settled⟩
  · exact name i ▸ h.known i (status i ▸ hi)

theorem blank (h : Told K said recs) : Told K said fun _ => .zero where
  agree := h.agree
  next _ hi := absurd rfl hi
  distinct _ _ hi := absurd rfl hi
  bounded _ hi := absurd rfl hi
  known _ hi := absurd rfl hi
  heard := h.heard

theorem repaired (h : Told K said recs) : Told K said fun i => (recs i).repair where
  agree := h.agree
  next i hi := repair_next (h.bounded i (repair_status.mp hi)) (h.next i (repair_status.mp hi))
  distinct i j hi hj hk :=
    h.distinct i j (repair_status.mp hi) (repair_status.mp hj) (by simpa [repair_command] using hk)
  bounded i hi := (h.bounded i (repair_status.mp hi)).repair
  known i hi := by simpa [repair_command] using h.known i (repair_status.mp hi)
  heard := h.heard

theorem say (h : Told K said recs) (hm : K (labels.key m)) (hn : labels.Next said m)
    (hf : ∀ i, (recs i).status ≠ .empty → labels.Follows (recs i).receipt m) :
    Told K (fun p => said p ∨ p = m) recs where
  agree := h.agree.say hn
  next i hi := (h.next i hi).say (hf i hi)
  distinct := h.distinct
  bounded := h.bounded
  known := h.known
  heard p hp := hp.elim (h.heard p) (· ▸ hm)

-- The receipts of the records themselves may be said.
theorem tell (h : Told K said recs) : Told K (fun p => said p ∨ Tells recs p) recs where
  agree := by
    rintro p q (hp | ⟨i, hi, rfl⟩) (hq | ⟨j, hj, rfl⟩) hk hn
    · exact h.agree p q hp hq hk hn
    · exact (h.next j hj p hp hk).right hn
    · exact ((h.next i hi q hq hk.symm).right hn.symm).symm
    · exact h.distinct i j hi hj hk ▸ rfl
  next i hi := by
    rintro p (hp | ⟨j, hj, rfl⟩) hk
    · exact h.next i hi p hp hk
    · exact h.distinct j i hj hi hk ▸ Labels.Follows.refl rfl
  distinct := h.distinct
  bounded := h.bounded
  known := h.known
  heard p hp := hp.elim (h.heard p) fun ⟨i, hi, he⟩ => he ▸ h.known i hi

theorem clear (h : Told K said recs) (i : Fin recordCount) (hr : r.status = .empty) :
    Told K said (Function.update recs i r) := by
  have old (j : Fin recordCount) (hj : (Function.update recs i r j).status ≠ .empty) :
      Function.update recs i r j = recs j ∧ (recs j).status ≠ .empty := by
    by_cases he : j = i
    case pos => simp [he, hr] at hj
    case neg => exact ⟨by simp [he], by simpa [he] using hj⟩
  refine ⟨h.agree, fun j hj => ?_, fun j k hj hk => ?_, fun j hj => ?_, fun j hj => ?_, h.heard⟩
  · exact (old j hj).left ▸ h.next j (old j hj).right
  · exact (old j hj).left ▸ (old k hk).left ▸ h.distinct j k (old j hj).right (old k hk).right
  · exact (old j hj).left ▸ h.bounded j (old j hj).right
  · exact (old j hj).left ▸ h.known j (old j hj).right

-- A new state of one record.
theorem set (h : Told K said recs) (hk : K r.command.name) (hb : r.Bounded)
    (hn : labels.Next said r.receipt)
    (hd : ∀ j, j ≠ i → (recs j).status ≠ .empty → (recs j).command.name ≠ r.command.name) :
    Told K said (Function.update recs i r) where
  agree := h.agree
  next j hj := by
    by_cases he : j = i
    case pos => subst he; simpa using hn
    case neg => simpa [he] using h.next j (by simpa [he] using hj)
  distinct j k hj hk' hkey := by
    by_cases he : j = i <;> by_cases he' : k = i
    · exact he.trans he'.symm
    · subst he
      simp only [Function.update_self, ne_eq, he', not_false_eq_true,
        Function.update_of_ne] at hk' hkey
      exact absurd hkey.symm (hd k he' hk')
    · subst he'
      simp only [Function.update_self, ne_eq, he, not_false_eq_true,
        Function.update_of_ne] at hj hkey
      exact absurd hkey (hd j he hj)
    · simp only [ne_eq, he, he', not_false_eq_true, Function.update_of_ne] at hj hk' hkey
      exact h.distinct j k hj hk' hkey
  bounded j hj := by
    by_cases he : j = i
    case pos => subst he; simpa using hb
    case neg => simpa [he] using h.bounded j (by simpa [he] using hj)
  known j hj := by
    by_cases he : j = i
    case pos => subst he; simpa using hk
    case neg => simpa [he] using h.known j (by simpa [he] using hj)
  heard := h.heard

end Told

-- The receipts sent so far agree with the records in memory and with what a boot makes of the
-- records in flash.
structure Agrees (K : Key → Prop) (w : World) : Prop where
  ram   : Told K (· ∈ w.sent) w.ram.journal.records
  flash : ∀ f ∈ w.flash, Told K (fun p => p ∈ w.sent ∨ Tells w.ram.journal.records p)
    fun i => (f.records i).repair

-- What power loss leaves.
def Cut (K : Key → Prop) (_ : PowerLoss) (w : World) : Prop :=
  Agrees K w.lose

namespace Agrees

theorem weaken (h : Agrees K w) (hk : ∀ k, K k → K' k) : Agrees K' w :=
  ⟨h.ram.weaken hk fun _ h => h, fun f hf => (h.flash f hf).weaken hk fun _ h => h⟩

theorem frame (h : Agrees K w) (hs : t.sent = w.sent) (hf : t.flash = w.flash)
    (hj : t.ram.journal.records = w.ram.journal.records) : Agrees K t :=
  ⟨hs ▸ hj ▸ h.ram, hs ▸ hf ▸ hj ▸ h.flash⟩

theorem retouch (h : Agrees K w) (hr : r.receipt = (w.ram.journal.records i).receipt) :
    Agrees K { w with ram := w.ram.setRecord i r } := by
  have same (j : Fin recordCount) :
      ((w.ram.setRecord i r).journal.records j).receipt = (w.ram.journal.records j).receipt := by
    by_cases he : j = i
    case pos => simp [he, hr]
    case neg => rw [Executor.setRecord_other he]
  refine ⟨h.ram.congr same, fun f hf => (h.flash f hf).weaken (fun _ h => h) fun p hp => ?_⟩
  refine hp.imp id fun ⟨j, hj, hp⟩ => ⟨j, ?_, hp.trans (same j)⟩
  exact fun he => hj ((congrArg Receipt.status (same j)).trans he)

-- A slot is taken for a new command.
theorem take (h : Agrees K w) :
    Agrees K { w with ram := w.ram.setRecord i { Record.zero with command := c } } := by
  refine ⟨h.ram.clear i rfl, fun f hf => (h.flash f hf).weaken (fun _ h => h) fun p hp => ?_⟩
  refine hp.imp id fun ⟨j, hj, hp⟩ => ⟨j, ?_⟩
  have he : j ≠ i := by
    rintro rfl
    exact hj (by simp [Record.zero])
  rw [Executor.setRecord_other he] at hj hp
  exact ⟨hj, hp⟩

theorem store (h : Agrees K w) : Agrees K { w with flash := some w.ram.journal } where
  ram := h.ram
  flash _ hf := Option.mem_some.mp hf ▸ h.ram.tell.repaired

theorem lose (h : Agrees K w) (hd : w.Durable t) : Agrees K t.lose where
  ram := (h.ram.weaken (fun _ h => h) fun _ h => hd.sent ▸ h).blank
  flash f hf := (h.flash f (hd.flash ▸ hf)).weaken (fun _ h => h) fun _ hp =>
    .inl (hd.sent ▸ hp.resolve_right fun ⟨_, hi, _⟩ => hi rfl)

-- The receipt of a record in memory is sent.
theorem send (h : Agrees K w) (hi : (w.ram.journal.records i).status ≠ .empty) :
    Agrees K { w with sent := w.sent ++ [(w.ram.journal.records i).receipt] } where
  ram := h.ram.tell.weaken (fun _ h => h) fun _ hp =>
    (List.mem_append.mp hp).imp id fun hp => ⟨i, hi, List.mem_singleton.mp hp⟩
  flash f hf := (h.flash f hf).weaken (fun _ h => h) fun _ hp =>
    hp.elim (fun hp => (List.mem_append.mp hp).imp id fun hp => ⟨i, hi, List.mem_singleton.mp hp⟩) .inr

end Agrees

theorem quiet_agrees {α : Type} {x : Exec α}
    (hx : ∀ w, Triple (Quiet w) x (fun _ => Quiet w) fun _ => w.Durable) :
    Triple (Agrees K) x (fun _ => Agrees K) (Cut K) :=
  quiet_keeps hx (fun _ _ h hq => h.frame hq.sent hq.flash (congrArg _ hq.journal)) fun _ _ h => h.lose

theorem save_agrees {a : SaveAnswers} : Triple (Agrees K) (save a) (fun _ => Agrees K) (Cut K) := by
  refine .adapt (fun _ => save_triple) (fun w b t h hs => ?_) fun _ _ _ h => h.lose
  cases hs
  case stored => exact h.store
  case failed => exact h.frame rfl rfl rfl

theorem openSession_agrees {p : Session} :
    Triple (Agrees K) (openSession p mono) (fun _ => Agrees K) (Cut K) := by
  refine .bind triple_skipRam fun e => .ite (fun _ => .pure fun _ h => h) fun _ => ?_
  exact .bind (Q := fun _ => Agrees K) (triple_modifyRam fun w h => h.frame rfl rfl rfl) fun _ =>
    .pure fun _ h => h

theorem session_agrees {a : SaveAnswers} {p : Session} :
    Triple (Agrees K) (session a p mono) (fun _ => Agrees K) (Cut K) := by
  refine .bind triple_skipRam fun e => .ite (fun _ => .pure fun _ h => h) fun _ => ?_
  refine .ite (fun _ => ?_) fun _ => openSession_agrees
  refine .bind (Q := fun _ => Agrees K) (triple_modifyRam fun _ h => h.frame rfl rfl rfl) fun _ => ?_
  exact .bind save_agrees fun b => .ite (fun _ => openSession_agrees) fun _ => .pure fun _ h => h

-- A record that a lookup finds is sent again.
theorem resend_agrees {cut : Bool} {id : String} (h : e.query id = some r) :
    Triple (fun w => Agrees K w ∧ e.journal = w.ram.journal) (receipt cut r) (fun _ => Agrees K)
      (Cut K) := by
  have ⟨i, hr, hs, _⟩ := e.query_some h
  refine triple_receipt (fun _ w ⟨h, he⟩ => ?_) fun w ⟨h, _⟩ => h.lose .refl
  rw [← hr, he] at hs ⊢
  exact h.send hs

theorem handleQuery_agrees {cut : Bool} {id : String} :
    Triple (Agrees K) (handleQuery cut id) (fun _ => Agrees K) (Cut K) := by
  refine .bind triple_readRam fun e => ?_
  split
  case h_1 => exact .pure fun _ h => h.left
  case h_2 hq =>
    exact (resend_agrees hq).conseq (fun _ h => ⟨h.left, h.right ▸ rfl⟩) (fun _ _ h => h) fun _ _ h => h

theorem handleCancel_agrees {cut : Bool} {id digest : String} :
    Triple (Agrees K) (handleCancel cut id digest) (fun _ => Agrees K) (Cut K) := by
  refine .bind triple_readRam fun e => ?_
  split
  case h_1 => exact .pure fun _ h => h.left
  case h_2 hq =>
    refine .ite (fun _ => ?_) fun _ => .pure fun _ h => h.left
    refine .bind (Q := fun _ w => Agrees K w ∧ e.journal = w.ram.journal) (.modify ?_) fun _ => ?_
    · exact fun w h => ⟨h.left.frame rfl rfl rfl, h.right ▸ rfl⟩
    refine .bind (triple_modifyRam fun w h => ?_) fun _ => resend_agrees hq
    exact ⟨h.left.frame rfl rfl rfl, h.right⟩

-- An acknowledgement changes nothing that a receipt tells.
theorem ack_agrees {a : SaveAnswers} {id : String} {seq : UInt64} :
    Triple (Agrees K) (ack a id seq) (fun _ => Agrees K) (Cut K) := by
  refine .bind triple_skipRam fun e => ?_
  split
  case h_1 => exact .pure fun _ h => h
  case h_2 i _ =>
    refine .bind (Q := fun _ => Agrees K) (triple_modifyRecord fun w h => h.retouch rfl) fun _ => ?_
    exact .bind save_agrees fun _ => .pure fun _ h => h

-- What a new state of a record has to meet.
structure Fits (K : Key → Prop) (w : World) (i : Fin recordCount) (r : Record) : Prop where
  known    : K r.command.name
  bounded  : r.Bounded
  next     : labels.Next (· ∈ w.sent) r.receipt
  distinct : ∀ j, j ≠ i → (w.ram.journal.records j).status ≠ .empty →
    (w.ram.journal.records j).command.name ≠ r.command.name

theorem Fits.told (h : Fits K w i r) (ht : Told K (· ∈ w.sent) w.ram.journal.records) :
    Told K (· ∈ w.sent) (w.ram.setRecord i r).journal.records :=
  ht.set h.known h.bounded h.next h.distinct

-- The first state of a command that was never heard of.
theorem Fits.first (h : Agrees K w) (hc : ¬K r.command.name) (hb : r.Bounded)
    (hk : K' r.command.name) : Fits K' w i r where
  known := hk
  bounded := hb
  next := .of_fresh fun p hp hkey => by
    have := h.ram.heard p hp
    rw [hkey] at this
    exact hc this
  distinct j _ hj hn := hc (hn ▸ h.ram.known j hj)

-- The next state of a record.
theorem Fits.next_state (h : Agrees K w) (hi : (w.ram.journal.records i).status ≠ .empty)
    (hc : r.command = (w.ram.journal.records i).command)
    (hs : (w.ram.journal.records i).seq.toNat < r.seq.toNat) (hb : r.Bounded) : Fits K w i r where
  known := hc ▸ h.ram.known i hi
  bounded := hb
  next := (h.ram.next i hi).advance (by simp [labels, Record.receipt, hc]) hs
  distinct j hj hne hn := hj (h.ram.distinct j i hne hi (hn.trans (by rw [hc])))

theorem Agrees.stored (ht : Told K (· ∈ w.sent) w.ram.journal.records) (hf : Fits K w i r)
    (hs : r.status ≠ .empty) : Agrees K
      { w with
        ram := w.ram.setRecord i r
        flash := some (w.ram.setRecord i r).journal
        sent := w.sent ++ [r.receipt] } := by
  have hset : Agrees K { w with
      ram := w.ram.setRecord i r, flash := some (w.ram.setRecord i r).journal } :=
    ⟨hf.told ht, fun f hf' => Option.mem_some.mp hf' ▸ (hf.told ht).tell.repaired⟩
  simpa using hset.send (i := i) (by simpa using hs)

-- A state that is reported but not stored must not contradict what a boot makes of the flash.
theorem Agrees.unstored {out : Option Raise} (ht : Agrees K w) (hf : Fits K w i r)
    (hs : r.status ≠ .empty)
    (hflash : ∀ f ∈ w.flash, ∀ j, (f.records j).status ≠ .empty →
      labels.Follows (f.records j).repair.receipt r.receipt)
    (hn : ∀ f ∈ w.flash, labels.Next (fun p => p ∈ w.sent ∨ Tells w.ram.journal.records p) r.receipt) :
    Agrees K
      { w with
        ram := (w.ram.setRecord i r).disable
        output := out
        sent := w.sent ++ [r.receipt] } := by
  have hset : Agrees K { w with ram := (w.ram.setRecord i r).disable, output := out } := by
    refine ⟨hf.told ht.ram, fun f hf' => ?_⟩
    refine ((ht.flash f hf').say (m := r.receipt) hf.known (hn f hf') fun j hj => ?_).weaken (fun _ h => h) fun p hp => ?_
    · exact hflash f hf' j (repair_status.mp hj)
    · rcases hp with hp | ⟨j, hj, hp⟩
      · exact .inl (.inl hp)
      · by_cases he : j = i
        case pos => exact .inr (by simpa [he] using hp)
        case neg =>
          rw [Executor.disable_journal, Executor.setRecord_other he] at hj hp
          exact .inl (.inr ⟨j, hj, hp⟩)
  simpa using hset.send (i := i) (by simpa using hs)

theorem EmitCut.agrees (h : Agrees K w) (hf : Fits K w i (w.stamped i state mono))
    (hc : EmitCut w i state mono t) : Agrees K t.lose := by
  refine ⟨(h.ram.weaken (fun _ h => h) fun _ hp => hc.sent ▸ hp).blank, fun f hflash => ?_⟩
  have told (p : Receipt) (hp : p ∈ t.lose.sent ∨ Tells t.lose.ram.journal.records p) : p ∈ w.sent :=
    hc.sent ▸ hp.resolve_right fun ⟨_, hi, _⟩ => hi rfl
  rcases hc.flash with he | he
  · exact (h.flash f (he ▸ hflash)).weaken (fun _ h => h) fun p hp => .inl (told p hp)
  · obtain rfl : (w.ram.setRecord i (w.stamped i state mono)).journal = f :=
      Option.some_inj.mp (he.symm.trans hflash)
    exact (hf.told h.ram).repaired.weaken (fun _ h => h) told

-- The slot of the command that is being performed, in memory and in flash.
structure Slot (K : Key → Prop) (c : Command) (i : Fin recordCount) (state : Status) (n : ℕ)
    (mono : UInt64) (w : World) : Prop extends Agrees K w where
  command : (w.ram.journal.records i).command = c
  status  : (w.ram.journal.records i).status = state
  seq     : (w.ram.journal.records i).seq.toNat = n
  mono    : (w.ram.journal.records i).monoMs = mono
  kept    : ∃ f ∈ w.flash, (f.records i).receipt = (w.ram.journal.records i).receipt

-- A command that has its record.
def Listed (K : Key → Prop) (c : Command) (i : Fin recordCount) (w : World) : Prop :=
  Agrees K w ∧ (w.ram.journal.records i).status ≠ .empty ∧ (w.ram.journal.records i).command = c

theorem Slot.listed {n : ℕ} (h : Slot K c i state n mono w) (hs : state ≠ .empty) : Listed K c i w :=
  ⟨h.toAgrees, h.status ▸ hs, h.command⟩

-- What `emit` stores becomes the state of the slot.
theorem Fits.slot (h : Agrees K w) (hf : Fits K w i (w.stamped i state mono)) (hs : state ≠ .empty) :
    Slot K (w.ram.journal.records i).command i state
      ((w.ram.journal.records i).seq + 1).toNat mono
      { w with
        ram := w.ram.setRecord i (w.stamped i state mono)
        flash := some (w.ram.setRecord i (w.stamped i state mono)).journal
        sent := w.sent ++ [(w.stamped i state mono).receipt] } where
  toAgrees := Agrees.stored h.ram hf hs
  command := by simp; rfl
  status := by simp; rfl
  seq := by simp; rfl
  mono := by simp; rfl
  kept := ⟨_, rfl, rfl⟩

-- An unhealthy executor has reported the command as unknown.
theorem emit_received {a : EmitAnswers} (hc : ¬K c.name) :
    Triple (fun w => Agrees K w ∧ w.ram.journal.records i = { Record.zero with command := c })
      (emit a i .received mono)
      (fun _ w => Listed (fun k => k = c.name ∨ K k) c i w ∧
        (w.ram.healthy → a.Stores ∧ Slot (fun k => k = c.name ∨ K k) c i .received 1 mono w))
      (Cut fun k => k = c.name ∨ K k) := by
  have fits (w : World) (h : Agrees K w) (hr : w.ram.journal.records i = { Record.zero with command := c })
      (st : Status) : Fits (fun k => k = c.name ∨ K k) w i
        { w.stamped i .received mono with status := st } := by
    have hcommand : (w.stamped i .received mono).command = c := by
      simp [World.stamped, Record.stamp, hr]
    have hseq : (w.stamped i .received mono).seq.toNat = 1 := by
      simp [World.stamped, Record.stamp, hr, Record.zero]
    refine .first h (by simpa [hcommand] using hc) ⟨fun _ => ?_, ?_⟩ (.inl (by simp [hcommand]))
    · simp [hseq]
    · simp [hseq]
  refine .adapt (fun _ => emit_triple) (fun w _ t ⟨h, hr⟩ he => ?_) fun w _ t ⟨h, hr⟩ hcut => ?_
  · have h' : Agrees (fun k => k = c.name ∨ K k) w := h.weaken fun _ => .inr
    cases he
    case stored hs =>
      have hslot := (fits w h hr .received).slot h' nofun
      rw [hr] at hslot
      exact ⟨hslot.listed nofun, fun _ => ⟨hs, hslot⟩⟩
    case failed =>
      have other (k : Key) (hk : K k) : k ≠ c.name := fun he => hc (he ▸ hk)
      have hkey : labels.key { w.stamped i .received mono with status := .unknown }.receipt = c.name := by
        simp [labels, Record.receipt, World.stamped, Record.stamp, hr, Command.name]
      refine ⟨⟨h'.unstored (fits w h hr .unknown) nofun (fun f hf j hj hk => ?_) fun f hf => ?_, ?_, ?_⟩,
        nofun⟩
      · exact absurd (hk.symm.trans hkey) (other _ ((h.flash f hf).known j (repair_status.mpr hj)))
      · exact .of_fresh fun p hp hk => other _ ((h.flash f hf).heard p hp) (hk.trans hkey)
      · simp
      · simp [World.stamped, Record.stamp, hr]
  · exact EmitCut.agrees (h.weaken fun _ => .inr) (fits w h hr .received) hcut

theorem emit_started {a : EmitAnswers} (ha : ¬a.Loses) :
    Triple (Slot K c i .received 1 mono) (emit a i .started mono)
      (fun _ w => Listed K c i w ∧ (w.ram.healthy → Slot K c i .started 2 mono w)) (Cut K) := by
  have fits (w : World) (h : Slot K c i .received 1 mono w) :
      Fits K w i (w.stamped i .started mono) := by
    have hseq : (w.stamped i .started mono).seq.toNat = 2 := by
      simp [World.stamped, Record.stamp, h.seq]
    refine .next_state h.toAgrees (by simp [h.status]) rfl (by simp [h.seq, hseq]) ⟨fun _ => ?_, ?_⟩ <;> omega
  refine .adapt (fun _ => emit_triple) (fun w _ t h he => ?_) fun w _ t h hcut => ?_
  · cases he
    case stored =>
      have hslot := (fits w h).slot h.toAgrees nofun
      rw [h.command, seq_succ (by simp [h.seq]), h.seq] at hslot
      exact ⟨hslot.listed nofun, fun _ => hslot⟩
    case failed hl _ => exact absurd hl ha
  · exact EmitCut.agrees h.toAgrees (fits w h) hcut

-- A boot reports a started command as a failed write of its result does.
theorem repair_started {r' : Record} (hr : r.receipt = r'.receipt) (hs : r'.status = .started) :
    r.repair.receipt = { r'.stamp e state r'.monoMs with status := .unknown }.receipt := by
  have hst : r.status = .started := (congrArg Receipt.status hr).trans hs
  simp only [Record.receipt, Receipt.mk.injEq] at hr
  simp [Record.repair, Record.receipt, Record.stamp, hst, hr]

theorem emit_final {a : EmitAnswers} (hs : state.final) :
    Triple (Slot K c i .started 2 mono) (emit a i state mono) (fun _ => Listed K c i) (Cut K) := by
  have fits (w : World) (h : Slot K c i .started 2 mono w) (st : Status) (hst : st.final) :
      Fits K w i { w.stamped i state mono with status := st } := by
    have hseq : (w.stamped i state mono).seq.toNat = 3 := by
      simp [World.stamped, Record.stamp, h.seq]
    refine .next_state h.toAgrees (by simp [h.status]) rfl (by simp [h.seq, hseq]) ⟨?_, by simp [hseq]⟩
    rintro (rfl | rfl) <;> simp [Status.final] at hst
  refine .adapt (fun _ => emit_triple) (fun w _ t h he => ?_) fun w _ t h hcut => ?_
  · cases he
    case stored =>
      have hslot := (fits w h state hs).slot h.toAgrees (by rintro rfl; simp [Status.final] at hs)
      rw [h.command] at hslot
      exact hslot.listed (by rintro rfl; simp [Status.final] at hs)
    case failed =>
      have ⟨f, hf, hk⟩ := h.kept
      have hsame : (f.records i).repair.receipt =
          { w.stamped i state mono with status := .unknown }.receipt := by
        simpa [h.mono, World.stamped] using repair_started hk h.status
      have hst : (f.records i).status = .started := (congrArg Receipt.status hk).trans h.status
      have hi : (f.records i).repair.status ≠ .empty := repair_status.mpr (by simp [hst])
      refine ⟨h.toAgrees.unstored (fits w h .unknown rfl) nofun (fun f' hf' j hj => ?_) fun f' hf' => ?_,
        ?_, ?_⟩
      · obtain rfl := Option.mem_unique hf hf'
        exact hsame ▸ (h.flash f hf).tell.next j (repair_status.mpr hj) _ (.inr ⟨i, hi, rfl⟩)
      · obtain rfl := Option.mem_unique hf hf'
        exact hsame ▸ (h.flash f hf).next i hi
      · simp
      · simp [World.stamped, Record.stamp, h.command]
  · exact EmitCut.agrees h.toAgrees (fits w h state hs) hcut

-- The effect of a command changes nothing that its receipts tell.
theorem Slot.same {n : ℕ} (h : Slot K c i state n mono w) (hs : t.sent = w.sent)
    (hf : t.flash = w.flash) (hj : t.ram.journal.records = w.ram.journal.records) :
    Slot K c i state n mono t where
  toAgrees := h.frame hs hf hj
  command := hj ▸ h.command
  status := hj ▸ h.status
  seq := hj ▸ h.seq
  mono := hj ▸ h.mono
  kept := hf ▸ hj ▸ h.kept

theorem act_slot {a : ExecuteAnswers} :
    Triple (Slot K c i .started 2 mono) (act a c mono now i) (fun _ => Slot K c i .started 2 mono)
      (Cut K) := by
  have observed (b : Bool) : Triple (Slot K c i .started 2 mono)
      (modifyRecord i fun r => { r with readback := b }) (fun _ => Slot K c i .started 2 mono)
      (Cut K) := by
    refine triple_modifyRecord fun w h => ?_
    have hr : { w.ram.journal.records i with readback := b }.receipt =
        (w.ram.journal.records i).receipt := by simp [Record.receipt, h.status]
    refine ⟨h.toAgrees.retouch hr, ?_, ?_, ?_, ?_, ?_⟩
    · simpa using h.command
    · simpa using h.status
    · simpa using h.seq
    · simpa using h.mono
    · simpa [hr] using h.kept
  have read {f : Bool → Exec Bool} (hf : ∀ b, Triple (Slot K c i .started 2 mono) (f b)
      (fun _ => Slot K c i .started 2 mono) (Cut K)) : Triple (Slot K c i .started 2 mono)
      (readLevel a.read >>= f) (fun _ => Slot K c i .started 2 mono) (Cut K) :=
    .bind (triple_readLevel (fun _ _ h => h) fun _ h => h.toAgrees.lose .refl) hf
  refine .ite (fun _ => ?_) fun _ => ?_
  · refine .bind triple_skipRam fun e => ?_
    refine .bind (Q := fun _ => Slot K c i .started 2 mono)
      (triple_modifyRam fun _ h => h.same rfl rfl rfl) fun _ => ?_
    refine .bind (Q := fun _ => Slot K c i .started 2 mono)
      (.modify fun _ h => h.same rfl rfl rfl) fun _ => ?_
    refine .bind (Q := fun _ => Slot K c i .started 2 mono) (quiet_keeps (fun _ => quiet_writeOutput)
      (fun _ _ h hq => h.same hq.sent hq.flash (congrArg _ hq.journal)) fun _ _ h => h.toAgrees.lose)
      fun _ => ?_
    refine .bind (Q := fun _ => Slot K c i .started 2 mono)
      (triple_modifyRam fun _ h => h.same rfl rfl rfl) fun _ => ?_
    exact read fun b => .bind (observed b) fun _ => .pure fun _ h => h
  · exact read fun b => .bind (observed b) fun _ => .pure fun _ h => h

theorem perform_agrees {a : ExecuteAnswers} (hc : ¬K c.name)
    (ha : a.received.Stores → ¬a.started.Loses) :
    Triple (Agrees K) (perform a c mono now i) (fun _ => Listed (fun k => k = c.name ∨ K k) c i)
      (Cut fun k => k = c.name ∨ K k) := by
  refine .bind (Q := fun _ w => Agrees K w ∧
    w.ram.journal.records i = { Record.zero with command := c }) (triple_modifyRecord ?_) fun _ => ?_
  · exact fun w h => ⟨h.take, by simp⟩
  refine .bind (emit_received hc) fun _ => .bind triple_readRam fun e => ?_
  refine .ite (fun _ => .pure fun _ h => h.left.left) fun hh => ?_
  refine .assume fun _ ⟨⟨_, h⟩, he⟩ => ?_
  have ⟨hs, hslot⟩ := h (by simpa [he] using hh)
  refine .bind ((emit_started (ha hs)).conseq (fun _ h => h ▸ hslot) (fun _ _ h => h) fun _ _ h => h)
    fun _ => .bind triple_readRam fun e => ?_
  refine .ite (fun _ => .pure fun _ h => h.left.left) fun hh => ?_
  refine .bind (act_slot.conseq (fun w ⟨⟨_, h⟩, he⟩ => h (by simpa [he] using hh)) (fun _ _ h => h)
    fun _ _ h => h) fun ok => ?_
  refine .bind (emit_final (by cases ok <;> rfl)) fun _ => ?_
  exact .bind triple_skipRam fun _ => .pure fun _ h => h

theorem query_isSome {id : String} (hs : (e.journal.records i).status ≠ .empty)
    (hi : (e.journal.records i).command.id = id) : (e.query id).isSome := by
  by_contra h
  exact e.query_none (by simpa using h) i hs hi

-- A command without a record after `vx_execute` was refused, which leaves the world alone.
theorem execute_agrees {a : ExecuteAnswers} (hw : Agrees K w)
    (hc : w.ram.query c.id = none → ¬K c.name)
    (ha : w.Performs c mono → a.received.Stores → ¬a.started.Loses) :
    Triple (· = w) (execute a c mono)
      (fun _ t => (t.ram.query c.id).isSome ∧ Agrees (fun k => k = c.name ∨ K k) t ∨
        t = w ∧ w.ram.query c.id = none)
      (Cut fun k => k = c.name ∨ K k) := by
  have hw' : Agrees (fun k => k = c.name ∨ K k) w := hw.weaken fun _ => .inr
  refine .bind (Q := fun e t => e = w.ram ∧ t = w) (triple_ram ?_) fun e => .assume fun t ⟨he, ht⟩ => ?_
  · rintro _ rfl
    exact ⟨rfl, rfl⟩
  subst he ht
  split
  case h_1 prior hq =>
    have hsome : (t.ram.query c.id).isSome := by simp [hq]
    refine .ite (fun _ => .pure ?_) fun _ => ?_
    · rintro _ rfl
      exact .inl ⟨hsome, hw'⟩
    have ⟨i, hr, hs, _⟩ := t.ram.query_some hq
    refine .bind (Q := fun _ u => (u.ram.query c.id).isSome ∧ Agrees (fun k => k = c.name ∨ K k) u)
      (triple_receipt ?_ ?_) fun _ => .pure fun _ h => .inl h
    · rintro _ _ rfl
      exact ⟨hsome, hr ▸ hw'.send (hr ▸ hs)⟩
    · rintro _ rfl
      exact hw'.lose .refl
  case h_2 hq =>
    split
    case h_1 => exact .pure fun _ h => .inr ⟨h, hq⟩
    case h_2 hr =>
      split
      case h_1 => exact .pure fun _ h => .inr ⟨h, hq⟩
      case h_2 i hi =>
        refine (perform_agrees (hc hq) (ha ⟨hq, hr, by simp [hi]⟩)).conseq (fun _ h => h ▸ hw) ?_
          fun _ _ h => h
        exact fun _ u ⟨h, hs, hcommand⟩ => .inl ⟨query_isSome hs (congrArg _ hcommand), h⟩

theorem Agrees.rejected (h : Agrees K w) (hc : ¬K c.name) (later : UInt64) :
    Agrees (fun k => k = c.name ∨ K k)
      { w with sent := w.sent ++ [Record.receipt
        { Record.zero with command := c, status := .rejected, seq := 1, monoMs := later }] } := by
  have h' : Agrees (fun k => k = c.name ∨ K k) w := h.weaken fun _ => .inr
  let m := Record.receipt
    { Record.zero with command := c, status := .rejected, seq := 1, monoMs := later }
  have hm : labels.key m = c.name := rfl
  have other (k : Key) (hk : K k) : k ≠ c.name := fun he => hc (he ▸ hk)
  refine ⟨?_, fun f hf => ?_⟩
  · refine (h'.ram.say (m := m) (.inl hm) (.of_fresh fun p hp hk => ?_) fun i hi hk => ?_).weaken
      (fun _ h => h) fun p hp => ?_
    · exact other _ (h.ram.heard p hp) (hk.trans hm)
    · exact absurd (hk.symm.trans hm) (other _ (h.ram.known i hi))
    · exact (List.mem_append.mp hp).imp id List.mem_singleton.mp
  · refine ((h'.flash f hf).say (m := m) (.inl hm) (.of_fresh fun p hp hk => ?_) fun i hi hk => ?_).weaken
      (fun _ h => h) fun p hp => ?_
    · exact other _ ((h.flash f hf).heard p hp) (hk.trans hm)
    · exact absurd (hk.symm.trans hm) (other _ ((h.flash f hf).known i hi))
    · exact hp.elim (fun hp => (List.mem_append.mp hp).imp .inl List.mem_singleton.mp)
        fun hp => .inl (.inr hp)

theorem handleCommand_agrees {a : ExecuteAnswers} {cut : Bool} {later : UInt64} (hw : Agrees K w)
    (hc : w.ram.query c.id = none → ¬K c.name)
    (ha : w.Performs c mono → a.received.Stores → ¬a.started.Loses) :
    Triple (· = w) (handleCommand a cut c mono later)
      (fun _ => Agrees fun k => k = c.name ∨ K k) (Cut fun k => k = c.name ∨ K k) := by
  have hw' : Agrees (fun k => k = c.name ∨ K k) w := hw.weaken fun _ => .inr
  refine .bind (execute_agrees hw hc ha) fun failure => .bind triple_readRam fun e => ?_
  refine .ite (fun hf => triple_receipt (fun _ t ht => ?_) fun t ht => ?_) fun _ => .pure fun t ht => ?_
  · rcases ht with ⟨⟨hs, _⟩ | ⟨rfl, hq⟩, rfl⟩
    · simp [Option.isSome_iff_ne_none.mp hs] at hf
    · exact hw.rejected (hc hq) later
  · exact ht.left.elim (fun h => h.right.lose .refl) fun h => h.left ▸ hw'.lose .refl
  · exact ht.left.elim And.right fun h => h.left ▸ hw'

theorem Call.agrees (call : Call) (hcall : call.delivers = []) :
    Triple (Agrees K) call.run (fun _ => Agrees K) (Cut K) := by
  cases call
  case arm        => exact .map (quiet_agrees fun _ => arm_quiet)
  case stop       => exact quiet_agrees fun _ => stop_quiet
  case disconnect => exact quiet_agrees fun _ => disconnect_quiet
  case session    => exact .map session_agrees
  case command    => exact absurd hcall (List.cons_ne_nil _ _)
  case query      => exact handleQuery_agrees
  case cancel     => exact handleCancel_agrees
  case ack        => exact ack_agrees
  case tick       => exact quiet_agrees fun _ => tick_quiet

-- The commands delivered so far are the ones the receipts are about.
def State.Agrees (s : State) : Prop :=
  Firmware.Agrees (fun k => k ∈ s.delivered.map Command.name) s.world

-- A performed command whose STARTED record cannot be written does not get to report that; and a
-- command that has no record (any more) was never delivered before.
def State.AnswersOnce (s : State) : Op → Prop
  | .call (.command a _ c mono _) =>
    ¬(s.world.Performs c mono ∧ a.received.Stores ∧ a.started.Loses) ∧
    (s.world.ram.query c.id = none → ∀ d ∈ s.delivered, d.id = c.id → d.digest ≠ c.digest)
  | _ => True

theorem boot?_told {flash : Option Journal} {authority device boot : String} {caps hold : UInt32}
    (h : Executor.boot? flash authority device boot caps hold = some e) (hb : Told K said fun _ => .zero)
    (hf : ∀ f ∈ flash, Told K said fun i => (f.records i).repair) : Told K said e.journal.records := by
  simp only [Executor.boot?] at h
  split at h <;> cases h
  cases hflash : flash
  case none   => exact hb.repaired
  case some f => exact hf f hflash

theorem step_agrees (h : s.Agrees) (hk : s.AnswersOnce op) (hs : system.step s op s') : s'.Agrees := by
  obtain ⟨ha, rfl⟩ := hs
  cases op
  case powerLoss => exact h.lose .refl
  case boot a authority device boot caps hold =>
    rcases boot_cases s a authority device boot caps hold with ⟨e, he, _, h'⟩ | ⟨t, hd, h'⟩
    · have told : Told (fun k => k ∈ s.delivered.map Command.name) (· ∈ s.world.sent)
          e.journal.records :=
        boot?_told he h.ram.blank fun f hf => (h.flash f hf).weaken (fun _ h => h) fun _ => .inl
      exact h' ▸ ⟨told, fun f hf => Option.mem_some.mp hf ▸ told.tell.repaired⟩
    · exact h' ▸ h.lose hd
  case call call =>
    have triple : Triple (· = s.world) call.run
        (fun _ => Firmware.Agrees fun k => k ∈ (call.delivers ++ s.delivered).map Command.name)
        (Cut fun k => k ∈ (call.delivers ++ s.delivered).map Command.name) := by
      cases call
      case command a cut c mono later =>
        have fresh (hq : s.world.ram.query c.id = none) : c.name ∉ s.delivered.map Command.name := by
          intro hmem
          have ⟨d, hd, hn⟩ := List.mem_map.mp hmem
          exact hk.right hq d hd (congrArg Prod.fst hn) (congrArg Prod.snd hn)
        exact (handleCommand_agrees h fresh fun hp hr hl => hk.left ⟨hp, hr, hl⟩).conseq
          (fun _ h => h) (fun _ _ h => h.weaken (by simp [Call.delivers]))
          fun _ _ h => Firmware.Agrees.weaken h (by simp [Call.delivers])
      all_goals
        exact (Call.agrees _ rfl).conseq (fun _ he => he ▸ h) (fun _ _ h => h) fun _ _ h => h
    rcases call_cases s call with ⟨t, hr, h'⟩ | ⟨t, hr, h'⟩
    · exact h' ▸ triple.ok rfl hr
    · exact h' ▸ triple.error rfl hr

theorem State.initial_agrees : State.initial.Agrees where
  ram :=
    { agree := by simp [Labels.Agree, initial]
      next := fun _ hi => absurd rfl hi
      distinct := fun _ _ hi => absurd rfl hi
      bounded := fun _ hi => absurd rfl hi
      known := fun _ hi => absurd rfl hi
      heard := by simp [initial] }
  flash := by simp [initial]

theorem reachable_agrees (h : (system.restrict State.AnswersOnce).Reachable s) : s.Agrees := by
  refine h.invariant (I := State.Agrees) ?_ ?_
  · rintro _ rfl
    exact State.initial_agrees
  · intro t op _ ht ⟨hk, hs⟩
    exact step_agrees ht hk hs

-- Two receipts of one number about one command are the same receipt, whatever failed or lost power in between.
theorem receipts_agree (h : (system.restrict State.AnswersOnce).Reachable s) :
    ∀ p ∈ s.world.sent, ∀ q ∈ s.world.sent, p.commandId = q.commandId → p.commandDigest = q.commandDigest →
      p.receiptSeq = q.receiptSeq → p = q := by
  intro p hp q hq hid hdigest hseq
  have hkey : labels.key p = labels.key q := Prod.ext hid hdigest
  have hnum : labels.num p = labels.num q := congrArg UInt64.toNat hseq
  exact (reachable_agrees h).ram.agree p q hp hq hkey hnum

instance (s : State) : DecidablePred s.AnswersOnce
  | .call (.command a _ c mono _) =>
    inferInstanceAs (Decidable (¬(s.world.Performs c mono ∧ a.received.Stores ∧ a.started.Loses) ∧
      (s.world.ram.query c.id = none → ∀ d ∈ s.delivered, d.id = c.id → d.digest ≠ c.digest)))
  | .call (.arm _) | .call (.stop _) | .call (.disconnect _) | .call (.session ..) | .call (.query ..)
  | .call (.cancel ..) | .call (.ack ..) | .call (.tick ..) | .boot .. | .powerLoss =>
    inferInstanceAs (Decidable True)

-- The last receipt of a command is asked for after a loss of power.
def recalled : List Op :=
  started ++ [deliver highCommand 0, .powerLoss, .boot {} "A" "D" "b2" 7 500, .call (.query false "x")]

theorem receipts_agree_recalled : (State.initial.run recalled).world.sent.map (·.receiptSeq) = [1, 2, 3, 3] ∧
    ∀ p ∈ (State.initial.run recalled).world.sent, ∀ q ∈ (State.initial.run recalled).world.sent,
      p.commandId = q.commandId → p.commandDigest = q.commandDigest → p.receiptSeq = q.receiptSeq → p = q :=
  ⟨by decide +kernel, receipts_agree (run_restricted (.init rfl) recalled (by decide +kernel))⟩

end Firmware
