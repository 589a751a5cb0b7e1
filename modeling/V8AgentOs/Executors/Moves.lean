import V8AgentOs.Executors.Service
import V8AgentOs.Lib.Rows
import V8AgentOs.Lib.Triple

-- How a transaction moves the rows of the commands.
namespace Executors

open Python Hoare

namespace State

-- The stages that a command passes; the last ones are final.
def stage : State → ℕ
  | authorized     => 0
  | queued         => 1
  | sent           => 2
  | received       => 3
  | started        => 4
  | unknownOutcome => 5
  | _              => 6

def settled (s : State) : Bool :=
  s.terminal && s ≠ .unknownOutcome

def unsent (s : State) : Bool :=
  s = .authorized || s = .queued

-- A state is kept or moves to a later stage.
def Moves (s t : State) : Prop :=
  s = t ∨ s.stage < t.stage

variable {s t u : State}

theorem Moves.refl : Moves s s := .inl rfl

theorem Moves.trans (h₁ : Moves s t) (h₂ : Moves t u) : Moves s u := by
  rcases h₁ with rfl | h₁ <;> rcases h₂ with rfl | h₂
  · exact .inl rfl
  · exact .inr h₂
  · exact .inr h₁
  · exact .inr (h₁.trans h₂)

theorem stage_settled : s.settled ↔ s.stage = 6 := by
  cases s <;> decide

theorem Moves.settled (h : Moves s t) (hs : s.settled) : t = s := by
  rcases h with rfl | h
  · rfl
  · have : t.stage ≤ 6 := by cases t <;> decide
    have := stage_settled.mp hs
    omega

theorem Moves.terminal (h : Moves s t) (hs : s.terminal) : t.terminal := by
  have hst : 5 ≤ s.stage := by cases s <;> first | decide | simp [State.terminal] at hs
  have htt : 5 ≤ t.stage := by
    rcases h with rfl | h <;> omega
  cases t <;> first | rfl | simp [stage] at htt

theorem Moves.unsent (h : Moves s t) (ht : t.unsent) : s.unsent := by
  have htt : t.stage ≤ 1 := by cases t <;> first | decide | simp [State.unsent] at ht
  have hst : s.stage ≤ 1 := by
    rcases h with rfl | h <;> omega
  cases s <;> first | rfl | simp [stage] at hst

theorem unsent_busy (h : s.unsent) : s.terminal = false := by
  cases s <;> first | rfl | simp [State.unsent] at h

end State

-- What every transaction keeps of a row.
structure Row.Moves (r r' : Row) : Prop where
  commandId  : r'.commandId = r.commandId
  deviceId   : r'.deviceId = r.deviceId
  ownerId    : r'.ownerId = r.ownerId
  body       : r'.body = r.body
  state      : r.state.Moves r'.state
  seq        : r.receiptSeq ≤ r'.receiptSeq
  reconciled : r.reconciled → r'.reconciled

theorem Row.Moves.refl (r : Row) : r.Moves r :=
  ⟨rfl, rfl, rfl, rfl, .refl, le_refl _, id⟩

theorem Row.Moves.trans (r₁ r₂ r₃ : Row) (h₁ : r₁.Moves r₂) (h₂ : r₂.Moves r₃) : r₁.Moves r₃ where
  commandId := h₂.commandId.trans h₁.commandId
  deviceId := h₂.deviceId.trans h₁.deviceId
  ownerId := h₂.ownerId.trans h₁.ownerId
  body := h₂.body.trans h₁.body
  state := h₁.state.trans h₂.state
  seq := h₁.seq.trans h₂.seq
  reconciled h := h₂.reconciled (h₁.reconciled h)

variable {α β : Type} {P : Ledger → Prop} {Q : α → Ledger → Prop} {x : Tx α} {db db' : Ledger}
  {host : Host} {device owner key : String} {epoch : ℤ}

-- A failed transaction is rolled back, so nothing is asked of its end.
theorem triple_checked {P : Session → Prop} {Q : α → Session → Prop} {c : Checked α}
    (h : ∀ a, c = .ok a → ∀ s, P s → Q a s) : Triple P (checked c) Q fun _ _ => True := by
  cases c
  case ok a    => exact .pure (h a rfl)
  case error e => exact .throw fun _ _ => trivial

theorem triple_require {P : Session → Prop} {Q : Unit → Session → Prop} {c : Bool} {code : String}
    {status : ℕ} (h : c = true → ∀ s, P s → Q () s) :
    Triple P (checked (require c code status)) Q fun _ _ => True := by
  refine triple_checked fun _ ho => h ?_
  by_contra hc
  simp [require, hc] at ho

-- Triples over the ledger alone.
def Does (P : Ledger → Prop) (x : Tx α) (Q : α → Ledger → Prop) : Prop :=
  Triple (fun s => P s.db) x (fun a s => Q a s.db) fun _ _ => True

namespace Does

variable {f : α → Tx β} {R : β → Ledger → Prop} {a : α} {P' : Ledger → Prop}
  {Q' : α → Ledger → Prop}

theorem bind (hx : Does P x Q) (hf : ∀ a, Does (Q a) (f a) R) : Does P (x >>= f) R :=
  Triple.bind hx hf

theorem pure (h : ∀ db, P db → Q a db) : Does P (pure a) Q :=
  Triple.pure fun s => h s.db

theorem throw {e : Failure} : Does P (throw e) Q :=
  Triple.throw fun _ _ => trivial

theorem ite {c : Prop} [Decidable c] {y : Tx α} (hx : c → Does P x Q) (hy : ¬c → Does P y Q) :
    Does P (if c then x else y) Q :=
  Triple.ite hx hy

theorem conseq (h : Does P x Q) (hp : ∀ db, P' db → P db) (hq : ∀ a db, Q a db → Q' a db) :
    Does P' x Q' :=
  Triple.conseq h (fun s => hp s.db) (fun a s => hq a s.db) fun _ _ h => h

theorem assume (h : ∀ db, P db → Does (· = db) x Q) : Does P x Q :=
  Triple.assume fun s hs => Triple.conseq (h s.db hs) (fun _ ht => ht ▸ rfl) (fun _ _ h => h) fun _ _ h => h

theorem checked {c : Checked α} (h : ∀ a, c = .ok a → ∀ db, P db → Q a db) : Does P (checked c) Q :=
  triple_checked fun a ho s => h a ho s.db

theorem require {c : Bool} {code : String} {status : ℕ} {Q : Unit → Ledger → Prop}
    (h : c = true → ∀ db, P db → Q () db) : Does P (Executors.checked (require c code status)) Q :=
  triple_require fun hc s => h hc s.db

-- What was checked holds in the rest of the program.
theorem value {c : Checked β} {g : β → Tx α} (h : ∀ b, c = .ok b → Does P (g b) Q) :
    Does P (Executors.checked c >>= g) Q := by
  cases c
  case ok b    => exact h b rfl
  case error e => exact throw

theorem guard {c : Bool} {code : String} {status : ℕ} {g : Unit → Tx α} (h : c = true → Does P (g ()) Q) :
    Does P (Executors.checked (Executors.require c code status) >>= g) Q := by
  refine value fun _ ho => h ?_
  by_contra hc
  simp [Executors.require, hc] at ho

theorem now {Q : ℤ → Ledger → Prop} (h : ∀ t db, P db → Q t db) : Does P now Q :=
  Triple.intro fun s hs => h _ s.db hs

theorem ledger {Q : Ledger → Ledger → Prop} (h : ∀ db, P db → Q db db) : Does P ledger Q :=
  Triple.intro fun s hs => h s.db hs

theorem update {f : Ledger → Ledger} {Q : Unit → Ledger → Prop} (h : ∀ db, P db → Q () (f db)) :
    Does P (update f) Q :=
  Triple.intro fun s hs => h s.db hs

end Does

-- A program that only reads the ledger.
def Reads (x : Tx α) : Prop :=
  ∀ P : Ledger → Prop, Does P x fun _ => P

namespace Reads

theorem bind {f : α → Tx β} (hx : Reads x) (hf : ∀ a, Reads (f a)) : Reads (x >>= f) :=
  fun P => .bind (hx P) fun a => hf a P

theorem pure (a : α) : Reads (pure a : Tx α) :=
  fun _ => .pure fun _ h => h

theorem throw (e : Failure) : Reads (throw e : Tx α) :=
  fun _ => .throw

theorem checked (c : Checked α) : Reads (checked c) :=
  fun _ => .checked fun _ _ _ h => h

theorem now : Reads now :=
  fun _ => .now fun _ _ h => h

theorem ledger : Reads ledger :=
  fun _ => .ledger fun _ h => h

theorem inCase {c : Bool} {x : Tx Unit} (h : Reads x) : Reads (inCase c x) :=
  fun P => .ite (fun _ => h P) fun _ => pure () P

theorem orEmpty {value : Json} : Reads (orEmpty value) :=
  fun P => .ite (fun _ => checked _ P) fun _ => pure [] P

end Reads

-- The identity is looked up without a reading of the clock.
theorem identity_still {owner : Option String} (P : Session → Prop) :
    Triple P (identity host device owner) (fun _ => P) fun _ _ => True := by
  have required {c code status} : Triple P (checked (require c code status)) (fun _ => P) fun _ _ => True :=
    triple_require fun _ _ h => h
  refine .bind (Q := fun _ => P) (.intro fun _ h => h) fun db => ?_
  split
  case h_1 => exact .throw fun _ _ => trivial
  case h_2 =>
    refine .bind required fun _ => .bind required fun _ => .bind ?_ fun _ => .pure fun _ h => h
    exact .ite (fun _ => required) fun _ => .pure fun _ h => h

theorem identity_reads {owner : Option String} : Reads (identity host device owner) :=
  fun _ => identity_still _

theorem connection_reads : Reads (connection device) :=
  .bind .ledger fun _ => .pure _

theorem current_reads : Reads (current host device epoch) :=
  .bind identity_reads fun _ => .bind connection_reads fun _ => .bind .now fun _ =>
    .bind (.checked _) fun _ => .pure _

theorem command_reads : Reads (command host owner key) := by
  refine .bind .ledger fun db => ?_
  split
  case h_1 => exact .throw _
  case h_2 => exact .bind (.checked _) fun _ => .pure _

theorem validateFrame_reads {observation : Dict} {accepted : Bool} :
    Reads (validateFrame host key observation accepted) := by
  refine .bind .orEmpty fun frame => .bind (.checked _) fun media => .bind .ledger fun db => ?_
  split
  case h_1 => exact .throw _
  case h_2 =>
    refine .bind (.checked _) fun _ => .bind .now fun _ => .bind (.checked _) fun _ => ?_
    refine .bind (.checked _) fun _ => .bind (.checked _) fun _ => .bind (.checked _) fun _ => ?_
    exact .bind (.checked _) fun _ => .pure _

theorem currentCommand_reads {commandDigest : String} :
    Reads (currentCommand host device key commandDigest) := by
  refine .bind .ledger fun db => ?_
  split
  case h_1 => exact .throw _
  case h_2 =>
    refine .bind (.checked _) fun _ => .bind .now fun _ => .bind (.checked _) fun _ => ?_
    refine .bind current_reads fun _ => .bind (.checked _) fun _ => ?_
    split
    case h_1 => exact .throw _
    case h_2 => exact .bind (.checked _) fun _ => .checked _

section Observation

variable {h : Hello} {precondition observation : Dict} {gesture : Bool}

theorem anchored_reads {r : Row} :
    Reads (anchored host device h precondition gesture r observation) := by
  refine .bind .now fun _ => .bind (.checked _) fun _ => .bind .now fun _ => ?_
  refine .bind (.checked _) fun _ => .bind (.checked _) fun _ => .bind (.checked _) fun _ => ?_
  split
  case isFalse => exact .pure _
  case isTrue  =>
    refine .bind (.checked _) fun _ => .bind .orEmpty fun _ => .bind (.checked _) fun _ => ?_
    exact .bind validateFrame_reads fun _ => .bind connection_reads fun _ => .checked _

theorem searchObservation_reads (rows : List Row) :
    Reads (searchObservation host device h precondition gesture rows) := by
  induction rows
  case nil          => exact .throw _
  case cons r rs hi =>
    refine .bind .orEmpty fun observation => ?_
    simp only []
    split
    case isTrue  => exact .throw _
    case isFalse =>
      split
      case isTrue  => exact anchored_reads
      case isFalse => exact hi

theorem observationCurrent_reads : Reads (observationCurrent host device h precondition gesture) :=
  .bind .ledger fun _ => searchObservation_reads _

end Observation

-- Command identifiers are a primary key.
def Ledger.Unique (db : Ledger) : Prop :=
  (db.commands.map Row.commandId).Nodup

theorem Ledger.Unique.of_kept (hu : db.Unique) (h : Rows.Kept Row.Moves db.commands db'.commands) :
    db'.Unique := by
  unfold Ledger.Unique
  rw [h.column fun _ _ h => h.commandId]
  exact hu

-- What every transaction keeps that does not insert a command or a receipt.
structure Kept (db db' : Ledger) : Prop where
  commands : Rows.Kept Row.Moves db.commands db'.commands
  receipts : db'.receipts = db.receipts

namespace Kept

variable {r : Row} {p : Row → Bool} {f : Row → Row} {db'' : Ledger}

theorem refl (db : Ledger) : Kept db db :=
  ⟨.refl .refl _, rfl⟩

theorem trans (h₁ : Kept db db') (h₂ : Kept db' db'') : Kept db db'' :=
  ⟨h₁.commands.trans .trans h₂.commands, h₂.receipts.trans h₁.receipts⟩

theorem unique (h : Kept db db') (hu : db.Unique) : db'.Unique :=
  hu.of_kept h.commands

theorem of_same (h : Kept db db') (hc : db''.commands = db'.commands)
    (hr : db''.receipts = db'.receipts) : Kept db db'' :=
  ⟨hc ▸ h.commands, hr.trans h.receipts⟩

theorem updateCommands (h : Kept db db') (hf : ∀ r ∈ db'.commands, p r → r.Moves (f r)) :
    Kept db (db'.updateCommands p f) := by
  refine h.trans ⟨.map fun r hr => ?_, rfl⟩
  split
  case isTrue hp => exact hf r hr hp
  case isFalse   => exact .refl r

end Kept

theorem Ledger.Unique.eq {r r' : Row} (hu : db.Unique) (hr : r ∈ db.commands) (hr' : r' ∈ db.commands)
    (he : r'.commandId = r.commandId) : r' = r :=
  List.inj_on_of_nodup_map hu hr' hr he

-- An update of the row that was read.
theorem Kept.updateOne {r : Row} {f : Row → Row} (hu : db.Unique) (h : Kept db db')
    (hr : r ∈ db'.commands) (hm : r.Moves (f r)) :
    Kept db (db'.updateCommands (isCommand r.commandId) f) := by
  refine h.updateCommands fun r' hr' hp => ?_
  have he : r'.commandId = r.commandId := of_decide_eq_true hp
  exact (h.unique hu).eq hr hr' he ▸ hm

theorem updateConnection_kept {f : Connection → Connection} :
    Does (Kept db) (updateConnection device f) fun _ => Kept db :=
  Does.update fun _ h => h.of_same rfl rfl

-- A command that is looked up is a row of the ledger.
theorem does_command : Does P (command host owner key) fun r db' =>
    P db' ∧ r ∈ db'.commands ∧ r.commandId = key := by
  refine .bind (.ledger (Q := fun db db' => P db' ∧ db = db') fun _ h => ⟨h, rfl⟩) fun db => ?_
  split
  case h_1 => exact .throw
  case h_2 r hr =>
    have hid : r.commandId = key := by
      have := List.find?_some hr
      simp only [isCommand, Bool.and_eq_true, decide_eq_true_eq] at this
      exact this.left
    refine .bind (Reads.checked _ _) fun _ => .pure ?_
    rintro _ ⟨h, rfl⟩
    exact ⟨h, List.mem_of_find?_eq_some hr, hid⟩

theorem State.Moves.later {s t : State} (h : s.stage < t.stage) : s.Moves t := .inr h

theorem uncertain_kept {reason : String} :
    Does (Kept db) (uncertain device reason) fun _ => Kept db := by
  refine .bind (.now fun _ _ h => h) fun t => .bind (.update (Q := fun _ => Kept db) ?_) fun _ =>
    .bind (.now fun _ _ h => h) fun t' => .update ?_
  · refine fun db' h => h.updateCommands fun r _ hp => ?_
    simp only [Bool.and_eq_true, Bool.or_eq_true, decide_eq_true_eq] at hp
    refine ⟨rfl, rfl, rfl, rfl, .later ?_, le_refl _, id⟩
    rcases hp.right with h | h <;> simp [h, State.stage]
  · refine fun db' h => h.updateCommands fun r _ hp => ?_
    simp only [Bool.and_eq_true, Bool.or_eq_true, decide_eq_true_eq] at hp
    refine ⟨rfl, rfl, rfl, rfl, .later ?_, le_refl _, id⟩
    rcases hp.right with (h | h) | h <;> simp [h, State.stage]

theorem grant_kept {expected allowed : Json} :
    Does (Kept db) (grant host owner device expected allowed) fun _ => Kept db := by
  refine .bind (Reads.checked _ _) fun _ => .bind (identity_reads _) fun _ => ?_
  refine .bind (Reads.checked _ _) fun _ => .bind (connection_reads _) fun _ => ?_
  exact .bind (Reads.checked _ _) fun _ => .bind updateConnection_kept fun _ => uncertain_kept

theorem revokeIdentity_kept :
    Does (Kept db) (revokeIdentity host owner device) fun _ => Kept db := by
  refine .bind (Reads.ledger _) fun _ => ?_
  split
  case h_1 => exact .throw
  case h_2 => exact .bind (Reads.checked _ _) fun _ => .update fun _ h => h.of_same rfl rfl

theorem revoke_kept : Does (Kept db) (revoke device) fun _ => Kept db :=
  .bind updateConnection_kept fun _ => uncertain_kept

theorem hello_kept {principal : Identity} {payload : Dict} :
    Does (Kept db) (hello host principal payload) fun _ => Kept db := by
  refine .bind (Reads.checked _ _) fun _ => .bind (Reads.checked _ _) fun _ => ?_
  refine .bind (Reads.checked _ _) fun _ => .bind (Reads.checked _ _) fun _ => ?_
  refine .bind (Reads.checked _ _) fun _ => .bind (Reads.checked _ _) fun _ => ?_
  refine .bind (Reads.checked _ _) fun _ => .bind (Reads.checked _ _) fun _ => ?_
  refine .bind (identity_reads _) fun _ => .bind (connection_reads _) fun _ => ?_
  refine .bind uncertain_kept fun _ => .bind (Reads.now _) fun _ => ?_
  exact .bind updateConnection_kept fun _ => .pure fun _ h => h

theorem renew_kept : Does (Kept db) (renew host device epoch) fun _ => Kept db :=
  .bind (current_reads _) fun _ => .bind (Reads.now _) fun _ => updateConnection_kept

theorem disconnect_kept : Does (Kept db) (disconnect device epoch) fun _ => Kept db :=
  .bind (connection_reads _) fun _ => .ite
    (fun _ => .bind updateConnection_kept fun _ => uncertain_kept) fun _ => .pure fun _ h => h

-- One command is looked up and rewritten.
theorem updateOne_kept {r : Row} {f : Row → Row} (hu : db.Unique) (hm : r.Moves (f r)) :
    Does (fun db' => Kept db db' ∧ r ∈ db'.commands ∧ r.commandId = key)
      (updateCommands (isCommand key) f) fun _ => Kept db :=
  .update fun _ ⟨h, hr, he⟩ => he ▸ h.updateOne hu hr hm

theorem activate_kept (hu : db.Unique) :
    Does (Kept db) (activate host owner key) fun _ => Kept db := by
  refine .bind does_command fun r => .ite (fun hs => ?_) fun _ => .pure fun _ h => h.left
  refine .bind (Reads.now _) fun t => updateOne_kept hu ⟨rfl, rfl, rfl, rfl, .later ?_, le_refl _, id⟩
  simp [hs, State.stage]

theorem cancel_kept (hu : db.Unique) : Does (Kept db) (cancel host owner key) fun _ => Kept db := by
  refine .bind does_command fun r => .bind (Reads.now _) fun t => updateOne_kept hu ?_
  refine ⟨rfl, rfl, rfl, rfl, ?_, le_refl _, id⟩
  simp only []
  split
  case isTrue hs =>
    refine .later ?_
    simp only [Bool.or_eq_true, decide_eq_true_eq] at hs
    rcases hs with h | h <;> simp [h, State.stage]
  case isFalse => exact .refl

theorem reconcile_kept (hu : db.Unique) {note : Json} :
    Does (Kept db) (reconcile host owner key note) fun _ => Kept db := by
  unfold reconcile
  split
  case h_2 => exact .throw
  case h_1 =>
    refine .bind (Reads.checked _ _) fun _ => .bind does_command fun r => ?_
    refine .bind (Reads.checked _ _) fun _ => .bind (Reads.now _) fun _ => ?_
    refine .bind (Reads.checked _ _) fun _ => updateOne_kept hu ?_
    exact ⟨rfl, rfl, rfl, rfl, .refl, le_refl _, fun _ => rfl⟩

theorem status_kept (hu : db.Unique) : Does (Kept db) (status host owner key) fun _ => Kept db := by
  refine .bind does_command fun r => .bind (Reads.now _) fun t => .ite (fun hs => ?_) fun _ => ?_
  · refine .bind (Reads.now _) fun t => .bind (updateOne_kept hu ?_) fun _ => command_reads _
    refine ⟨rfl, rfl, rfl, rfl, .later ?_, le_refl _, id⟩
    simp only [Bool.and_eq_true, Bool.not_eq_true', decide_eq_true_eq] at hs
    have hbusy := hs.left
    cases hst : r.state <;> simp [hst, State.terminal] at hbusy <;> simp [State.stage]
  · exact .pure fun _ h => h.left

-- The pending commands of a list are still pending, or expired by now.
def Expirable (rows : List Row) (db : Ledger) : Prop :=
  ∀ r ∈ rows, ∀ r' ∈ db.commands, r'.commandId = r.commandId → r'.state.unsent ∨ r'.state = .expired

theorem State.moves_expired {s : State} (h : s.unsent ∨ s = .expired) : s.Moves .expired := by
  rcases h with h | rfl
  · simp only [State.unsent, Bool.or_eq_true, decide_eq_true_eq] at h
    rcases h with rfl | rfl <;> exact .later (by decide)
  · exact .refl

theorem expirePending_kept (rows : List Row) :
    Does (fun db' => Kept db db' ∧ Expirable rows db') (expirePending rows) fun _ => Kept db := by
  induction rows
  case nil          => exact .pure fun _ h => h.left
  case cons r rs hi =>
    refine .bind (Reads.now _) fun t => .bind (Q := fun _ db' => Kept db db' ∧ Expirable rs db') ?_
      fun _ => hi
    have rest (db' : Ledger) (h : Expirable (r :: rs) db') : Expirable rs db' :=
      fun r' hr' => h r' (List.mem_cons_of_mem _ hr')
    refine .ite (fun _ => .bind (Reads.now _) fun t => .update ?_) fun _ =>
      .pure fun db' h => ⟨h.left, rest db' h.right⟩
    rintro db' ⟨h, he⟩
    refine ⟨h.updateCommands fun r' hr' hp => ?_, fun a ha b hb hab => ?_⟩
    · have hid : r'.commandId = r.commandId := of_decide_eq_true hp
      exact ⟨rfl, rfl, rfl, rfl, State.moves_expired (he r List.mem_cons_self r' hr' hid), le_refl _, id⟩
    · obtain ⟨c, hc, rfl⟩ := List.mem_map.mp hb
      by_cases hp : isCommand r.commandId c
      case pos => exact .inr (by simp [hp])
      case neg =>
        rw [if_neg hp] at hab ⊢
        exact rest db' he a ha c hc hab

-- What holds of the other commands when a command of a device is inserted.
structure Admitted (a : Action) (device : String) (db : Ledger) : Prop where
  idle  : ∀ r ∈ db.commands, r.deviceId = device → r.state.terminal
  clear : a.capability ∈ mutating → ∀ r ∈ db.commands, r.deviceId = device →
    r.state = .unknownOutcome → r.reconciled

-- The session of the device, at the end of `admission`.
structure Opened (device : String) (c : Connection) (h : Hello) (db : Ledger) : Prop where
  connection : db.connections device = c
  hello      : c.hello = some h

theorem connection_eq : Does P (connection device) fun c db => P db ∧ db.connections device = c := by
  refine .bind (.ledger (Q := fun db db' => P db' ∧ db = db') fun _ h => ⟨h, rfl⟩) fun _ => .pure ?_
  rintro _ ⟨h, rfl⟩
  exact ⟨h, rfl⟩

theorem ledger_eq : Does P ledger fun db db' => P db' ∧ db = db' :=
  .ledger fun _ h => ⟨h, rfl⟩

theorem inCase_reads {c : Bool} {x : Tx Unit} {Q : Unit → Ledger → Prop} (h : c = true → Does P x Q)
    (hn : c = false → ∀ db, P db → Q () db) : Does P (inCase c x) Q :=
  .ite h fun hc => .pure (hn (by simpa using hc))

theorem admission_kept {a : Action} (hu : db.Unique) :
    Does (· = db) (admission host device a) fun r db' =>
      Kept db db' ∧ Admitted a device db' ∧ Opened device r.1 r.2 db' := by
  refine .bind ledger_eq fun db₀ => .assume fun db' ⟨h, he⟩ => ?_
  subst h he
  refine .bind (Q := fun _ => Kept db₀) ((expirePending_kept _).conseq ?_ fun _ _ h => h) fun _ => ?_
  · rintro _ rfl
    refine ⟨.refl _, fun r hr r' hr' he => .inl ?_⟩
    have ⟨hr, hs⟩ := List.mem_filter.mp hr
    obtain rfl := hu.eq hr hr' he
    simp only [Bool.and_eq_true] at hs
    exact hs.right
  refine .bind connection_eq fun c => .bind (current_reads _) fun _ => ?_
  split
  case h_1 => exact .throw
  case h_2 h hh =>
    refine .bind (Reads.checked _ _) fun _ => .bind ((Reads.checked _).inCase _) fun _ => ?_
    refine .bind ledger_eq fun db₁ => .assume fun db' ⟨⟨hk, hc⟩, he⟩ => ?_
    subst he
    refine .bind (Q := fun _ db' => db₁ = db' ∧ ∀ r ∈ db₁.commands, r.deviceId = device → r.state.terminal)
      (.require fun hi _ h => ⟨h.symm, fun r hr hd => ?_⟩) fun _ => ?_
    · simp only [Bool.not_eq_true', List.any_eq_false, Bool.and_eq_true, Bool.not_eq_true',
        decide_eq_true_eq, not_and, Bool.not_eq_false] at hi
      exact hi r hr hd
    refine .bind (Q := fun _ db' => db₁ = db' ∧ Admitted a device db₁) (inCase_reads ?_ ?_) fun _ => ?_
    · refine fun hm => .require fun hi _ h => ⟨h.left, h.right, fun _ r hr hd hs => ?_⟩
      simp only [Bool.not_eq_true', List.any_eq_false, Bool.and_eq_true, Bool.not_eq_true',
        decide_eq_true_eq, not_and, Bool.not_eq_false] at hi
      exact hi r hr ⟨hd, hs⟩
    · exact fun hm _ h => ⟨h.left, h.right, fun hmem => by simp_all⟩
    refine .bind (Reads.inCase (.bind (.checked _) fun _ => observationCurrent_reads) _) fun _ => ?_
    refine .pure ?_
    rintro _ ⟨rfl, ha⟩
    exact ⟨hk, ha, hc, hh⟩

-- A command was inserted after the others were kept.
structure Created (db db' : Ledger) (db₁ : Ledger) (row : Row) : Prop where
  kept     : Kept db db₁
  commands : db'.commands = db₁.commands ++ [row]
  receipts : db'.receipts = db.receipts
  body     : row.body.commandId = row.commandId
  fresh    : ∀ r ∈ db₁.commands, r.commandId ≠ row.commandId
  idle     : ∀ r ∈ db₁.commands, r.deviceId = row.deviceId → r.state.terminal
  clear    : row.body.capability ∈ mutating → ∀ r ∈ db₁.commands, r.deviceId = row.deviceId →
    r.state = .unknownOutcome → r.reconciled
  state    : row.state = .authorized

theorem create_does {sha256 : List Char → String}
    {commandId capability resource arguments precondition ttlMs trace : Json} (hu : db.Unique) :
    Does (· = db)
      (create sha256 host owner device commandId capability resource arguments precondition ttlMs trace)
      fun _ db' => Kept db db' ∨ ∃ db₁ row, Created db db' db₁ row := by
  refine .bind (Reads.checked _ _) fun id => .bind (Reads.checked _ _) fun a => ?_
  refine .bind (Reads.checked _ _) fun ttl => .bind (Reads.checked _ _) fun trace => ?_
  refine .bind (Reads.checked _ _) fun _ => .bind (identity_reads _) fun _ => ?_
  refine .bind ledger_eq fun db₀ => .assume fun db' ⟨h, he⟩ => ?_
  subst h he
  split
  case h_1 => exact .bind (Reads.checked _ _) fun _ => .pure fun _ h => .inl (h ▸ .refl _)
  case h_2 hnone =>
    refine .bind (admission_kept hu) fun (c, h) => .bind (Reads.now _) fun t => ?_
    refine .bind (.update (Q := fun _ db' => ∃ db₁ row, Created db₀ db' db₁ row) ?_) fun _ =>
      .pure fun _ h => .inr h
    rintro db₁ ⟨hk, ha, _⟩
    refine ⟨db₁, _, hk, rfl, hk.receipts, rfl, fun r hr he => ?_, ha.idle, ha.clear, rfl⟩
    -- The identifier was not there before, and no row changes its own.
    have ⟨r₀, hr₀, hm⟩ := Rows.Kept.mem_left hk.commands hr
    have := List.find?_eq_none.mp hnone r₀ hr₀
    exact this (decide_eq_true (hm.commandId.symm.trans he))

end Executors
