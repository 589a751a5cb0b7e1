import Mathlib.Data.List.Induction
import Mathlib.Order.Basic
import Mathlib.Order.Lattice.Nat

-- session-realtime/src/cdc.ts and conversation-recovery.ts: the store of a session's authoritative snapshot
namespace SessionRealtime

-- The numbers of an object. One that is missing is `undefined` or `null`.
structure Numbers where
  transcriptRevision : Option ℕ
  contextEpoch       : Option ℕ
  latestSeq          : Option ℕ
  latest_seq         : Option ℕ

-- A snapshot as the server sends it, with the objects that may carry its numbers. `content` is the rest of it.
structure RawSnapshot (κ : Type) where
  root       : Numbers
  projection : Numbers
  snapshot   : Numbers
  sessionId  : Option String
  session_id : Option String
  content    : κ

structure TranscriptIdentity where
  transcriptRevision : ℕ
  contextEpoch       : ℕ
  deriving DecidableEq

structure Snapshot (κ : Type) where
  identity  : TranscriptIdentity
  sessionId : Option String
  latestSeq : ℕ
  content   : κ

structure EventData where
  topic              : Option String
  contextEpoch       : Option ℕ
  context_epoch      : Option ℕ
  transcriptRevision : Option ℕ

structure RuntimeEvent extends EventData where
  name       : Option String
  data       : Option EventData
  payload    : Option EventData
  seq        : Option ℕ
  visibility : String

structure Store (κ : Type) where
  snapshot                : Option (Snapshot κ)
  latestSeq               : ℕ
  lastSnapshotFingerprint : String
  lastRuntimeEvent        : Option RuntimeEvent
  unreadProgressHint      : Bool

inductive Disposition
  | apply
  | ignore
  | refresh
  deriving DecidableEq

-- What the store is given: a snapshot, if it is an object at all, or an event
inductive Input (κ : Type)
  | snapshot (raw : Option (RawSnapshot κ))
  | event (event : RuntimeEvent)

variable {κ : Type}

namespace RawSnapshot

variable (raw : RawSnapshot κ)

-- `readTranscriptIdentity`
def identity : TranscriptIdentity where
  transcriptRevision := ((raw.root.transcriptRevision <|> raw.projection.transcriptRevision) <|>
    raw.snapshot.transcriptRevision).getD 0
  contextEpoch       := ((raw.root.contextEpoch <|> raw.projection.contextEpoch) <|> raw.snapshot.contextEpoch).getD 0

def session : Option String :=
  raw.sessionId <|> raw.session_id

-- `Number(root.latestSeq || root.latest_seq || asRecord(root.snapshot).latest_seq || 0) || 0`
def seq : ℕ :=
  let truthy (n : Option ℕ) : Option ℕ := n.filter (· ≠ 0)
  ((truthy raw.root.latestSeq <|> truthy raw.root.latest_seq) <|> truthy raw.snapshot.latest_seq).getD 0

end RawSnapshot

-- `coerceAuthoritativeSessionSnapshot`
def coerceAuthoritativeSessionSnapshot (raw : Option (RawSnapshot κ)) : Option (Snapshot κ) :=
  raw.map fun raw => ⟨raw.identity, raw.session, raw.seq, raw.content⟩

def isStaleTranscript (current incoming : TranscriptIdentity) : Bool :=
  incoming.contextEpoch < current.contextEpoch || incoming.transcriptRevision < current.transcriptRevision

-- `event.contextEpoch ?? event.context_epoch ?? data.contextEpoch ?? data.context_epoch`
def RuntimeEvent.epoch (event : RuntimeEvent) : Option ℕ :=
  let data := event.data <|> event.payload
  ((event.contextEpoch <|> event.context_epoch) <|> data.bind (·.contextEpoch)) <|> data.bind (·.context_epoch)

def conversationEventDisposition (current : TranscriptIdentity) (event : RuntimeEvent) : Disposition :=
  let data := event.data <|> event.payload
  let topic := ((event.topic <|> data.bind (·.topic)) <|> event.name).getD ""
  let revision := (event.transcriptRevision <|> data.bind (·.transcriptRevision)).getD 0
  if 0 < current.contextEpoch ∧ event.epoch = none then .ignore
  else if event.epoch.any (· < current.contextEpoch) then .ignore
  else if topic = "session.branch.created" ∨ topic = "session_branch_created" then .refresh
  else if topic = "message.revised" ∨ topic = "message_revised" then
    if revision ≤ current.transcriptRevision then .ignore else .refresh
  else if event.epoch.any (current.contextEpoch < ·) then .refresh
  else .apply

namespace Store

def initial : Store κ where
  snapshot                := none
  latestSeq               := 0
  lastSnapshotFingerprint := ""
  lastRuntimeEvent        := none
  unreadProgressHint      := false

variable (state : Store κ)

-- `readTranscriptIdentity(state.snapshot)`
def identity : TranscriptIdentity :=
  (state.snapshot.map (·.identity)).getD ⟨0, 0⟩

-- The store holds a newer snapshot of the same session.
def rejects (incoming : Snapshot κ) : Bool :=
  state.snapshot.any fun held =>
    held.sessionId = incoming.sessionId && isStaleTranscript held.identity incoming.identity

variable (fingerprint : Snapshot κ → String)

def applySnapshotToSessionRealtimeState (raw : Option (RawSnapshot κ)) : Store κ :=
  match coerceAuthoritativeSessionSnapshot raw with
  | none          => state
  | some incoming =>
    if state.rejects incoming then state
    else { state with
      snapshot                := some incoming
      latestSeq               := max state.latestSeq incoming.latestSeq
      lastSnapshotFingerprint := fingerprint incoming
      unreadProgressHint      := false }

def applyRuntimeEventToSessionRealtimeState (event : RuntimeEvent) : Store κ :=
  let disposition := conversationEventDisposition state.identity event
  if disposition = .ignore then state
  else { state with
    latestSeq          := max state.latestSeq (event.seq.getD 0)
    lastRuntimeEvent   := some event
    unreadProgressHint :=
      if disposition = .refresh ∨ event.visibility = "visible" then true else state.unreadProgressHint }

def apply : Input κ → Store κ
  | .snapshot raw => state.applySnapshotToSessionRealtimeState fingerprint raw
  | .event event  => state.applyRuntimeEventToSessionRealtimeState event

-- The inputs one after the other
def applyAll (inputs : List (Input κ)) : Store κ :=
  inputs.foldl (apply · fingerprint) state

-- The sequence number of an input that is not dropped
def accepted? : Input κ → Option ℕ
  | .snapshot raw =>
    ((coerceAuthoritativeSessionSnapshot raw).filter fun incoming => !state.rejects incoming).map (·.latestSeq)
  | .event event  =>
    if conversationEventDisposition state.identity event = .ignore then none else some (event.seq.getD 0)

-- The sequence numbers of the inputs that were not dropped
def acceptedSeqs : Store κ → List (Input κ) → List ℕ
  | _, []                  => []
  | state, input :: inputs => (state.accepted? input).toList ++ acceptedSeqs (state.apply fingerprint input) inputs

end Store
end SessionRealtime

-- What the store holds after snapshots and events in any order
namespace SessionRealtime

variable {κ : Type} {fingerprint : Snapshot κ → String} {state : Store κ} {inputs : List (Input κ)} {input : Input κ}
  {session : Option String}

-- `(contextEpoch, transcriptRevision)`, which are compared componentwise
def TranscriptIdentity.pair (identity : TranscriptIdentity) : ℕ × ℕ :=
  (identity.contextEpoch, identity.transcriptRevision)

-- The snapshots among the inputs
def snapshots (inputs : List (Input κ)) : List (RawSnapshot κ) :=
  inputs.filterMap fun
    | .snapshot raw => raw
    | .event _      => none

-- The inputs of one session. The pairs that its server sends only grow.
structure OfSession (session : Option String) (inputs : List (Input κ)) : Prop where
  session    : ∀ raw ∈ snapshots inputs, raw.session = session
  comparable : ∀ raw ∈ snapshots inputs, ∀ raw' ∈ snapshots inputs,
    raw.identity.pair ≤ raw'.identity.pair ∨ raw'.identity.pair ≤ raw.identity.pair

-- The snapshot that is held has the greatest pair.
structure HoldsLatest (session : Option String) (inputs : List (Input κ)) (held : Snapshot κ) : Prop where
  session  : held.sessionId = session
  applied  : ∃ raw ∈ snapshots inputs, raw.identity = held.identity
  greatest : ∀ raw ∈ snapshots inputs, raw.identity.pair ≤ held.identity.pair

theorem snapshots_concat : snapshots (inputs ++ [input]) = snapshots inputs ++ snapshots [input] :=
  List.filterMap_append

theorem OfSession.init (h : OfSession session (inputs ++ [input])) : OfSession session inputs where
  session raw hraw := by
    apply h.session
    rw [snapshots_concat]
    exact List.mem_append_left _ hraw
  comparable raw hraw raw' hraw' := by
    apply h.comparable
    all_goals rw [snapshots_concat]
    · exact List.mem_append_left _ hraw
    · exact List.mem_append_left _ hraw'

theorem isStale_iff {current incoming : TranscriptIdentity} :
    isStaleTranscript current incoming ↔ ¬current.pair ≤ incoming.pair := by
  simp [isStaleTranscript, TranscriptIdentity.pair, Prod.le_def]
  omega

theorem applyAll_concat : state.applyAll fingerprint (inputs ++ [input]) =
    (state.applyAll fingerprint inputs).apply fingerprint input := by
  simp [Store.applyAll]

theorem identity_of_coerce {raw : Option (RawSnapshot κ)} {incoming : Snapshot κ}
    (h : coerceAuthoritativeSessionSnapshot raw = some incoming) :
    ∃ raw', raw = some raw' ∧ incoming.identity = raw'.identity ∧ incoming.sessionId = raw'.session ∧
      incoming.latestSeq = raw'.seq := by
  cases raw
  case none      => cases h
  case some raw' => cases h; exact ⟨raw', rfl, rfl, rfl, rfl⟩

-- The store drops an input.
structure Dropped (fingerprint : Snapshot κ → String) (state : Store κ) (input : Input κ) : Prop where
  same     : state.apply fingerprint input = state
  accepted : state.accepted? input = none
  stale    : ∀ raw ∈ snapshots [input], ∃ held, state.snapshot = some held ∧ held.sessionId = raw.session ∧
    isStaleTranscript held.identity raw.identity

-- The store takes an input in.
structure Taken (fingerprint : Snapshot κ → String) (state : Store κ) (input : Input κ) (seq : ℕ) : Prop where
  accepted : state.accepted? input = some seq
  latest   : (state.apply fingerprint input).latestSeq = max state.latestSeq seq
  snapshot : (snapshots [input] = [] ∧ (state.apply fingerprint input).snapshot = state.snapshot) ∨
    ∃ raw incoming, snapshots [input] = [raw] ∧ incoming.identity = raw.identity ∧ incoming.sessionId = raw.session ∧
      incoming.latestSeq = seq ∧ state.rejects incoming = false ∧
      (state.apply fingerprint input).snapshot = some incoming

theorem dropped_or_taken (fingerprint : Snapshot κ → String) (state : Store κ) (input : Input κ) :
    Dropped fingerprint state input ∨ ∃ seq, Taken fingerprint state input seq := by
  cases input
  case event event =>
    by_cases hd : conversationEventDisposition state.identity event = .ignore
    case pos =>
      apply Or.inl
      constructor
      all_goals simp [Store.apply, Store.applyRuntimeEventToSessionRealtimeState, Store.accepted?, hd, snapshots]
    case neg =>
      refine Or.inr ⟨event.seq.getD 0, ?_⟩
      constructor
      all_goals simp [Store.apply, Store.applyRuntimeEventToSessionRealtimeState, Store.accepted?, hd, snapshots]
  case snapshot raw =>
    cases raw
    case none =>
      apply Or.inl
      constructor
      all_goals simp [Store.apply, Store.applySnapshotToSessionRealtimeState, Store.accepted?,
        coerceAuthoritativeSessionSnapshot, snapshots]
    case some raw =>
      cases hr : state.rejects ⟨raw.identity, raw.session, raw.seq, raw.content⟩
      case true =>
        apply Or.inl
        constructor
        case stale =>
          intro raw' hraw'
          cases List.mem_singleton.mp hraw'
          obtain ⟨held, hheld, hstale⟩ := (Option.any_eq_true _ _).mp hr
          have hstale := Bool.and_eq_true_iff.mp hstale
          exact ⟨held, hheld, of_decide_eq_true hstale.left, hstale.right⟩
        all_goals simp [Store.apply, Store.applySnapshotToSessionRealtimeState, Store.accepted?,
          coerceAuthoritativeSessionSnapshot, hr]
      case false =>
        refine Or.inr ⟨raw.seq, ?_⟩
        constructor
        case snapshot =>
          refine Or.inr ⟨raw, _, rfl, rfl, rfl, rfl, hr, ?_⟩
          simp [Store.apply, Store.applySnapshotToSessionRealtimeState, coerceAuthoritativeSessionSnapshot, hr]
        all_goals simp [Store.apply, Store.applySnapshotToSessionRealtimeState, Store.accepted?,
          coerceAuthoritativeSessionSnapshot, hr]

-- What is known of the store after the inputs of a session
structure Tracks (session : Option String) (inputs : List (Input κ)) (state : Store κ) : Prop where
  empty : state.snapshot = none → snapshots inputs = []
  holds : ∀ held, state.snapshot = some held → HoldsLatest session inputs held

theorem HoldsLatest.mono {held : Snapshot κ} (h : HoldsLatest session inputs held)
    (hs : ∀ raw ∈ snapshots [input], raw.identity.pair ≤ held.identity.pair) :
    HoldsLatest session (inputs ++ [input]) held := by
  obtain ⟨raw, hraw, heq⟩ := h.applied
  apply HoldsLatest.mk h.session
  case applied  => exact ⟨raw, by rw [snapshots_concat]; exact List.mem_append_left _ hraw, heq⟩
  case greatest =>
    intro raw hraw
    rw [snapshots_concat] at hraw
    cases List.mem_append.mp hraw
    case inl hraw => exact h.greatest raw hraw
    case inr hraw => exact hs raw hraw

theorem tracks_apply (hs : OfSession session (inputs ++ [input])) (h : Tracks session inputs state) :
    Tracks session (inputs ++ [input]) (state.apply fingerprint input) := by
  have hmem : ∀ raw ∈ snapshots [input], raw ∈ snapshots (inputs ++ [input]) := by
    intro raw hraw
    rw [snapshots_concat]
    exact List.mem_append_right _ hraw
  cases dropped_or_taken fingerprint state input
  case inl hd =>
    rw [hd.same]
    constructor
    case empty =>
      intro hnone
      rw [snapshots_concat, h.empty hnone]
      apply List.eq_nil_iff_forall_not_mem.mpr
      intro raw hraw
      obtain ⟨held, hheld, _⟩ := hd.stale raw hraw
      rw [hnone] at hheld
      cases hheld
    case holds =>
      intro held hheld
      apply (h.holds held hheld).mono
      intro raw hraw
      obtain ⟨held', hheld', _, hstale⟩ := hd.stale raw hraw
      cases hheld.symm.trans hheld'
      obtain ⟨raw', hraw', heq⟩ := (h.holds held hheld).applied
      have hmem' : raw' ∈ snapshots (inputs ++ [input]) := by
        rw [snapshots_concat]
        exact List.mem_append_left _ hraw'
      cases hs.comparable raw (hmem raw hraw) raw' hmem'
      case inl hle => rwa [heq] at hle
      case inr hle => rw [heq] at hle; exact absurd hle (isStale_iff.mp hstale)
  case inr ht =>
    obtain ⟨seq, ht⟩ := ht
    cases ht.snapshot
    case inl hsame =>
      obtain ⟨hnil, hsame⟩ := hsame
      constructor
      case empty =>
        intro hnone
        rw [snapshots_concat, hnil, h.empty (hsame ▸ hnone)]
        rfl
      case holds =>
        intro held hheld
        apply (h.holds held (hsame ▸ hheld)).mono
        intro raw hraw
        rw [hnil] at hraw
        cases hraw
    case inr hnew =>
      obtain ⟨raw, incoming, hraw, hidentity, hsession, _, hrejects, hnew⟩ := hnew
      have hself : raw ∈ snapshots (inputs ++ [input]) := hmem raw (hraw ▸ List.mem_singleton_self raw)
      constructor
      case empty =>
        intro hnone
        rw [hnew] at hnone
        cases hnone
      case holds =>
        intro held hheld
        cases hnew.symm.trans hheld
        apply HoldsLatest.mk
        case session => rw [hsession]; exact hs.session raw hself
        case applied => exact ⟨raw, hself, hidentity.symm⟩
        case greatest =>
          intro raw' hraw'
          rw [snapshots_concat] at hraw'
          cases List.mem_append.mp hraw'
          case inr hraw' =>
            rw [hraw] at hraw'
            cases List.mem_singleton.mp hraw'
            rw [hidentity]
          case inl hraw' =>
            cases hheld : state.snapshot
            case none => rw [h.empty hheld] at hraw'; cases hraw'
            case some held =>
              have hlatest := h.holds held hheld
              apply (hlatest.greatest raw' hraw').trans
              have hsame : held.sessionId = incoming.sessionId := by
                rw [hlatest.session, hsession, hs.session raw hself]
              simpa [Store.rejects, hheld, hsame, ← Bool.not_eq_true, isStale_iff] using hrejects

theorem tracks_applyAll (fingerprint : Snapshot κ → String) (hs : OfSession session inputs) :
    Tracks session inputs (Store.initial.applyAll fingerprint inputs) := by
  induction inputs using List.reverseRecOn
  case nil => exact ⟨fun _ => rfl, fun _ h => by cases h⟩
  case append_singleton inputs input hi =>
    rw [applyAll_concat]
    exact tracks_apply hs (hi hs.init)

theorem acceptedSeqs_concat : state.acceptedSeqs fingerprint (inputs ++ [input]) =
    state.acceptedSeqs fingerprint inputs ++ ((state.applyAll fingerprint inputs).accepted? input).toList := by
  induction inputs generalizing state
  case nil => simp [Store.acceptedSeqs, Store.applyAll]
  case cons head inputs hi => simp [Store.acceptedSeqs, hi, Store.applyAll]

theorem latestSeq_applyAll : (Store.initial.applyAll fingerprint inputs).latestSeq =
    (Store.initial.acceptedSeqs fingerprint inputs).foldl max 0 := by
  induction inputs using List.reverseRecOn
  case nil => rfl
  case append_singleton inputs input hi =>
    rw [applyAll_concat, acceptedSeqs_concat, List.foldl_append, ← hi]
    cases dropped_or_taken fingerprint (Store.initial.applyAll fingerprint inputs) input
    case inl hd => rw [hd.same, hd.accepted]; rfl
    case inr ht =>
      obtain ⟨seq, ht⟩ := ht
      rw [ht.latest, ht.accepted]
      rfl

-- The identity of what the store holds before and after an input
def Forward (before after : Store κ) : Prop :=
  before.latestSeq ≤ after.latestSeq ∧
  ∀ held, before.snapshot = some held → ∃ held', after.snapshot = some held' ∧ held.identity.pair ≤ held'.identity.pair

theorem latestSeq_le_apply : state.latestSeq ≤ (state.apply fingerprint input).latestSeq := by
  cases dropped_or_taken fingerprint state input
  case inl hd => rw [hd.same]
  case inr ht =>
    obtain ⟨seq, ht⟩ := ht
    rw [ht.latest]
    exact le_max_left _ _

theorem forward_apply (hs : OfSession session (inputs ++ [input])) :
    Forward (Store.initial.applyAll fingerprint inputs)
      ((Store.initial.applyAll fingerprint inputs).apply fingerprint input) := by
  refine ⟨latestSeq_le_apply, fun held hheld => ?_⟩
  obtain ⟨raw, hraw, heq⟩ := ((tracks_applyAll fingerprint hs.init).holds held hheld).applied
  have ht := tracks_applyAll fingerprint hs
  rw [applyAll_concat] at ht
  have hmem : raw ∈ snapshots (inputs ++ [input]) := by
    rw [snapshots_concat]
    exact List.mem_append_left _ hraw
  cases hafter : ((Store.initial.applyAll fingerprint inputs).apply fingerprint input).snapshot
  case none => rw [ht.empty hafter] at hmem; cases hmem
  case some held' => exact ⟨held', rfl, heq ▸ (ht.holds held' hafter).greatest raw hmem⟩

-- An event of an epoch before that of the snapshot held
theorem apply_of_older {event : RuntimeEvent} {epoch : ℕ} {held : Snapshot κ} (hheld : state.snapshot = some held)
    (he : event.epoch = some epoch) (hlt : epoch < held.identity.contextEpoch) :
    state.apply fingerprint (.event event) = state := by
  have hd : conversationEventDisposition state.identity event = .ignore := by
    simp [conversationEventDisposition, Store.identity, hheld, he, hlt]
  simp [Store.apply, Store.applyRuntimeEventToSessionRealtimeState, hd]

-- What the store promises of a session
structure Lawful (fingerprint : Snapshot κ → String) (session : Option String) (inputs : List (Input κ)) : Prop where
  held    : snapshots inputs ≠ [] →
    ∃ held, (Store.initial.applyAll fingerprint inputs).snapshot = some held ∧ HoldsLatest session inputs held
  forward : ∀ before input after, inputs = before ++ input :: after →
    Forward (Store.initial.applyAll fingerprint before)
      ((Store.initial.applyAll fingerprint before).apply fingerprint input)
  latest  : (Store.initial.applyAll fingerprint inputs).latestSeq =
    (Store.initial.acceptedSeqs fingerprint inputs).foldl max 0
  older   : ∀ event epoch held, (Store.initial.applyAll fingerprint inputs).snapshot = some held →
    event.epoch = some epoch → epoch < held.identity.contextEpoch →
    (Store.initial.applyAll fingerprint inputs).apply fingerprint (.event event) =
      Store.initial.applyAll fingerprint inputs

theorem OfSession.init_append {after : List (Input κ)} (h : OfSession session (inputs ++ after)) :
    OfSession session inputs := by
  induction after using List.reverseRecOn
  case nil => rwa [List.append_nil] at h
  case append_singleton after input hi => exact hi (List.append_assoc inputs after [input] ▸ h).init

theorem lawful_of_session (hs : OfSession session inputs) : Lawful fingerprint session inputs where
  held hne := by
    have ht := tracks_applyAll fingerprint hs
    cases hheld : (Store.initial.applyAll fingerprint inputs).snapshot
    case none      => exact absurd (ht.empty hheld) hne
    case some held => exact ⟨held, rfl, ht.holds held hheld⟩
  forward before input after heq := by
    have hsplit : inputs = before ++ [input] ++ after := by simp [heq]
    exact forward_apply (hsplit ▸ hs).init_append
  latest := latestSeq_applyAll
  older _ _ _ hheld he hlt := apply_of_older hheld he hlt

-- The store of a session is lawful. The first snapshot of another session makes `latestSeq` that of the other session
-- exactly if it is not less than what the first session left.
theorem latestSeq_of_other_session_iff (hs : OfSession session inputs) :
    Lawful fingerprint session inputs ∧ ∀ raw : RawSnapshot κ, raw.session ≠ session →
      (((Store.initial.applyAll fingerprint inputs).apply fingerprint (.snapshot (some raw))).latestSeq = raw.seq ↔
        (Store.initial.applyAll fingerprint inputs).latestSeq ≤ raw.seq) := by
  refine ⟨lawful_of_session hs, fun raw hraw => ?_⟩
  have hr : (Store.initial.applyAll fingerprint inputs).rejects ⟨raw.identity, raw.session, raw.seq, raw.content⟩ =
      false := by
    cases hheld : (Store.initial.applyAll fingerprint inputs).snapshot
    case none => simp [Store.rejects, hheld]
    case some held =>
      have hsession := ((tracks_applyAll fingerprint hs).holds held hheld).session
      simp [Store.rejects, hheld, hsession, Ne.symm hraw]
  simp [Store.apply, Store.applySnapshotToSessionRealtimeState, coerceAuthoritativeSessionSnapshot, hr]

section Sample

def sampleNumbers (transcriptRevision latestSeq : ℕ) : Numbers where
  transcriptRevision := some transcriptRevision
  contextEpoch       := some 1
  latestSeq          := some latestSeq
  latest_seq         := none

def noNumbers : Numbers where
  transcriptRevision := none
  contextEpoch       := none
  latestSeq          := none
  latest_seq         := none

def sampleSnapshot (session : String) (transcriptRevision latestSeq : ℕ) : RawSnapshot Unit where
  root       := sampleNumbers transcriptRevision latestSeq
  projection := noNumbers
  snapshot   := noNumbers
  sessionId  := some session
  session_id := none
  content    := ()

-- Two snapshots of a session, the older one last
def sampleInputs : List (Input Unit) :=
  [.snapshot (some (sampleSnapshot "a" 2 5)), .snapshot (some (sampleSnapshot "a" 1 3))]

theorem sampleInputs_ofSession : OfSession (some "a") sampleInputs := by
  have hs : snapshots sampleInputs = [sampleSnapshot "a" 2 5, sampleSnapshot "a" 1 3] := rfl
  constructor
  all_goals simp [hs, sampleSnapshot, RawSnapshot.session, RawSnapshot.identity, sampleNumbers, noNumbers,
    TranscriptIdentity.pair]

theorem latestSeq_of_other_session_iff_sample : Lawful (fun _ => "") (some "a") sampleInputs ∧
    ∀ raw : RawSnapshot Unit, raw.session ≠ some "a" →
      (((Store.initial.applyAll (fun _ => "") sampleInputs).apply (fun _ => "") (.snapshot (some raw))).latestSeq =
        raw.seq ↔ (Store.initial.applyAll (fun _ => "") sampleInputs).latestSeq ≤ raw.seq) :=
  latestSeq_of_other_session_iff sampleInputs_ofSession

-- The sequence number of session `a` stays when a snapshot of session `b` has replaced it.
theorem latestSeq_left_over : ¬∀ (session : Option String) (inputs : List (Input Unit)) (raw : RawSnapshot Unit),
    OfSession session inputs → raw.session ≠ session →
    ((Store.initial.applyAll (fun _ => "") inputs).apply (fun _ => "") (.snapshot (some raw))).latestSeq = raw.seq := by
  intro h
  exact absurd (h (some "a") sampleInputs (sampleSnapshot "b" 0 1) sampleInputs_ofSession (by decide)) (by decide)

end Sample
end SessionRealtime
