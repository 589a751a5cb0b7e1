import V8AgentOs.Relay.Alters

-- What the receiver of a mailbox has seen of it
namespace Relay.Inbox

open Runs (Time)

def Request.page : Request → Page
  | .scanning page    => page
  | .reporting page _ => page

variable {s t u : State} {e : Event} {es : List Event} {H H' : List ℕ} {r r' item : Record} {page : Page}
  {items : List Record} {ids : List String} {id : String} {n k pid now c index : ℕ} {handled : Option ℕ}

-- The receiver has recorded the message as one that cannot be handled.
def DeadLettered (s : State) (n : ℕ) : Prop :=
  ∃ d ∈ s.deadLetters, d.direction = "inbound" ∧ d.metadata = [("cursor", .str (toString n))]

-- `H` are the messages that were handled.
def Done (H : List ℕ) (s : State) (n : ℕ) : Prop :=
  n ∈ H ∨ DeadLettered s n

-- The message has expired, and the room has reported that.
def Expired (s : State) (n : ℕ) : Prop :=
  (∃ r, s.room.msg n = some r ∧ r.state = .expired) ∧ ∃ r ∈ s.room.reported, r.cursor = n

-- The receiver does not need the message any more.
def Gone (H : List ℕ) (s : State) (n : ℕ) : Prop :=
  Done H s n ∨ Expired s n

-- The room does not deliver the message any more.
def Closed (s : State) (n : ℕ) : Prop :=
  ∃ r, s.room.msg n = some r ∧ (r.state = .acked ∨ r.expiresAt ≤ s.clock)

def AckOk (H : List ℕ) (s : State) (id : String) : Prop :=
  ∃ n, s.room.msgid id = some n ∧ Done H s n

-- The items that a loop has collected after a cursor
structure Scanned (H : List ℕ) (s : State) (c index : ℕ) (items : List Record) : Prop where
  sorted : items.Pairwise (·.cursor < ·.cursor)
  range  : ∀ r ∈ items, c < r.cursor ∧ r.cursor < index ∧ s.room.msgid r.relayMessageId = some r.cursor
  gap    : ∀ k, c < k → k < index → k ∈ items.map (·.cursor) ∨ Gone H s k ∧ Closed s k

-- A record is reported after it was made to expire.
structure RequestOk (H : List ℕ) (s : State) (q : Request) : Prop where
  seq       : q.page.seq ≤ s.room.seq
  start     : q.page.cursor < q.page.index
  scanned   : Scanned H s q.page.cursor q.page.index q.page.items
  reporting : ∀ page record, q = .reporting page record → record.cursor = page.index ∧ Closed s page.index ∧
    ∃ r, s.room.msg page.index = some r ∧ (r.state = .expired ∨ Done H s page.index)

-- The items that the receiver has still to handle
structure ItemsOk (H : List ℕ) (s : State) (items : List Record) : Prop where
  sorted : items.Pairwise (·.cursor < ·.cursor)
  range  : ∀ r ∈ items, s.cursor < r.cursor ∧ s.room.msgid r.relayMessageId = some r.cursor
  gap    : ∀ k, s.cursor < k → (∃ r ∈ items, k < r.cursor) → k ∈ items.map (·.cursor) ∨ Gone H s k ∧ Closed s k
  done   : ∀ n, Done H s n → ∀ r ∈ items, n ≤ r.cursor

-- What a page has collected after the cursor of the receiver does not come before what was handled.
def Ahead (H : List ℕ) (s : State) (page : Page) : Prop :=
  page.cursor = s.cursor ∧ ∀ n, Done H s n → ∀ r ∈ page.items, n ≤ r.cursor

def ReceiverOk (H : List ℕ) (s : State) : Receiver → Prop
  | .idle                    => True
  | .requesting              => True
  | .pulling pid             => ∃ q, s.requests pid = some q ∧ Ahead H s q.page
  | .handling items ids      => ItemsOk H s items ∧ ∀ id ∈ ids, AckOk H s id
  | .handled item items ids  => ItemsOk H s (item :: items) ∧ Done H s item.cursor ∧ ∀ id ∈ ids, AckOk H s id
  | .buried item items ids   => ItemsOk H s (item :: items) ∧ Done H s item.cursor ∧ ∀ id ∈ ids, AckOk H s id
  | .acking ids              => ∀ id ∈ ids, AckOk H s id
  | .awaiting ids            => ∀ id ∈ ids, AckOk H s id

structure Ok (H : List ℕ) (s : State) : Prop where
  room     : s.room.Ok
  acked    : ∀ n r, s.room.msg n = some r → r.state = .acked → Done H s n
  expired  : ∀ n r, s.room.msg n = some r → r.state = .expired → r.expiresAt ≤ s.clock
  live     : ∀ n r, s.room.msg n = some r → r.state ≠ .deadLetter
  acks     : ∀ ids ∈ s.acks, ∀ id ∈ ids, AckOk H s id
  requests : ∀ pid q, s.requests pid = some q → RequestOk H s q
  cursor   : ∀ n, 0 < n → n ≤ s.cursor → Gone H s n
  -- Before a message that was handled without its cursor being stored, there is nothing left to deliver.
  done     : ∀ n, s.cursor < n → Done H s n → ∀ k, s.cursor < k → k < n → Closed s k
  receiver : ReceiverOk H s s.receiver
  sorted   : H.Pairwise (· ≤ ·)

-- What a step keeps
structure Later (H : List ℕ) (s : State) (H' : List ℕ) (t : State) : Prop where
  clock    : s.clock ≤ t.clock
  seq      : s.room.seq ≤ t.room.seq
  handled  : ∀ n ∈ H, n ∈ H'
  letters  : ∀ d ∈ s.deadLetters, d ∈ t.deadLetters
  msgid    : ∀ id n, s.room.msgid id = some n → t.room.msgid id = some n
  reported : ∀ r ∈ s.room.reported, r ∈ t.room.reported
  msg      : ∀ n r, s.room.msg n = some r → ∃ r', t.room.msg n = some r' ∧ r'.expiresAt = r.expiresAt ∧
    (r.state = .acked → r'.state = .acked) ∧ (r.state = .expired → r'.state = .expired ∨ Done H s n)

namespace Later

variable (h : Later H s H' t)

include h

theorem done (hd : Done H s n) : Done H' t n :=
  hd.imp (h.handled n) fun ⟨d, hd, hl⟩ => ⟨d, h.letters d hd, hl⟩

theorem gone (hg : Gone H s n) : Gone H' t n := by
  cases hg
  case inl hd => exact .inl (h.done hd)
  case inr he =>
    obtain ⟨⟨r, hr, hs⟩, c, hc, hcn⟩ := he
    obtain ⟨r', hr', _, _, hexpired⟩ := h.msg n r hr
    cases hexpired hs
    case inl hs' => exact .inr ⟨⟨r', hr', hs'⟩, c, h.reported c hc, hcn⟩
    case inr hd  => exact .inl (h.done hd)

theorem closed (hc : Closed s n) : Closed t n := by
  obtain ⟨r, hr, hs⟩ := hc
  obtain ⟨r', hr', hexpires, hacked, _⟩ := h.msg n r hr
  exact ⟨r', hr', hs.imp hacked fun hs => hexpires ▸ hs.trans h.clock⟩

theorem ackOk (ha : AckOk H s id) : AckOk H' t id :=
  ha.imp fun n ha => ⟨h.msgid id n ha.left, h.done ha.right⟩

theorem scanned (hs : Scanned H s c index items) : Scanned H' t c index items where
  sorted  := hs.sorted
  range r hr := have ⟨hc, hi, hid⟩ := hs.range r hr; ⟨hc, hi, h.msgid _ _ hid⟩
  gap k hc hk := (hs.gap k hc hk).imp_right fun hg => ⟨h.gone hg.left, h.closed hg.right⟩

theorem requestOk {q : Request} (hq : RequestOk H s q) : RequestOk H' t q := by
  refine ⟨hq.seq.trans h.seq, hq.start, h.scanned hq.scanned, ?reporting⟩
  case reporting =>
    intro page record he
    obtain ⟨hcursor, hclosed, r, hr, hs⟩ := hq.reporting page record he
    obtain ⟨r', hr', _, _, hexpired⟩ := h.msg _ r hr
    refine ⟨hcursor, h.closed hclosed, r', hr', ?_⟩
    cases hs
    case inl hs => exact (hexpired hs).imp_right h.done
    case inr hd => exact .inr (h.done hd)

end Later

theorem later_of_does (h : Ok H s) (hclock : s.clock ≤ now) (hd : Does s now handled t) :
    Later H s (H ++ handled.toList) { t with clock := now } := by
  have hsteps := steps_of_does h.room hd
  refine ⟨hclock, hsteps.seq, fun _ hn => List.mem_append_left _ hn, ?letters, hsteps.msgid, hsteps.reported, ?msg⟩
  case letters =>
    cases hd
    case bury     => exact fun d hd => List.mem_append_left _ hd
    case answered => exact fun d hd => List.mem_append_left _ hd
    all_goals exact fun d hd => hd
  case msg =>
    intro n r hr
    obtain ⟨r', hr', ha⟩ := hsteps.msg n r hr
    refine ⟨r', hr', ha.isSame.expiresAt, ?_⟩
    cases ha
    case same              => exact ⟨fun hs => hs, .inl⟩
    case expired hs _      => exact ⟨fun hacked => absurd hacked hs, fun _ => .inl rfl⟩
    case delivered hs hfresh =>
      refine ⟨fun hacked => absurd hacked hs, fun hexpired => ?_⟩
      exact absurd ((h.expired n r hr hexpired).trans hclock) (not_le.mpr hfresh)
    case acked hid =>
      refine ⟨fun _ => rfl, fun _ => .inr ?_⟩
      obtain ⟨ids, hids, hid⟩ := List.mem_flatten.mp hid
      obtain ⟨m, hm, hdone⟩ := h.acks ids hids _ hid
      cases hm.symm.trans (h.room.named n r hr).right
      exact hdone

theorem done_of_does (hd : Does s now handled t) (hn : Done (H ++ handled.toList) t n) : Done H s n ∨
    ∃ item items ids, s.receiver = .handling (item :: items) ids ∧ n = item.cursor := by
  cases hd
  case handle item items ids hreads =>
    rcases hn with hn | hn
    case inr => exact .inl (.inr hn)
    case inl =>
      cases List.mem_append.mp hn
      case inl hn => exact .inl (.inl hn)
      case inr hn => exact .inr ⟨item, items, ids, hreads, List.mem_singleton.mp hn⟩
  case bury item items ids _ _ _ hreads =>
    rcases hn with hn | ⟨d, hd, hdirection, hmetadata⟩
    case inl => exact .inl (.inl (by simpa using hn))
    case inr =>
      cases List.mem_append.mp hd
      case inl hd => exact .inl (.inr ⟨d, hd, hdirection, hmetadata⟩)
      case inr hd =>
        cases List.mem_singleton.mp hd
        have hrepr : toString item.cursor = toString n := by
          simpa [inboundLetter] using hmetadata
        have hdigits : Nat.toDigits 10 item.cursor = Nat.toDigits 10 n := by
          rw [← Nat.toList_repr, ← Nat.toList_repr]
          exact congrArg String.toList hrepr
        have hcursor := congrArg (Nat.ofDigitChars 10 · 0) hdigits
        simp only [Nat.ofDigitChars_ten_toDigits] at hcursor
        exact .inr ⟨item, items, ids, hreads, hcursor.symm⟩
  case answered =>
    rcases hn with hn | ⟨d, hd, hdirection, hmetadata⟩
    case inl => exact .inl (.inl (by simpa using hn))
    case inr =>
      cases List.mem_append.mp hd
      case inl hd => exact .inl (.inr ⟨d, hd, hdirection, hmetadata⟩)
      case inr hd =>
        obtain ⟨f, _, hf⟩ := Option.map_eq_some_iff.mp (Option.mem_toList.mp hd)
        rw [← hf] at hdirection
        have hne : ("ack" : String) ≠ "inbound" := by decide
        exact absurd hdirection hne
  all_goals exact .inl (hn.imp_left fun hn => by simpa using hn)

-- A page with nothing in it
theorem scanned_nil (hi : index = c + 1) : Scanned H s c index [] := by
  refine ⟨.nil, fun r hr => absurd hr List.not_mem_nil, fun k hc hk => ?_⟩
  omega

theorem Scanned.pass (h : Scanned H s c index items) (hgone : Gone H s index) (hclosed : Closed s index) :
    Scanned H s c (index + 1) items := by
  refine ⟨h.sorted, fun r hr => ?_, fun k hc hk => ?_⟩
  case _ =>
    have ⟨hc, hi, hid⟩ := h.range r hr
    exact ⟨hc, Nat.lt_succ_of_lt hi, hid⟩
  case _ =>
    cases Nat.lt_succ_iff_lt_or_eq.mp hk
    case inl hk => exact h.gap k hc hk
    case inr hk => exact .inr (hk ▸ ⟨hgone, hclosed⟩)

theorem Scanned.deliver (h : Scanned H s c index items) (hc : c < index) (hr : r.cursor = index)
    (hid : s.room.msgid r.relayMessageId = some index) : Scanned H s c (index + 1) (items ++ [r]) := by
  refine ⟨?sorted, ?range, ?gap⟩
  case sorted =>
    refine List.pairwise_append.mpr ⟨h.sorted, List.pairwise_singleton _ _, fun a ha b hb => ?_⟩
    cases List.mem_singleton.mp hb
    rw [hr]
    exact (h.range a ha).right.left
  case range =>
    intro a ha
    cases List.mem_append.mp ha
    case inl ha =>
      have ⟨hc, hi, hid⟩ := h.range a ha
      exact ⟨hc, Nat.lt_succ_of_lt hi, hid⟩
    case inr ha =>
      cases List.mem_singleton.mp ha
      rw [hr]
      exact ⟨hc, Nat.lt_succ_self _, hid⟩
  case gap =>
    intro k hck hk
    rw [List.map_append, List.mem_append]
    cases Nat.lt_succ_iff_lt_or_eq.mp hk
    case inl hk => exact (h.gap k hck hk).imp_left .inl
    case inr hk => exact .inl (.inr (by simp [hk, hr]))

theorem requestOk_visit (h : Ok H s) (hl : Later H s H' t) (hq : RequestOk H s (.scanning page)) (hc : page.continues)
    (hroom : t.room = (s.room.visit page t.clock).1) :
    RequestOk H' t ((s.room.visit page t.clock).2.2.elim (.scanning (s.room.visit page t.clock).2.1)
      (.reporting (s.room.visit page t.clock).2.1)) := by
  have hbound : page.seq ≤ s.room.seq := hq.seq
  have hseq : page.seq ≤ t.room.seq := hbound.trans hl.seq
  have hscanned : Scanned H' t page.cursor page.index page.items := hl.scanned hq.scanned
  have hpos : 0 < page.index := (Nat.zero_le _).trans_lt hq.start
  have hnext : page.cursor < page.index + 1 := Nat.lt_succ_of_lt hq.start
  obtain ⟨r, hr, hvisit⟩ := Room.visit_cases t.clock h.room hbound hpos hc
  have ⟨hcursor, hid⟩ := h.room.named page.index r hr
  rcases hvisit with ⟨hstate, hvisit⟩ | ⟨hexpired, hvisit⟩ | ⟨_, _, hvisit⟩
  all_goals rw [hvisit]; rw [hvisit] at hroom
  case inl =>
    have hacked : r.state = .acked := hstate.resolve_right (h.live page.index r hr)
    refine ⟨hseq, hnext, ?_, fun _ _ he => (by cases he)⟩
    exact hscanned.pass (hl.gone (.inl (h.acked _ r hr hacked))) (hl.closed ⟨r, hr, .inl hacked⟩)
  case inr.inl =>
    have hget : t.room.msg page.index = some r.expire := by
      rw [hroom]
      exact Room.msg_put.trans (if_pos rfl)
    refine ⟨hseq, hq.start, hscanned, fun p c he => ?_⟩
    cases he
    exact ⟨hcursor, ⟨_, hget, .inr hexpired⟩, _, hget, .inl rfl⟩
  case inr.inr =>
    refine ⟨hseq, hnext, ?_, fun _ _ he => (by cases he)⟩
    exact hscanned.deliver hq.start hcursor (hl.msgid _ _ hid)

theorem requestOk_report (hl : Later H s H' t) {record : Record} (hq : RequestOk H s (.reporting page record))
    (hroom : t.room = s.room.sendDeadLetter record) : RequestOk H' t (.scanning page.pass) := by
  have hq := hl.requestOk hq
  refine ⟨hq.seq, Nat.lt_succ_of_lt hq.start, ?_, fun _ _ he => (by cases he)⟩
  obtain ⟨hcursor, hclosed, r, hr, hs⟩ := hq.reporting page record rfl
  refine Scanned.pass hq.scanned ?_ hclosed
  cases hs
  case inr hd => exact .inl hd
  case inl hs =>
    refine .inr ⟨⟨r, hr, hs⟩, record, ?_, hcursor⟩
    rw [hroom]
    exact List.mem_append_right _ (List.mem_singleton_self _)

theorem requestOk_mailbox {cursor : Option ℤ} {limit : ℤ} (hroom : t.room = s.room) :
    RequestOk H t (.scanning (s.room.mailbox cursor limit)) :=
  ⟨hroom ▸ le_rfl, Nat.lt_succ_self _, scanned_nil rfl, fun _ _ he => (by cases he)⟩

-- What is under way after a step was under way before, or it is what the step has made of it.
theorem requestOk_step (h : Ok H s) (hl : Later H s H' { t with clock := now }) (hd : Does s now handled t)
    {q : Request} (hq : t.requests pid = some q) : RequestOk H' { t with clock := now } q := by
  have hold : s.requests pid = some q → RequestOk H' { t with clock := now } q :=
    fun hq => hl.requestOk (h.requests pid q hq)
  have hset : ∀ {p : ℕ} {q' : Option Request}, (∀ q, q' = some q → RequestOk H' { t with clock := now } q) →
      (s.setRequest p q').requests pid = some q → RequestOk H' { t with clock := now } q := by
    intro p q' hq' hq
    by_cases hp : pid = p
    case pos => subst hp; exact hq' q (by simpa [State.setRequest] using hq)
    case neg => exact hold (by simpa [State.setRequest, hp] using hq)
  have hnone : ∀ q, (none : Option Request) = some q → RequestOk H' { t with clock := now } q :=
    fun q he => (by cases he)
  cases hd
  case request => exact hset (fun q he => by cases he; exact requestOk_mailbox rfl) hq
  case pull    => exact hset (fun q he => by cases he; exact requestOk_mailbox rfl) hq
  case visit hreads hc =>
    refine hset (fun q he => ?_) hq
    cases he
    exact requestOk_visit h hl (h.requests _ _ hreads) hc rfl
  case report hreads =>
    refine hset (fun q he => ?_) hq
    cases he
    exact requestOk_report hl (h.requests _ _ hreads) rfl
  case reply => exact hset hnone hq
  case lose  => exact hset hnone hq
  all_goals exact hold hq

theorem ItemsOk.later (h : ItemsOk H s items) (hl : Later H s H' t) (hcursor : t.cursor = s.cursor)
    (hdone : ∀ n, Done H' t n → Done H s n) : ItemsOk H' t items where
  sorted := h.sorted
  range r hr := have ⟨hc, hid⟩ := h.range r hr; ⟨hcursor ▸ hc, hl.msgid _ _ hid⟩
  gap k hc hk := (h.gap k (hcursor ▸ hc) hk).imp_right fun hg => ⟨hl.gone hg.left, hl.closed hg.right⟩
  done n hn := h.done n (hdone n hn)

theorem ReceiverOk.later {receiver : Receiver} (h : ReceiverOk H s receiver) (hl : Later H s H' t)
    (hcursor : t.cursor = s.cursor) (hdone : ∀ n, Done H' t n → Done H s n)
    (hpulled : ∀ pid q, receiver = .pulling pid → s.requests pid = some q → Ahead H s q.page →
      ∃ q', t.requests pid = some q' ∧ Ahead H s q'.page) : ReceiverOk H' t receiver := by
  cases receiver
  case idle       => trivial
  case requesting => trivial
  case pulling pid =>
    obtain ⟨q, hq, ha⟩ := h
    obtain ⟨q', hq', hc, hahead⟩ := hpulled pid q rfl hq ha
    exact ⟨q', hq', hc.trans hcursor.symm, fun n hn => hahead n (hdone n hn)⟩
  case handling => exact ⟨h.left.later hl hcursor hdone, fun id hid => hl.ackOk (h.right id hid)⟩
  case handled =>
    exact ⟨h.left.later hl hcursor hdone, hl.done h.right.left, fun id hid => hl.ackOk (h.right.right id hid)⟩
  case buried =>
    exact ⟨h.left.later hl hcursor hdone, hl.done h.right.left, fun id hid => hl.ackOk (h.right.right id hid)⟩
  case acking   => exact fun id hid => hl.ackOk (h id hid)
  case awaiting => exact fun id hid => hl.ackOk (h id hid)

-- A record that is delivered was not closed, so that nothing after it was handled.
theorem ahead_visit (h : Ok H s) (hclock : s.clock ≤ now) (hq : RequestOk H s (.scanning page)) (hc : page.continues)
    (ha : Ahead H s page) : Ahead H s (s.room.visit page now).2.1 := by
  have hbound : page.seq ≤ s.room.seq := hq.seq
  have hpos : 0 < page.index := (Nat.zero_le _).trans_lt hq.start
  obtain ⟨r, hr, hvisit⟩ := Room.visit_cases now h.room hbound hpos hc
  rcases hvisit with ⟨_, hvisit⟩ | ⟨_, hvisit⟩ | ⟨hstate, hfresh, hvisit⟩
  all_goals rw [hvisit]
  case inl     => exact ha
  case inr.inl => exact ha
  case inr.inr =>
    refine ⟨ha.left, fun n hn c hcmem => ?_⟩
    cases List.mem_append.mp hcmem
    case inl hcmem => exact ha.right n hn c hcmem
    case inr hcmem =>
      cases List.mem_singleton.mp hcmem
      show n ≤ r.cursor
      rw [(h.room.named page.index r hr).left]
      by_contra hlt
      have hstart : s.cursor < page.index := ha.left ▸ hq.start
      have hlt := not_le.mp hlt
      obtain ⟨r', hr', hclosed⟩ := h.done n (hstart.trans hlt) hn page.index hstart hlt
      cases hr.symm.trans hr'
      cases hclosed
      case inl hs => exact hstate hs
      case inr hs => exact absurd (hs.trans hclock) (not_le.mpr hfresh)

theorem done_same (hletters : t.deadLetters = s.deadLetters) (hn : Done (H ++ (none : Option ℕ).toList) t n) :
    Done H s n := by
  refine hn.imp (fun hn => by simpa using hn) fun hd => ?_
  rw [DeadLettered, hletters] at hd
  exact hd

-- The first item is done.
theorem ItemsOk.settle (h : ItemsOk H s (item :: items)) (hl : Later H s H' t) (hcursor : t.cursor = s.cursor)
    (hdone : ∀ n, Done H' t n → Done H s n ∨ n = item.cursor) : ItemsOk H' t (item :: items) where
  sorted := h.sorted
  range r hr := have ⟨hc, hid⟩ := h.range r hr; ⟨hcursor ▸ hc, hl.msgid _ _ hid⟩
  gap k hc hk := (h.gap k (hcursor ▸ hc) hk).imp_right fun hg => ⟨hl.gone hg.left, hl.closed hg.right⟩
  done n hn r hr := by
    cases hdone n hn
    case inl hn => exact h.done n hn r hr
    case inr hn =>
      rw [hn]
      cases List.mem_cons.mp hr
      case inl hr => rw [hr]
      case inr hr => exact (List.rel_of_pairwise_cons h.sorted hr).le

-- The cursor moves to the first item.
theorem ItemsOk.advance (h : ItemsOk H s (item :: items)) (hl : Later H s H' t) (hcursor : t.cursor = item.cursor)
    (hdone : ∀ n, Done H' t n → Done H s n) : ItemsOk H' t items where
  sorted := (List.pairwise_cons.mp h.sorted).right
  range r hr := by
    rw [hcursor]
    exact ⟨List.rel_of_pairwise_cons h.sorted hr, hl.msgid _ _ (h.range r (List.mem_cons_of_mem _ hr)).right⟩
  gap k hc hk := by
    rw [hcursor] at hc
    obtain ⟨r, hr, hk⟩ := hk
    have hitem := (h.range item List.mem_cons_self).left
    cases h.gap k (hitem.trans hc) ⟨r, List.mem_cons_of_mem _ hr, hk⟩
    case inr hg => exact .inr ⟨hl.gone hg.left, hl.closed hg.right⟩
    case inl hk =>
      cases List.mem_cons.mp hk
      case inl hk => exact absurd hk hc.ne'
      case inr hk => exact .inl hk
  done n hn r hr := h.done n (hdone n hn) r (List.mem_cons_of_mem _ hr)

-- The page that the receiver is given
theorem itemsOk_reply (hq : RequestOk H s (.scanning page)) (ha : Ahead H s page) : ItemsOk H s page.items where
  sorted := hq.scanned.sorted
  range r hr := have ⟨hc, _, hid⟩ := hq.scanned.range r hr; ⟨ha.left ▸ hc, hid⟩
  gap k hc hk := by
    have ⟨r, hr, hk⟩ := hk
    exact hq.scanned.gap k (ha.left.trans_lt hc) (hk.trans (hq.scanned.range r hr).right.left)
  done := ha.right

theorem receiverOk_received (h : ReceiverOk H s s.receiver) (hl : Later H s H' t) (hcursor : t.cursor = s.cursor)
    (hdone : ∀ n, Done H' t n → Done H s n) (hrequests : ∀ p, p ≠ pid → t.requests p = s.requests p)
    (hitems : items ≠ [] → s.receiver = .pulling pid → ItemsOk H s items) :
    ReceiverOk H' t (s.received pid items) := by
  have hkeep : (∀ p, s.receiver = .pulling p → p ≠ pid) → ReceiverOk H' t s.receiver := by
    intro hne
    exact h.later hl hcursor hdone fun p q hp hq ha => ⟨q, (hrequests p (hne p hp)).trans hq, ha⟩
  unfold State.received
  cases hr : s.receiver
  case pulling p =>
    simp only
    split
    case isFalse hp => rw [hr] at hkeep; exact hkeep fun p' hp' => (by cases hp'; exact hp)
    case isTrue hp =>
      split
      case isTrue => trivial
      case isFalse hne =>
        exact ⟨(hitems hne (hp ▸ hr)).later hl hcursor hdone, fun id hid => absurd hid List.not_mem_nil⟩
  all_goals
    rw [hr] at hkeep
    exact hkeep fun p' hp' => (by cases hp')

theorem requests_setRequest {p : ℕ} {q : Option Request} (hp : pid ≠ p) :
    (s.setRequest p q).requests pid = s.requests pid := by
  simp [State.setRequest, hp]

theorem requests_setRequest_self {q : Option Request} : (s.setRequest pid q).requests pid = q := by
  simp [State.setRequest]

-- An item has been handled, or recorded as one that cannot be handled.
theorem settled (h : ReceiverOk H s (.handling (item :: items) ids)) (hl : Later H s H' t)
    (hcursor : t.cursor = s.cursor) (hdone : ∀ n, Done H' t n → Done H s n ∨ n = item.cursor)
    (hd : Done H' t item.cursor) : ItemsOk H' t (item :: items) ∧ Done H' t item.cursor ∧
      ∀ id ∈ ids ++ [item.relayMessageId], AckOk H' t id := by
  refine ⟨h.left.settle hl hcursor hdone, hd, fun id hid => ?_⟩
  cases List.mem_append.mp hid
  case inl hid => exact hl.ackOk (h.right id hid)
  case inr hid =>
    rw [List.mem_singleton.mp hid]
    exact ⟨item.cursor, hl.msgid _ _ (h.left.range item List.mem_cons_self).right, hd⟩

theorem receiverOk_step (h : Ok H s) (hclock : s.clock ≤ now) (hd : Does s now handled t) :
    ReceiverOk (H ++ handled.toList) { t with clock := now } t.receiver := by
  have hl := later_of_does h hclock hd
  have hitem := fun n (hn : Done (H ++ handled.toList) t n) => done_of_does hd hn
  have hreceiver := h.receiver
  cases hd
  case publish => exact hreceiver.later hl rfl (fun n hn => done_same rfl hn) fun pid q _ hq ha => ⟨q, hq, ha⟩
  case ack     => exact hreceiver.later hl rfl (fun n hn => done_same rfl hn) fun pid q _ hq ha => ⟨q, hq, ha⟩
  case drop    => exact hreceiver.later hl rfl (fun n hn => done_same rfl hn) fun pid q _ hq ha => ⟨q, hq, ha⟩
  case request p _ _ hfree =>
    apply hreceiver.later hl rfl (fun n hn => done_same rfl hn)
    intro pid q _ hq ha
    have hp : pid ≠ p := fun hp => by rw [hp, hfree] at hq; cases hq
    exact ⟨q, (requests_setRequest hp).trans hq, ha⟩
  case visit p page hreads hc =>
    apply hreceiver.later hl rfl (fun n hn => done_same rfl hn)
    intro pid q _ hq ha
    by_cases hp : pid = p
    case neg => exact ⟨q, (requests_setRequest hp).trans hq, ha⟩
    case pos =>
      subst hp
      cases hreads.symm.trans hq
      have hahead := ahead_visit h hclock (h.requests _ _ hreads) hc ha
      refine ⟨_, requests_setRequest_self, ?_⟩
      cases (s.room.visit page now).2.2
      case none => exact hahead
      case some => exact hahead
  case report p page record hreads =>
    apply hreceiver.later hl rfl (fun n hn => done_same rfl hn)
    intro pid q _ hq ha
    by_cases hp : pid = p
    case neg => exact ⟨q, (requests_setRequest hp).trans hq, ha⟩
    case pos =>
      subst hp
      cases hreads.symm.trans hq
      exact ⟨_, requests_setRequest_self, ha⟩
  case reply p page hreads _ =>
    apply receiverOk_received hreceiver hl rfl (fun n hn => done_same rfl hn) fun p' hp => requests_setRequest hp
    intro _ hr
    rw [hr] at hreceiver
    obtain ⟨q, hq, ha⟩ := hreceiver
    cases hreads.symm.trans hq
    exact itemsOk_reply (h.requests _ _ hreads) ha
  case lose p =>
    apply receiverOk_received hreceiver hl rfl (fun n hn => done_same rfl hn) fun p' hp => requests_setRequest hp
    exact fun hne => absurd rfl hne
  case poll => trivial
  case pull p _ _ =>
    refine ⟨_, requests_setRequest_self, Int.toNat_natCast _, fun n _ r hr => ?_⟩
    exact absurd hr List.not_mem_nil
  case handle item items ids hreads =>
    rw [hreads] at hreceiver
    refine settled hreceiver hl rfl (fun n hn => ?_) (.inl (by simp))
    refine (hitem n hn).imp_right fun ⟨item', items', ids', hr, hn⟩ => ?_
    cases hreads.symm.trans hr
    exact hn
  case bury item items ids _ _ _ hreads =>
    rw [hreads] at hreceiver
    refine settled hreceiver hl rfl (fun n hn => ?_)
      (.inr ⟨_, List.mem_append_right _ (List.mem_singleton_self _), rfl, rfl⟩)
    refine (hitem n hn).imp_right fun ⟨item', items', ids', hr, hn⟩ => ?_
    cases hreads.symm.trans hr
    exact hn
  case retry ids hreads =>
    rcases hreads with hreads | ⟨item, hreads⟩
    all_goals rw [hreads] at hreceiver
    case inl => exact fun id hid => hl.ackOk (hreceiver.right id hid)
    case inr => exact fun id hid => hl.ackOk (hreceiver.right.right id hid)
  case advance item items ids hreads =>
    rcases hreads with hreads | hreads
    all_goals
      rw [hreads] at hreceiver
      refine ⟨hreceiver.left.advance hl rfl (fun n hn => done_same rfl hn), fun id hid => ?_⟩
      exact hl.ackOk (hreceiver.right.right id hid)
  case send hreads =>
    rw [hreads] at hreceiver
    exact fun id hid => hl.ackOk (hreceiver id hid)
  case answered => trivial
  case leave    => trivial

-- A record after a step
theorem record_of_does (h : Ok H s) (hd : Does s now handled t) (hr : t.room.msg n = some r) :
    r.state = .queued ∨ ∃ r₀, s.room.msg n = some r₀ ∧ Alters s.acks.flatten now r₀ r := by
  have hsteps := steps_of_does h.room hd
  cases hr₀ : s.room.msg n
  case none => exact .inl (hsteps.made n r hr₀ hr)
  case some r₀ =>
    obtain ⟨r', hr', ha⟩ := hsteps.msg n r₀ hr₀
    cases hr.symm.trans hr'
    exact .inr ⟨r₀, rfl, ha⟩

theorem acked_step (h : Ok H s) (hl : Later H s H' { t with clock := now }) (hd : Does s now handled t)
    (hr : t.room.msg n = some r) (hs : r.state = .acked) : Done H' t n := by
  rcases record_of_does h hd hr with hq | ⟨r₀, hr₀, ha⟩
  case inl => rw [hs] at hq; cases hq
  case inr =>
    have hdone : Done H s n → Done H' t n := fun hn => hl.done hn
    cases ha
    case same      => exact hdone (h.acked n r hr₀ hs)
    case expired   => cases hs
    case delivered => cases hs
    case acked hid =>
      obtain ⟨ids, hids, hid⟩ := List.mem_flatten.mp hid
      obtain ⟨m, hm, hn⟩ := h.acks ids hids _ hid
      cases hm.symm.trans (h.room.named n r₀ hr₀).right
      exact hdone hn

theorem expired_step (h : Ok H s) (hclock : s.clock ≤ now) (hd : Does s now handled t)
    (hr : t.room.msg n = some r) (hs : r.state = .expired) : r.expiresAt ≤ now := by
  rcases record_of_does h hd hr with hq | ⟨r₀, hr₀, ha⟩
  case inl => rw [hs] at hq; cases hq
  case inr =>
    cases ha
    case same              => exact (h.expired n r hr₀ hs).trans hclock
    case expired hexpired  => exact hexpired
    case delivered         => cases hs
    case acked             => cases hs

theorem live_step (h : Ok H s) (hd : Does s now handled t) (hr : t.room.msg n = some r) : r.state ≠ .deadLetter := by
  rcases record_of_does h hd hr with hq | ⟨r₀, hr₀, ha⟩
  case inl => simp [hq]
  case inr =>
    cases ha
    case same      => exact h.live n r hr₀
    case expired   => exact fun hs => (by cases hs)
    case delivered => exact fun hs => (by cases hs)
    case acked     => exact fun hs => (by cases hs)

theorem acks_step (h : Ok H s) (hl : Later H s H' { t with clock := now }) (hd : Does s now handled t) :
    ∀ ids ∈ t.acks, ∀ id ∈ ids, AckOk H' { t with clock := now } id := by
  have hold : ∀ ids ∈ s.acks, ∀ id ∈ ids, AckOk H' { t with clock := now } id :=
    fun ids hids id hid => hl.ackOk (h.acks ids hids id hid)
  cases hd
  case ack  => exact fun ids hids => hold ids (List.mem_of_mem_eraseIdx hids)
  case drop => exact fun ids hids => hold ids (List.mem_of_mem_eraseIdx hids)
  case send hreads =>
    intro ids hids id hid
    cases List.mem_append.mp hids
    case inl hids => exact hold ids hids id hid
    case inr hids =>
      have hreceiver := h.receiver
      rw [hreads] at hreceiver
      cases List.mem_singleton.mp hids
      exact hl.ackOk (hreceiver id hid)
  all_goals exact hold

-- What is there between the cursor and the first item
theorem ItemsOk.before (h : ItemsOk H s (item :: items)) (hc : s.cursor < k) (hk : k < item.cursor) :
    Gone H s k ∧ Closed s k := by
  cases h.gap k hc ⟨item, List.mem_cons_self, hk⟩
  case inr hg => exact hg
  case inl hmem =>
    cases List.mem_cons.mp hmem
    case inl heq => exact absurd heq hk.ne
    case inr hmem =>
      obtain ⟨r, hr, hrk⟩ := List.mem_map.mp hmem
      exact absurd (List.rel_of_pairwise_cons h.sorted hr) (not_lt.mpr (hrk ▸ hk.le))

-- What the receiver has before it when its cursor moves to an item
theorem gone_item (h : Ok H s) (hi : ItemsOk H s (item :: items)) (hd : Done H s item.cursor) (hn : 0 < n)
    (hle : n ≤ item.cursor) : Gone H s n := by
  by_cases hc : n ≤ s.cursor
  case pos => exact h.cursor n hn hc
  case neg =>
    cases hle.lt_or_eq
    case inr heq => exact .inl (heq ▸ hd)
    case inl hlt => exact (hi.before (not_le.mp hc) hlt).left

theorem cursor_step (h : Ok H s) (hl : Later H s H' { t with clock := now }) (hd : Does s now handled t) (hn : 0 < n)
    (hle : n ≤ t.cursor) : Gone H' { t with clock := now } n := by
  apply hl.gone
  cases hd
  case advance item items ids hreads =>
    have hreceiver := h.receiver
    rcases hreads with hreads | hreads
    all_goals
      rw [hreads] at hreceiver
      exact gone_item h hreceiver.left hreceiver.right.left hn hle
  all_goals exact h.cursor n hn hle

theorem done_step (h : Ok H s) (hl : Later H s (H ++ handled.toList) { t with clock := now })
    (hd : Does s now handled t) (hcn : t.cursor < n) (hn : Done (H ++ handled.toList) t n) (hck : t.cursor < k)
    (hkn : k < n) : Closed { t with clock := now } k := by
  apply hl.closed
  have hcursor : t.cursor = s.cursor ∨ ∃ item items ids, t.cursor = item.cursor ∧
      (s.receiver = .handled item items ids ∨ s.receiver = .buried item items ids) := by
    cases hd
    case advance item items ids hreads => exact .inr ⟨item, items, ids, rfl, hreads⟩
    all_goals exact .inl rfl
  rcases hcursor with hcursor | ⟨item, items, ids, hcursor, hreads⟩
  case inl =>
    rw [hcursor] at hcn hck
    rcases done_of_does hd hn with hn | ⟨item, items, ids, hr, hitem⟩
    case inl => exact h.done n hcn hn k hck hkn
    case inr =>
      have hreceiver := h.receiver
      rw [hr] at hreceiver
      exact (hreceiver.left.before hck (hitem ▸ hkn)).right
  case inr =>
    rw [hcursor] at hcn
    have hreceiver := h.receiver
    rcases done_of_does hd hn with hn | ⟨item', items', ids', hr, _⟩
    case inr => rcases hreads with hreads | hreads <;> cases hr.symm.trans hreads
    case inl =>
      rcases hreads with hreads | hreads
      all_goals
        rw [hreads] at hreceiver
        exact absurd (hreceiver.left.done n hn item List.mem_cons_self) (not_le.mpr hcn)

-- A message is handled after those that come before it.
theorem sorted_step (h : Ok H s) (hd : Does s now handled t) : (H ++ handled.toList).Pairwise (· ≤ ·) := by
  cases hd
  case handle item items ids hreads =>
    have hreceiver := h.receiver
    rw [hreads] at hreceiver
    refine List.pairwise_append.mpr ⟨h.sorted, List.pairwise_singleton _ _, fun m hm b hb => ?_⟩
    cases List.mem_singleton.mp hb
    exact hreceiver.left.done m (.inl hm) item List.mem_cons_self
  all_goals
    rw [Option.toList_none, List.append_nil]
    exact h.sorted

theorem ok_step (h : Ok H s) (hs : system.step s e t) : Ok (H ++ e.handled.toList) t := by
  obtain ⟨hclock, hhandled, t', hrun, ht⟩ := hs
  have hd := does_of_run hrun
  rw [← hhandled] at hd
  have hl := later_of_does h hclock hd
  subst ht
  have hsteps := steps_of_does h.room hd
  refine ⟨hsteps.ok, ?acked, ?expired, ?live, acks_step (t := t') h hl hd, ?requests, ?cursor, ?done, ?receiver,
    sorted_step h hd⟩
  case acked    => exact fun n r hr hs => acked_step (t := t') h hl hd hr hs
  case expired  => exact fun n r hr hs => expired_step (t := t') h hclock hd hr hs
  case live     => exact fun n r hr => live_step (t := t') h hd hr
  case requests => exact fun pid q hq => requestOk_step (t := t') h hl hd hq
  case cursor   => exact fun n hn hle => cursor_step (t := t') h hl hd hn hle
  case done     => exact fun n hcn hn k hck hkn => done_step (t := t') h hl hd hcn hn hck hkn
  case receiver => exact receiverOk_step h hclock hd

-- The messages that were handled, in the order in which they were
def handledOf (es : List Event) : List ℕ :=
  es.filterMap (·.handled)

theorem handledOf_concat : handledOf (es ++ [e]) = handledOf es ++ e.handled.toList := by
  unfold handledOf
  rw [List.filterMap_append]
  cases he : e.handled
  case none => simp [he]
  case some => simp [he]

theorem ok_init (h₀ : system.init s) : Ok [] s := by
  obtain ⟨hseq, hmsg, hmsgid, hrequests, hacks, hcursor, hletters, hreceiver⟩ := h₀
  have hdone : ∀ n, ¬Done [] s n := by
    intro n hn
    rcases hn with hn | ⟨d, hd, _⟩
    case inl => exact absurd hn List.not_mem_nil
    case inr => rw [hletters] at hd; exact absurd hd List.not_mem_nil
  have hnone : ∀ {n r}, s.room.msg n ≠ some r := fun hr => (by cases (hmsg _).symm.trans hr)
  refine ⟨⟨fun n => ?_, fun n r hr => absurd hr hnone, fun id n hid => ?_⟩, fun n r hr => absurd hr hnone,
    fun n r hr => absurd hr hnone, fun n r hr => absurd hr hnone, ?_, fun pid q hq => ?_, fun n hn hle => ?_,
    fun n _ hn => absurd hn (hdone n), ?_, .nil⟩
  case _ => simp [hmsg, hseq, Nat.pos_iff_ne_zero]
  case _ => cases (hmsgid id).symm.trans hid
  case _ => rw [hacks]; exact fun ids hids => absurd hids List.not_mem_nil
  case _ => cases (hrequests pid).symm.trans hq
  case _ => rw [hcursor] at hle; exact absurd hn (not_lt.mpr hle)
  case _ => rw [hreceiver]; trivial

theorem ok_run (h₀ : system.init t) (r : system.Run t es s) : Ok (handledOf es) s := by
  apply r.from_start (H := fun es s => Ok (handledOf es) s)
  case h => exact ok_init h₀
  case hH =>
    intro es s e t h hs
    rw [handledOf_concat]
    exact ok_step h hs

theorem same_run (h : s.room.Ok) (hr : s.room.msg n = some r) (hrun : system.Run s es t) :
    ∃ r', t.room.msg n = some r' ∧ r.Same r' := by
  have hboth : t.room.Ok ∧ ∃ r', t.room.msg n = some r' ∧ r.Same r' := by
    apply hrun.preserves (I := fun t => t.room.Ok ∧ ∃ r', t.room.msg n = some r' ∧ r.Same r')
    case h => exact ⟨h, r, hr, .refl⟩
    case hI =>
      intro s e t h hs
      obtain ⟨hok, r', hr', hsame⟩ := h
      obtain ⟨_, _, t', hrun, ht⟩ := hs
      have hsteps := steps_of_does hok (does_of_run hrun)
      obtain ⟨r'', hr'', ha⟩ := hsteps.msg n r' hr'
      subst ht
      exact ⟨hsteps.ok, r'', hr'', hsame.trans ha.isSame⟩
  exact hboth.right

-- The numbers up to the last one are taken, each by its message for good;
-- a message up to the cursor of the receiver was handled, or recorded as one that cannot be, or has expired and was
-- reported;
-- a message that is acked was handled, or recorded as one that cannot be;
-- and messages are handled in order, one of them again at most before the next.
theorem mailbox_loses_nothing (h₀ : system.init t) (r : system.Run t es s) :
    (∀ n, (s.room.msg n).isSome ↔ 0 < n ∧ n ≤ s.room.seq) ∧
    (∀ n m es' u, s.room.msg n = some m → system.Run s es' u → ∃ m', u.room.msg n = some m' ∧ m.Same m') ∧
    (∀ n m, s.room.msg n = some m → n ≤ s.cursor → n ∈ handledOf es ∨ DeadLettered s n ∨ Expired s n) ∧
    (∀ n m, s.room.msg n = some m → m.state = .acked → n ∈ handledOf es ∨ DeadLettered s n) ∧
    (handledOf es).Pairwise (· ≤ ·) := by
  have h := ok_run h₀ r
  refine ⟨h.room.taken, fun n m es' u hm r' => same_run h.room hm r', fun n m hm hle => ?_, h.acked, h.sorted⟩
  have hpos := ((h.room.taken n).mp (by rw [hm]; rfl)).left
  exact or_assoc.mp (h.cursor n hpos hle)

section Sample

-- Actions at their times
def perform (s : State) : List (ℕ × Action) → Option (List Event × State)
  | []                       => some ([], s)
  | (now, action) :: actions =>
    if s.clock ≤ now then
      (s.run now action).bind fun t =>
        (perform { t with clock := now } actions).map fun r => (⟨action, now, s.handled action⟩ :: r.1, r.2)
    else none

theorem run_of_perform {actions : List (ℕ × Action)} (h : perform s actions = some (es, t)) : system.Run s es t := by
  induction actions generalizing s es
  case nil => cases h; exact .refl
  case cons a actions hi =>
    simp only [perform] at h
    split at h
    case isFalse => cases h
    case isTrue hclock =>
      obtain ⟨t', ht', h⟩ := Option.bind_eq_some_iff.mp h
      obtain ⟨r, hr, h⟩ := Option.map_eq_some_iff.mp h
      cases h
      exact .trans ⟨hclock, rfl, t', ht', rfl⟩ (hi hr)

def sampleMailbox : State where
  room        := ⟨0, fun _ => none, fun _ => none, []⟩
  requests _  := none
  acks        := []
  cursor      := 0
  deadLetters := []
  receiver    := .idle
  clock       := 0

-- The first message expires before the receiver asks for its messages, and it crashes before it stores its cursor.
def sampleActions : List (ℕ × Action) :=
  [(0, .publish [("messageId", .str "first")] 60 "nrelay_1"),
    (50000, .publish [("messageId", .str "second")] 60 "nrelay_2"), (70000, .poll), (70000, .pull 0), (70000, .visit 0), (70000, .report 0), (70000, .visit 0), (70000, .reply 0),
    (70000, .handle), (70000, .leave), (80000, .poll), (80000, .pull 0), (80000, .visit 0), (80000, .report 0),
    (80000, .visit 0), (80000, .reply 0), (80000, .handle), (80000, .advance), (80000, .finish), (80000, .send),
    (80000, .ack 0)]

def sampleReceived : List Event × State :=
  (perform sampleMailbox sampleActions).getD ([], sampleMailbox)

theorem mailbox_loses_nothing_crashed : handledOf sampleReceived.1 = [2, 2] ∧ sampleReceived.2.cursor = 2 ∧
    (handledOf sampleReceived.1).Pairwise (· ≤ ·) := by
  have hrun : perform sampleMailbox sampleActions = some (sampleReceived.1, sampleReceived.2) := rfl
  have h₀ : system.init sampleMailbox := ⟨rfl, fun _ => rfl, fun _ => rfl, fun _ => rfl, rfl, rfl, rfl, rfl⟩
  exact ⟨rfl, rfl, (mailbox_loses_nothing h₀ (run_of_perform hrun)).right.right.right.right⟩

end Sample
end Relay.Inbox
