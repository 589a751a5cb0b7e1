import V8AgentOs.Relay.Inbox

-- What a step makes of the records of a room
namespace Relay

variable {room room' room'' : Room} {r r' record : Record} {page : Page} {ids ids' : List String} {id : String}
  {n now index : ℕ}

structure Room.Ok (room : Room) : Prop where
  taken : ∀ n, (room.msg n).isSome ↔ 0 < n ∧ n ≤ room.seq
  named : ∀ n r, room.msg n = some r → r.cursor = n ∧ room.msgid r.relayMessageId = some n
  found : ∀ id n, room.msgid id = some n → ∃ r, room.msg n = some r ∧ r.relayMessageId = id

-- What becomes of a record when messages are acknowledged
inductive Alters (ids : List String) (now : ℕ) (r : Record) : Record → Prop
  | same : Alters ids now r r
  | expired (state : r.state ≠ .acked) (expired : r.expiresAt ≤ now) : Alters ids now r r.expire
  | delivered (state : r.state ≠ .acked) (fresh : now < r.expiresAt) : Alters ids now r (r.deliver now)
  | acked (mem : r.relayMessageId ∈ ids) : Alters ids now r (r.ack now)

-- A record stays the same message.
structure Record.Same (r r' : Record) : Prop where
  relayMessageId : r'.relayMessageId = r.relayMessageId
  cursor         : r'.cursor = r.cursor
  envelope       : r'.envelope = r.envelope
  createdAt      : r'.createdAt = r.createdAt
  expiresAt      : r'.expiresAt = r.expiresAt

theorem Record.Same.refl : r.Same r :=
  ⟨rfl, rfl, rfl, rfl, rfl⟩

theorem Record.Same.trans {r'' : Record} (h : r.Same r') (h' : r'.Same r'') : r.Same r'' where
  relayMessageId := h'.relayMessageId.trans h.relayMessageId
  cursor         := h'.cursor.trans h.cursor
  envelope       := h'.envelope.trans h.envelope
  createdAt      := h'.createdAt.trans h.createdAt
  expiresAt      := h'.expiresAt.trans h.expiresAt

theorem Alters.isSame (h : Alters ids now r r') : r.Same r' := by
  cases h
  case same      => exact .refl
  case expired   => exact ⟨rfl, rfl, rfl, rfl, rfl⟩
  case delivered => exact ⟨rfl, rfl, rfl, rfl, rfl⟩
  case acked     => exact ⟨rfl, rfl, rfl, rfl, rfl⟩

-- What a step makes of a room
structure Room.Steps (ids : List String) (now : ℕ) (room room' : Room) : Prop where
  ok       : room'.Ok
  seq      : room.seq ≤ room'.seq
  msgid    : ∀ id n, room.msgid id = some n → room'.msgid id = some n
  reported : ∀ r ∈ room.reported, r ∈ room'.reported
  msg      : ∀ n r, room.msg n = some r → ∃ r', room'.msg n = some r' ∧ Alters ids now r r'
  made     : ∀ n r, room.msg n = none → room'.msg n = some r → r.state = .queued

namespace Room

theorem Steps.refl (h : room.Ok) : Steps ids now room room where
  ok       := h
  seq      := le_rfl
  msgid    := fun _ _ h => h
  reported := fun _ h => h
  msg      := fun _ r h => ⟨r, h, .same⟩
  made     := fun _ _ h h' => (by cases h.symm.trans h')

theorem msg_put : (room.put index record).msg n = if n = index then some record else room.msg n := by
  by_cases h : n = index
  case pos => simp [put, h]
  case neg => simp [put, h]

theorem steps_put (h : room.Ok) (hr : room.msg index = some r) (ha : Alters ids now r r') :
    Steps ids now room (room.put index r') := by
  have hsame := ha.isSame
  have hmsg : ∀ n c, (room.put index r').msg n = some c → n = index ∧ c = r' ∨ n ≠ index ∧ room.msg n = some c := by
    intro n c hc
    rw [msg_put] at hc
    split at hc
    case isTrue hn  => exact .inl ⟨hn, (Option.some.inj hc).symm⟩
    case isFalse hn => exact .inr ⟨hn, hc⟩
  have hkept : ∀ n c, room.msg n = some c → ∃ c', (room.put index r').msg n = some c' ∧ Alters ids now c c' := by
    intro n c hc
    rw [msg_put]
    split
    case isFalse => exact ⟨c, hc, .same⟩
    case isTrue hn =>
      rw [hn, hr] at hc
      cases hc
      exact ⟨r', rfl, ha⟩
  refine ⟨⟨?taken, ?named, ?found⟩, le_rfl, fun _ _ h => h, fun _ h => h, hkept, ?made⟩
  case taken =>
    intro n
    rw [msg_put]
    split
    case isFalse => exact h.taken n
    case isTrue hn =>
      have htaken := h.taken n
      rw [hn, hr] at htaken
      rw [hn]
      exact htaken
  case named =>
    intro n c hc
    cases hmsg n c hc
    case inr hc => exact h.named n c hc.right
    case inl hc =>
      have ⟨hcursor, hid⟩ := h.named index r hr
      rw [hc.left, hc.right, hsame.cursor, hsame.relayMessageId]
      exact ⟨hcursor, hid⟩
  case found =>
    intro id n hid
    obtain ⟨c, hc, hcid⟩ := h.found id n hid
    obtain ⟨c', hc', hca⟩ := hkept n c hc
    exact ⟨c', hc', hca.isSame.relayMessageId.trans hcid⟩
  case made =>
    intro n c hnone hc
    cases hmsg n c hc
    case inl hc => rw [hc.left, hr] at hnone; cases hnone
    case inr hc => cases hnone.symm.trans hc.right

theorem steps_publish {envelope : Python.Dict} {ttlSeconds : ℤ} (h : room.Ok) (hid : room.msgid id = none) :
    Steps ids now room (room.publish envelope ttlSeconds id now) := by
  unfold publish
  split
  case isFalse => exact .refl h
  case isTrue =>
    have hnew : room.msg (room.seq + 1) = none := by
      cases hm : room.msg (room.seq + 1)
      case none   => rfl
      case some r =>
        have htaken := ((h.taken (room.seq + 1)).mp (by rw [hm]; rfl)).right
        omega
    have hids : ∀ b n, room.msgid b = some n → Function.update room.msgid id (some (room.seq + 1)) b = some n := by
      intro b n hb
      have hne : b ≠ id := fun he => by rw [he, hid] at hb; cases hb
      rw [Function.update_of_ne hne, hb]
    have hkept : ∀ n c, room.msg n = some c →
        (room.put (room.seq + 1) (room.record envelope ttlSeconds id now)).msg n = some c := by
      intro n c hc
      rw [msg_put, if_neg, hc]
      intro hn
      cases hnew.symm.trans (hn ▸ hc)
    refine ⟨⟨?taken, ?named, ?found⟩, Nat.le_succ _, hids, fun _ h => h, fun n c hc => ⟨c, hkept n c hc, .same⟩, ?made⟩
    case taken =>
      intro n
      show ((room.put (room.seq + 1) _).msg n).isSome ↔ 0 < n ∧ n ≤ room.seq + 1
      rw [msg_put]
      have htaken := h.taken n
      split
      case isTrue hn => simp [hn]
      case isFalse hn =>
        rw [htaken]
        omega
    case named =>
      intro n c hc
      have hc : (room.put (room.seq + 1) _).msg n = some c := hc
      rw [msg_put] at hc
      split at hc
      case isTrue hn  => cases hc; exact ⟨hn.symm, hn ▸ Function.update_self ..⟩
      case isFalse hn => exact ⟨(h.named n c hc).left, hids _ _ (h.named n c hc).right⟩
    case found =>
      intro b n hb
      by_cases hbid : b = id
      case pos =>
        subst hbid
        cases (Function.update_self ..).symm.trans hb
        exact ⟨_, msg_put.trans (if_pos rfl), rfl⟩
      case neg =>
        obtain ⟨c, hc, hcid⟩ := h.found b n ((Function.update_of_ne hbid ..).symm.trans hb)
        exact ⟨c, hkept n c hc, hcid⟩
    case made =>
      intro n c hnone hc
      have hc : (room.put (room.seq + 1) _).msg n = some c := hc
      rw [msg_put] at hc
      split at hc
      case isTrue  => cases hc; rfl
      case isFalse => cases hnone.symm.trans hc

theorem steps_visit (h : room.Ok) : Steps ids now room (room.visit page now).1 := by
  unfold visit
  split
  case h_1 => exact .refl h
  case h_2 record hr =>
    split
    case isTrue => exact .refl h
    case isFalse hstate =>
      have hstate : record.state ≠ .acked := by
        intro hacked
        simp [hacked] at hstate
      split
      case isTrue hexpired  => exact steps_put h hr (.expired hstate hexpired)
      case isFalse hexpired => exact steps_put h hr (.delivered hstate (not_le.mp hexpired))

-- What an iteration of the loop does with the record that it finds
theorem visit_cases (now : ℕ) (h : room.Ok) (hseq : page.seq ≤ room.seq) (hpos : 0 < page.index) (hc : page.continues) :
    ∃ r, room.msg page.index = some r ∧
      ((r.state = .acked ∨ r.state = .deadLetter) ∧ room.visit page now = (room, page.pass, none) ∨
        r.expiresAt ≤ now ∧ room.visit page now = (room.put page.index r.expire, page, some r.expire) ∨
        r.state ≠ .acked ∧ now < r.expiresAt ∧ room.visit page now =
          (room.put page.index (r.deliver now), { page.pass with items := page.items ++ [r.deliver now] }, none)) := by
  have hindex : page.index ≤ page.seq := by
    simp only [Page.continues, Bool.and_eq_true, decide_eq_true_eq] at hc
    exact hc.left
  obtain ⟨r, hr⟩ := Option.isSome_iff_exists.mp ((h.taken page.index).mpr ⟨hpos, hindex.trans hseq⟩)
  refine ⟨r, hr, ?_⟩
  unfold visit
  simp only [hr]
  by_cases hstate : r.state = .acked ∨ r.state = .deadLetter
  case pos => exact .inl ⟨hstate, by simp [hstate]⟩
  case neg =>
    have hstate' : (r.state = .acked || r.state = .deadLetter) = false := by simpa using hstate
    by_cases hexpired : r.expiresAt ≤ now
    case pos => exact .inr (.inl ⟨hexpired, by simp [hstate', hexpired]⟩)
    case neg =>
      refine .inr (.inr ⟨fun hs => hstate (.inl hs), not_le.mp hexpired, ?_⟩)
      simp [hstate', hexpired]

theorem steps_sendDeadLetter (h : room.Ok) : Steps ids now room (room.sendDeadLetter record) where
  ok       := ⟨h.taken, h.named, h.found⟩
  seq      := le_rfl
  msgid    := fun _ _ h => h
  reported := fun _ h => List.mem_append_left _ h
  msg      := fun _ r h => ⟨r, h, .same⟩
  made     := fun _ _ h h' => (by cases h.symm.trans h')

theorem steps_ackMessage (h : room.Ok) (hid : id ∈ ids) : Steps ids now room (ackMessage now room id) := by
  unfold ackMessage
  split
  case h_1 => exact .refl h
  case h_2 seq hseq =>
    obtain ⟨r, hr, hrid⟩ := h.found id seq hseq
    simp only [hr]
    exact steps_put h hr (.acked (hrid ▸ hid))

theorem msg_ackMessage (h : room.Ok) : (ackMessage now room id).msg n =
    (room.msg n).map fun r => if r.relayMessageId = id then r.ack now else r := by
  have hother : ∀ {r}, room.msg n = some r → room.msgid id ≠ some n → r.relayMessageId ≠ id := by
    intro r hr hid he
    exact hid (he ▸ (h.named n r hr).right)
  unfold ackMessage
  split
  case h_1 hid =>
    cases hr : room.msg n
    case none   => rfl
    case some r => simp [hother hr (by simp [hid])]
  case h_2 seq hid =>
    obtain ⟨r, hr, hrid⟩ := h.found id seq hid
    simp only [hr, msg_put]
    split
    case isTrue hn => simp [hn, hr, hrid]
    case isFalse hn =>
      cases hc : room.msg n
      case none   => rfl
      case some c => simp [hother hc (by simpa [hid] using Ne.symm hn)]

theorem ackMessage_kept (now : ℕ) (room : Room) (id : String) : (ackMessage now room id).seq = room.seq ∧
    (ackMessage now room id).msgid = room.msgid ∧ (ackMessage now room id).reported = room.reported := by
  unfold ackMessage
  split
  case h_1 => exact ⟨rfl, rfl, rfl⟩
  case h_2 =>
    split
    case h_1 => exact ⟨rfl, rfl, rfl⟩
    case h_2 => exact ⟨rfl, rfl, rfl⟩

theorem ack_kept (ids : List String) (now : ℕ) (room : Room) : (room.ack ids now).seq = room.seq ∧
    (room.ack ids now).msgid = room.msgid ∧ (room.ack ids now).reported = room.reported := by
  induction ids generalizing room
  case nil => exact ⟨rfl, rfl, rfl⟩
  case cons id ids hi =>
    have ⟨hseq, hmsgid, hreported⟩ := @hi (ackMessage now room id)
    have ⟨hseq', hmsgid', hreported'⟩ := ackMessage_kept now room id
    exact ⟨hseq.trans hseq', hmsgid.trans hmsgid', hreported.trans hreported'⟩

theorem ok_ack (h : room.Ok) : (room.ack ids now).Ok := by
  induction ids generalizing room
  case nil             => exact h
  case cons id ids hi  => exact hi (steps_ackMessage h (List.mem_singleton_self id)).ok

-- The records with an identifier that is acknowledged are acked, and no other.
theorem msg_ack (h : room.Ok) : (room.ack ids now).msg n =
    (room.msg n).map fun r => if r.relayMessageId ∈ ids then r.ack now else r := by
  induction ids generalizing room
  case nil =>
    show room.msg n = _
    cases room.msg n
    case none => rfl
    case some => simp
  case cons id ids hi =>
    have hok : (ackMessage now room id).Ok := (steps_ackMessage h (List.mem_singleton_self id)).ok
    refine (hi hok).trans ?_
    rw [msg_ackMessage h]
    cases room.msg n
    case none => rfl
    case some r =>
      by_cases hid : r.relayMessageId = id
      case neg => simp [hid]
      case pos => simp [hid, Record.ack]

theorem steps_ack (h : room.Ok) (hids : ∀ id ∈ ids', id ∈ ids) : Steps ids now room (room.ack ids' now) := by
  have ⟨hseq, hmsgid, hreported⟩ := ack_kept ids' now room
  refine ⟨ok_ack h, hseq.ge, fun _ _ h => hmsgid ▸ h, fun _ h => hreported ▸ h, ?msg, ?made⟩
  case msg =>
    intro n r hr
    refine ⟨_, (msg_ack h).trans (congrArg _ hr), ?_⟩
    simp only
    split
    case isTrue hid => exact .acked (hids _ hid)
    case isFalse    => exact .same
  case made =>
    intro n r hnone hr
    rw [msg_ack h, hnone] at hr
    cases hr

end Room

namespace Inbox

open Runs (Time)

variable {s t : State} {e : Event}

-- What a step does, apart from the clock
inductive Does (s : State) (now : ℕ) : Option ℕ → State → Prop
  | publish {envelope : Python.Dict} {ttlSeconds : ℤ} {id : String} (fresh : s.room.msgid id = none) :
    Does s now none { s with room := s.room.publish envelope ttlSeconds id now }
  | request {pid : ℕ} {cursor : Option ℤ} {limit : ℤ} (free : s.requests pid = none) :
    Does s now none (s.setRequest pid (some (.scanning (s.room.mailbox cursor limit))))
  | visit {pid : ℕ} {page : Page} (reads : s.requests pid = some (.scanning page)) (continues : page.continues) :
    Does s now none { s.setRequest pid (some ((s.room.visit page now).2.2.elim (.scanning (s.room.visit page now).2.1)
      (.reporting (s.room.visit page now).2.1))) with room := (s.room.visit page now).1 }
  | report {pid : ℕ} {page : Page} {record : Record} (reads : s.requests pid = some (.reporting page record)) :
    Does s now none { s.setRequest pid (some (.scanning page.pass)) with room := s.room.sendDeadLetter record }
  | reply {pid : ℕ} {page : Page} (reads : s.requests pid = some (.scanning page)) (ends : page.continues = false) :
    Does s now none { s.setRequest pid none with receiver := s.received pid page.items }
  | lose {pid : ℕ} : Does s now none { s.setRequest pid none with receiver := s.received pid [] }
  | ack {n : ℕ} {ids : List String} (mem : s.acks[n]? = some ids) :
    Does s now none { s with room := s.room.ack ids now, acks := s.acks.eraseIdx n }
  | drop {n : ℕ} : Does s now none { s with acks := s.acks.eraseIdx n }
  | poll (reads : s.receiver = .idle) : Does s now none { s with receiver := .requesting }
  | pull {pid : ℕ} (reads : s.receiver = .requesting) (free : s.requests pid = none) : Does s now none
    { s.setRequest pid (some (.scanning (s.room.mailbox (some s.cursor) 50))) with receiver := .pulling pid }
  | handle {item : Record} {items : List Record} {ids : List String}
    (reads : s.receiver = .handling (item :: items) ids) :
    Does s now (some item.cursor) { s with receiver := .handled item items (ids ++ [item.relayMessageId]) }
  | bury {item : Record} {items : List Record} {ids : List String} {peerId reason : String} {time : Time}
    (reads : s.receiver = .handling (item :: items) ids) : Does s now none { s with
      receiver    := .buried item items (ids ++ [item.relayMessageId])
      deadLetters := s.deadLetters ++ [inboundLetter item peerId reason time] }
  | retry {items : List Record} {ids : List String}
    (reads : s.receiver = .handling items ids ∨ ∃ item, s.receiver = .handled item items ids) :
    Does s now none { s with receiver := .acking ids }
  | advance {item : Record} {items : List Record} {ids : List String}
    (reads : s.receiver = .handled item items ids ∨ s.receiver = .buried item items ids) :
    Does s now none { s with receiver := .handling items ids, cursor := item.cursor }
  | send {ids : List String} (reads : s.receiver = .acking ids) :
    Does s now none { s with receiver := .awaiting ids, acks := s.acks ++ [ids] }
  | answered {ids : List String} {failure : Option (String × String)} {time : Time}
    (reads : s.receiver = .awaiting ids) : Does s now none { s with
      receiver    := .idle
      deadLetters := s.deadLetters ++ (failure.map fun f => ackLetter f.1 f.2 ids time).toList }
  | leave : Does s now none { s with receiver := .idle }

theorem openRequest_eq {pid : ℕ} {cursor : Option ℤ} {limit : ℤ} (h : s.openRequest pid cursor limit = some t) :
    s.requests pid = none ∧ t = s.setRequest pid (some (.scanning (s.room.mailbox cursor limit))) := by
  unfold State.openRequest at h
  split at h
  case h_1 hfree => cases h; exact ⟨hfree, rfl⟩
  case h_2       => cases h

theorem does_of_run {now : ℕ} {action : Action} (h : s.run now action = some t) :
    Does s now (s.handled action) t := by
  cases action
  case publish envelope ttlSeconds id =>
    simp only [State.run] at h
    split at h
    case h_1 hfresh => cases h; exact .publish hfresh
    case h_2        => cases h
  case request pid cursor limit =>
    obtain ⟨hfree, ht⟩ := openRequest_eq h
    exact ht ▸ .request hfree
  case visit pid =>
    obtain ⟨q, hq, h⟩ := Option.bind_eq_some_iff.mp h
    cases q
    case reporting => cases h
    case scanning page =>
      simp only [State.visit] at h
      split at h
      case isTrue hc => cases h; exact .visit hq hc
      case isFalse   => cases h
  case report pid =>
    obtain ⟨q, hq, h⟩ := Option.bind_eq_some_iff.mp h
    cases q
    case scanning  => cases h
    case reporting => cases h; exact .report hq
  case reply pid =>
    obtain ⟨q, hq, h⟩ := Option.bind_eq_some_iff.mp h
    cases q
    case reporting => cases h
    case scanning page =>
      simp only [State.reply] at h
      split at h
      case isTrue     => cases h
      case isFalse hc => cases h; exact .reply hq (by simpa using hc)
  case lose pid => cases h; exact .lose
  case ack n =>
    obtain ⟨ids, hids, h⟩ := Option.map_eq_some_iff.mp h
    subst h
    exact .ack hids
  case drop n => cases h; exact .drop
  case poll =>
    obtain ⟨receiver, hr, h⟩ := Option.map_eq_some_iff.mp h
    subst h
    cases hs : s.receiver
    all_goals rw [hs] at hr; cases hr
    exact .poll hs
  case pull pid =>
    cases hs : s.receiver
    all_goals simp only [State.run, State.pull, hs, reduceCtorEq, Option.map_eq_some_iff] at h
    obtain ⟨t', ht', h⟩ := h
    obtain ⟨hfree, ht'⟩ := openRequest_eq ht'
    subst ht' h
    exact .pull hs hfree
  case handle =>
    obtain ⟨receiver, hr, h⟩ := Option.map_eq_some_iff.mp h
    subst h
    cases hs : s.receiver
    all_goals rw [hs] at hr
    case handling items ids =>
      cases items
      case nil  => cases hr
      case cons => cases hr; simp only [State.handled, hs]; exact .handle hs
    all_goals cases hr
  case bury peerId reason time =>
    cases hs : s.receiver
    all_goals simp only [State.run, State.bury, hs, reduceCtorEq] at h
    case handling items ids =>
      cases items
      case nil  => cases h
      case cons => cases h; exact .bury hs
  case retry =>
    obtain ⟨receiver, hr, h⟩ := Option.map_eq_some_iff.mp h
    subst h
    cases hs : s.receiver
    all_goals rw [hs] at hr
    case handling items ids =>
      cases items
      case nil  => cases hr
      case cons => cases hr; exact .retry (.inl hs)
    case handled => cases hr; exact .retry (.inr ⟨_, hs⟩)
    all_goals cases hr
  case advance =>
    cases hs : s.receiver
    all_goals simp only [State.run, State.advance, hs, reduceCtorEq] at h
    case handled => cases h; exact .advance (.inl hs)
    case buried  => cases h; exact .advance (.inr hs)
  case finish =>
    obtain ⟨receiver, hr, h⟩ := Option.map_eq_some_iff.mp h
    subst h
    cases hs : s.receiver
    all_goals rw [hs] at hr
    case handling items ids =>
      cases items
      case nil  => cases hr; exact .retry (.inl hs)
      case cons => cases hr
    all_goals cases hr
  case send =>
    cases hs : s.receiver
    all_goals simp only [State.run, State.send, hs, reduceCtorEq] at h
    case acking ids =>
      split at h
      case isTrue  => cases h; exact .leave
      case isFalse => cases h; exact .send hs
  case answered failure time =>
    cases hs : s.receiver
    all_goals simp only [State.run, State.answered, hs, reduceCtorEq] at h
    cases h
    exact .answered hs
  case leave => cases h; exact .leave

-- A step acknowledges what is under way to the relay, and nothing else.
theorem steps_of_does {now : ℕ} {handled : Option ℕ} (h : s.room.Ok) (hd : Does s now handled t) :
    Room.Steps s.acks.flatten now s.room t.room := by
  cases hd
  case publish hfresh => exact Room.steps_publish h hfresh
  case visit          => exact Room.steps_visit h
  case report         => exact Room.steps_sendDeadLetter h
  case ack hids =>
    apply Room.steps_ack h
    intro id hid
    exact List.mem_flatten.mpr ⟨_, List.mem_of_getElem? hids, hid⟩
  all_goals exact .refl h

end Inbox
end Relay
