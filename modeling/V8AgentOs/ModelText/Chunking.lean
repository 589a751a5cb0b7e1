import Mathlib.Data.List.TakeWhile
import V8AgentOs.ModelText.Guard

namespace ModelText

open Incremental Python

variable {text more after name tail rest : List Char} {c : Char} {final : Bool}
  {g : NativeToolTextGuard}

theorem prefix_append_cases {l a b : List Char} (h : l <+: a ++ b) :
    l <+: a ∨ ∃ u, l = a ++ u ∧ u <+: b := by
  cases List.prefix_or_prefix_of_prefix h (List.prefix_append a b)
  case inl h => exact .inl h
  case inr h' =>
    obtain ⟨u, rfl⟩ := h'
    exact .inr ⟨u, rfl, (List.prefix_append_right_inj a).mp h⟩

theorem lower_append : lower (text ++ more) = lower text ++ lower more :=
  List.map_append

theorem wrapper_iff : wrapper.isMatch text = true ↔ ∃ name rest,
    text = "]<]".toList ++ (name ++ ("[>[".toList ++ rest)) ∧ (∀ c ∈ name, isNameChar c) ∧
    1 ≤ name.length ∧ name.length ≤ 40 := by
  simp only [Re.isMatch_iff, wrapper, Re.mem_seq, Re.mem_lit, Re.mem_chars]
  constructor
  · rintro ⟨rest, _, rfl, _, ⟨name, rfl, hn, hlo, hhi⟩, rfl⟩
    exact ⟨name, rest, rfl, hn, hlo, hhi⟩
  · rintro ⟨name, rest, rfl, hn, hlo, hhi⟩
    exact ⟨rest, _, rfl, _, ⟨name, rfl, hn, hlo, hhi⟩, rfl⟩

theorem wrapperStart_iff : wrapperStart.isFullMatch text = true ↔ ∃ name tail,
    text = "]<]".toList ++ (name ++ tail) ∧ (∀ c ∈ name, isNameChar c) ∧ name.length ≤ 40 ∧
    tail <+: "[>".toList := by
  simp only [Re.isFullMatch_iff, wrapperStart, Re.mem_seq, Re.mem_lit, Re.mem_chars, Re.mem_opt,
    Re.mem_alt]
  constructor
  · rintro ⟨_, rfl, tail, ⟨name, rfl, hn, _, hhi⟩, ht⟩
    refine ⟨name, tail, rfl, hn, hhi, ?_⟩
    rcases ht with (rfl | rfl) | rfl <;> decide
  · rintro ⟨name, tail, rfl, hn, hhi, ht⟩
    refine ⟨_, rfl, tail, ⟨name, rfl, hn, Nat.zero_le _, hhi⟩, ?_⟩
    have : tail = [] ∨ tail = ['['] ∨ tail = ['[', '>'] := by
      simpa [List.prefix_cons_iff, and_or_left, exists_or] using ht
    rcases this with rfl | rfl | rfl <;> simp

-- Every cut of a wrapper before its last bracket is a partial wrapper.
theorem cut_wrapper (hn : ∀ c ∈ name, isNameChar c) (hlen : name.length ≤ 40)
    (ht : ∀ v, v <+: tail → text = "]<]".toList ++ (name ++ v) → v <+: "[>".toList)
    (h : text <+: "]<]".toList ++ (name ++ tail)) :
    text <+: "]<]".toList ∨ wrapperStart.isFullMatch text = true := by
  cases prefix_append_cases h
  case inl h => exact .inl h
  case inr h =>
    obtain ⟨u, rfl, hu⟩ := h
    right
    rw [wrapperStart_iff]
    cases prefix_append_cases hu
    case inl hu =>
      exact ⟨u, [], by simp, fun c hc => hn c (hu.subset hc), by have := hu.length_le; omega, by simp⟩
    case inr hu =>
      obtain ⟨v, rfl, hv⟩ := hu
      exact ⟨name, v, rfl, hn, hlen, ht v hv rfl⟩

theorem isProtocol_iff : isProtocol text = true ↔
    toolOpen <+: lower text ∨ wrapper.isMatch text = true := by
  simp [isProtocol]

theorem isPartial_iff : isPartial text = true ↔
    lower text <+: toolOpen ∨ text <+: "]<]".toList ∨ wrapperStart.isFullMatch text = true := by
  simp [isPartial]

theorem isProtocol_append (h : isProtocol text = true) : isProtocol (text ++ more) = true := by
  rw [isProtocol_iff] at h ⊢
  cases h
  case inl h => exact .inl (lower_append ▸ h.trans (List.prefix_append _ _))
  case inr h =>
    have ⟨name, rest, ht, hn⟩ := wrapper_iff.mp h
    exact .inr (wrapper_iff.mpr ⟨name, rest ++ more, by simp [ht], hn⟩)

-- What grows into protocol text is protocol text or a partial token already.
theorem isProtocol_of_append (h : isProtocol (text ++ more) = true) :
    isProtocol text = true ∨ isPartial text = true := by
  rw [isPartial_iff]
  cases isProtocol_iff.mp h
  case inl h =>
    have hp : lower text <+: lower (text ++ more) := lower_append ▸ List.prefix_append _ _
    cases List.prefix_or_prefix_of_prefix h hp
    case inl h => exact .inl (isProtocol_iff.mpr (.inl h))
    case inr h => exact .inr (.inl h)
  case inr h =>
    have ⟨name, rest, ht, hn, hlo, hhi⟩ := wrapper_iff.mp h
    by_cases hw : wrapper.isMatch text = true
    case pos => exact .inl (isProtocol_iff.mpr (.inr hw))
    case neg =>
      refine .inr (.inr (cut_wrapper hn hhi ?_ (ht ▸ List.prefix_append text more)))
      intro v hv htext
      have complete (w : List Char) : v ≠ "[>[".toList ++ w :=
        fun hw' => hw (wrapper_iff.mpr ⟨name, w, hw' ▸ htext, hn, hlo, hhi⟩)
      cases prefix_append_cases hv
      case inr hv => exact absurd hv.choose_spec.left (complete _)
      case inl hv =>
        have hne : v ≠ "[>[".toList := by simpa using complete []
        have hv : v <+: "[>".toList ++ ['['] := hv
        exact (List.prefix_concat_iff.mp hv).resolve_left hne

theorem isPartial_of_append (h : isPartial (text ++ more) = true) : isPartial text = true := by
  rw [isPartial_iff] at h ⊢
  rcases h with h | h | h
  · exact .inl ((lower_append ▸ List.prefix_append _ _).trans h)
  · exact .inr (.inl ((List.prefix_append _ _).trans h))
  · have ⟨name, tail, ht, hn, hlen, htail⟩ := wrapperStart_iff.mp h
    exact .inr (cut_wrapper hn hlen (fun v hv _ => hv.trans htail)
      (ht ▸ List.prefix_append text more))

theorem isBlank_append : isBlank (text ++ more) = (isBlank text && isBlank more) :=
  List.all_append

-- Whether the rest of a line is blank is known at its end, and as soon as it is not.
theorem isBlank_remainder_append (h : '\n' ∈ after ∨ isBlank (remainder after) = false) :
    isBlank (remainder (after ++ more)) = isBlank (remainder after) := by
  by_cases hn : '\n' ∈ after
  case pos =>
    have : ((after.takeWhile (· ≠ '\n')).length ≠ after.length) := by
      intro hl
      have := (List.takeWhile_prefix (l := after) (· ≠ '\n')).eq_of_length hl
      simpa using List.takeWhile_eq_self_iff.mp this _ hn
    rw [remainder, List.takeWhile_append, if_neg this, remainder]
  case neg =>
    have hall : ∀ a ∈ after, (a ≠ '\n' : Bool) := fun a ha => by
      have : a ≠ '\n' := fun h => hn (h ▸ ha)
      simpa using this
    have hr : remainder after = after := List.takeWhile_eq_self_iff.mpr hall
    have hb : isBlank after = false := by simpa [hn, hr] using h
    rw [remainder, List.takeWhile_append_of_pos hall, isBlank_append, hb, hr, hb, Bool.false_and]

namespace NativeToolTextGuard

theorem not_waits_emitToken {run : List Char} : ¬(g.emitToken c run).Waits := nofun

theorem observe_observe : g.observe.observe = g.observe := by
  unfold observe
  split <;> simp_all

theorem next_observe : next final g.observe c rest = next final g c rest := by
  simp only [next, observe_observe]

theorem closesFence_append {count : ℕ}
    (h : '\n' ∈ after ∨ g.closesFence c count after = false) :
    g.closesFence c count (after ++ more) = g.closesFence c count after := by
  unfold closesFence at h ⊢
  split
  case h_2 => rfl
  case h_1 fenceChar fenceCount hf =>
    by_cases hline : '\n' ∈ after ∨ isBlank (remainder after) = false
    case pos => rw [isBlank_remainder_append hline]
    case neg =>
      have ⟨hn, hb⟩ : '\n' ∉ after ∧ isBlank (remainder after) = true := by simpa using hline
      have : ¬(c = fenceChar ∧ fenceCount ≤ count ∧ g.atFence = true) := by
        simpa [hf, hn, hb] using h
      grind

theorem tickRun_decides {run : List Char} : ¬(tickRun true g c run after).Waits := by
  simp [tickRun, not_waits_emitToken]

theorem tickRun_stable {run : List Char} (h : ¬(tickRun false g c run after).Waits) :
    tickRun final g c run (after ++ more) = tickRun false g c run after := by
  have known : '\n' ∈ after ∨ g.closesFence c (run.length + 1) after = false := by
    by_contra hk
    exact h ⟨g, by simp_all [tickRun]⟩
  simp only [tickRun, closesFence_append known]
  cases known
  case inl hn => simp [hn]
  case inr hc => simp [hc]

theorem ticks_decides : ¬(ticks true g c rest).Waits := by
  simp [ticks, tickRun_decides]

theorem ticks_stable (h : ¬(ticks false g c rest).Waits) :
    ticks final g c (rest ++ more) = ticks false g c rest := by
  have ha : rest.dropWhile (· = c) ≠ [] := fun ha => h ⟨g, by simp [ticks, ha]⟩
  have hl : (rest.takeWhile (· = c)).length ≠ rest.length := by
    intro hl
    refine ha (List.dropWhile_eq_nil_iff.mpr ?_)
    exact List.takeWhile_eq_self_iff.mp ((List.takeWhile_prefix _).eq_of_length hl)
  have ht : (rest ++ more).takeWhile (· = c) = rest.takeWhile (· = c) := by
    rw [List.takeWhile_append, if_neg hl]
  have hd : (rest ++ more).dropWhile (· = c) = rest.dropWhile (· = c) ++ more := by
    rw [List.dropWhile_append, if_neg (by simpa using ha)]
  have he : rest.dropWhile (· = c) ++ more ≠ [] := fun h => ha (List.append_eq_nil_iff.mp h).left
  simp only [ticks, ht, hd, ha, he, false_and, if_false] at h ⊢
  exact tickRun_stable h

theorem protocol_decides : ¬(protocol true g c rest).Waits := by
  unfold protocol
  split_ifs <;> simp_all [Verdict.Waits, emitToken]

theorem protocol_stable (h : ¬(protocol false g c rest).Waits) :
    protocol final g c (rest ++ more) = protocol false g c rest := by
  unfold protocol
  rw [← List.cons_append]
  by_cases hp : isProtocol (c :: rest) = true
  case pos => rw [if_pos hp, if_pos (isProtocol_append hp)]
  case neg =>
    have hq : isPartial (c :: rest) ≠ true :=
      fun hq => h ⟨g, by simp [protocol, hp, hq]⟩
    have hp' : isProtocol (c :: rest ++ more) ≠ true :=
      fun h => (isProtocol_of_append h).elim hp hq
    have hq' : isPartial (c :: rest ++ more) ≠ true := fun h => hq (isPartial_of_append h)
    rw [if_neg hp, if_neg hp', if_neg hq, if_neg hq']

-- What an iteration leaves alone unless it detects a leak.
structure Keeps (g t : NativeToolTextGuard) : Prop where
  enabled : t.enabled = g.enabled
  pending : t.pending = g.pending
  leaked  : t.leaked = g.leaked

theorem Keeps.trans {g₁ g₂ g₃ : NativeToolTextGuard} (h₁ : g₁.Keeps g₂) (h₂ : g₂.Keeps g₃) :
    g₁.Keeps g₃ :=
  ⟨h₂.enabled.trans h₁.enabled, h₂.pending.trans h₁.pending, h₂.leaked.trans h₁.leaked⟩

theorem keeps_advance : g.Keeps (g.advance text) := by
  induction text generalizing g
  case nil => exact ⟨rfl, rfl, rfl⟩
  case cons c cs hi =>
    have h : g.Keeps (g.advanceChar c) := by
      unfold advanceChar
      split_ifs <;> exact ⟨rfl, rfl, rfl⟩
    exact h.trans hi

theorem keeps_endRun {count : ℕ} {closes : Bool} : g.Keeps (g.endRun c count closes) := by
  unfold endRun
  split_ifs <;> exact ⟨rfl, rfl, rfl⟩

theorem keeps_observe : g.Keeps g.observe := by
  unfold observe
  split_ifs <;> exact ⟨rfl, rfl, rfl⟩

-- The guard emits exactly what it consumes, and it waits in the state it is in.
def Fits (g : NativeToolTextGuard) (c : Char) (rest : List Char) :
    Verdict NativeToolTextGuard Char → Prop
  | .emit k out t => out = c :: rest.take k ∧ k ≤ rest.length ∧ g.Keeps t
  | .wait t     => t = g
  | .stop t     => t = { g with leaked := true }

theorem fits_emitToken {t : NativeToolTextGuard} {run : List Char} (hr : run <+: rest)
    (h : g.Keeps t) : g.Fits c rest (t.emitToken c run) :=
  ⟨congrArg _ (List.prefix_iff_eq_take.mp hr), hr.length_le, h.trans keeps_advance⟩

theorem ticks_fits : g.Fits c rest (ticks final g c rest) := by
  simp only [ticks, tickRun]
  split_ifs
  · rfl
  · rfl
  · exact fits_emitToken (List.takeWhile_prefix _) keeps_endRun

theorem protocol_fits : g.Fits c rest (protocol final g c rest) := by
  have emitted : g.Fits c rest (g.emitToken c []) := fits_emitToken List.nil_prefix ⟨rfl, rfl, rfl⟩
  unfold protocol
  split_ifs
  · rfl
  · rfl
  · rfl
  · exact emitted
  · exact emitted

theorem step_fits : g.Fits c rest (step final g c rest) := by
  unfold step
  split_ifs
  · exact fits_emitToken List.nil_prefix ⟨rfl, rfl, rfl⟩
  · exact fits_emitToken List.nil_prefix ⟨rfl, rfl, rfl⟩
  · exact ticks_fits
  · exact protocol_fits
  · exact fits_emitToken List.nil_prefix ⟨rfl, rfl, rfl⟩

theorem next_fits {v : Verdict NativeToolTextGuard Char} (h : next final g c rest = v) :
    g.observe.Fits c rest v :=
  h ▸ step_fits

theorem step_decides : ¬(step true g c rest).Waits := by
  unfold step
  split_ifs
  · exact not_waits_emitToken
  · exact not_waits_emitToken
  · exact ticks_decides
  · exact protocol_decides
  · exact not_waits_emitToken

theorem step_stable (h : ¬(step false g c rest).Waits) :
    step final g c (rest ++ more) = step false g c rest := by
  unfold step at h ⊢
  split_ifs at h ⊢
  · rfl
  · rfl
  · exact ticks_stable h
  · exact protocol_stable h
  · rfl

-- No decision of the guard depends on text that it has not seen.
theorem next_lawful : Lawful next where
  decides := step_decides
  stable h _ _ := step_stable h
  resumes {g t c cs} h final more := by
    rw [show t = g.observe from next_fits h, next_observe]
  within h := (next_fits h).right.left

-- A scan only changes what tracks the text, and it sets the leak flag exactly when it stops.
theorem scan_keeps (final : Bool) (g : NativeToolTextGuard) (text : List Char) :
    g.enabled = (scan next final g 0 text).state.enabled ∧
    g.pending = (scan next final g 0 text).state.pending ∧
    ((scan next final g 0 text).stopped = true → (scan next final g 0 text).state.leaked = true) ∧
    ((scan next final g 0 text).stopped = false →
      (scan next final g 0 text).state.leaked = g.leaked) := by
  have h : if (scan next final g 0 text).stopped then
      ∃ s, g.Keeps s ∧ (scan next final g 0 text).state = { s with leaked := true }
      else g.Keeps (scan next final g 0 text).state := by
    refine scan_state (P := g.Keeps) (Q := fun t => ∃ s, g.Keeps s ∧ t = { s with leaked := true })
      ⟨rfl, rfl, rfl⟩ ?emit ?wait ?stop
    case emit =>
      intro s c cs k out t hs hv
      exact (hs.trans keeps_observe).trans (next_fits hv).right.right
    case wait =>
      intro s c cs t hs hv
      exact next_fits hv ▸ hs.trans keeps_observe
    case stop =>
      intro s c cs t hs hv
      exact ⟨s.observe, hs.trans keeps_observe, next_fits hv⟩
  cases hstop : (scan next final g 0 text).stopped
  case false =>
    have h : g.Keeps (scan next final g 0 text).state := by simpa [hstop] using h
    exact ⟨h.enabled.symm, h.pending.symm, nofun, fun _ => h.leaked⟩
  case true =>
    have ⟨s, h, ht⟩ : ∃ s, g.Keeps s ∧ (scan next final g 0 text).state = { s with leaked := true } := by
      simpa [hstop] using h
    rw [ht]
    exact ⟨h.enabled.symm, h.pending.symm, fun _ => rfl, nofun⟩

@[simp]
theorem setPending_pending : (g.setPending text).pending = text := rfl

@[simp]
theorem setPending_setPending : (g.setPending text).setPending more = g.setPending more := rfl

theorem setPending_of_pending (h : g.pending = text) : g.setPending text = g := by
  subst h
  rfl

theorem feed_disabled (h : g.enabled = false) : g.feed text final = (text, g) := by
  simp [feed, h]

theorem feed_leaked (he : g.enabled = true) (hl : g.leaked = true) :
    g.feed text final = ([], g) := by
  simp [feed, he, hl]

theorem feed_active (he : g.enabled = true) (hl : g.leaked = false) : g.feed text final =
    ((scan next final (g.setPending []) 0 (g.pending ++ text)).output,
     (scan next final (g.setPending []) 0 (g.pending ++ text)).state.setPending
       (scan next final (g.setPending []) 0 (g.pending ++ text)).pending) := by
  rw [feed, if_neg (by simp [he]), if_neg (by simp [hl])]

-- Feeding a text in two pieces is feeding it at once.
theorem feed_append : g.feed (text ++ more) final =
    ((g.feed text false).fst ++ ((g.feed text false).snd.feed more final).fst,
     ((g.feed text false).snd.feed more final).snd) := by
  cases he : g.enabled
  case false => simp [feed_disabled he]
  case true =>
    cases hl : g.leaked
    case true => simp [feed_leaked he hl]
    case false =>
      have happ : scan next final (g.setPending []) 0 (g.pending ++ text ++ more) = _ :=
        next_lawful.scan_append (Nat.zero_le _)
      have ⟨hen, hpe, hst, hun⟩ := scan_keeps false (g.setPending []) (g.pending ++ text)
      rw [feed_active he hl, feed_active he hl, ← List.append_assoc, happ]
      generalize scan next false (g.setPending []) 0 (g.pending ++ text) = r at *
      have hback : r.state.setPending [] = r.state := setPending_of_pending hpe.symm
      have hen' : (r.state.setPending r.pending).enabled = true := hen.symm.trans he
      cases hs : r.stopped
      case true =>
        rw [feed_leaked hen' (hst hs)]
        simp [Scan.resume, hs]
      case false =>
        rw [feed_active hen' ((hun hs).trans hl), setPending_setPending, setPending_pending,
          hback]
        simp [Scan.resume, Scan.prepend, hs]

-- Feeds the chunks one by one, and then announces the end of the text.
def stream (g : NativeToolTextGuard) : List (List Char) → List Char × NativeToolTextGuard
  | []              => g.feed [] true
  | chunk :: chunks =>
    let fed := g.feed chunk false
    let rest := fed.snd.stream chunks
    (fed.fst ++ rest.fst, rest.snd)

theorem stream_eq_feed (chunks : List (List Char)) :
    g.stream chunks = g.feed chunks.flatten true := by
  induction chunks generalizing g
  case nil               => rfl
  case cons _ _ hi => rw [stream, hi, List.flatten_cons, feed_append]

theorem scan_final_text (g : NativeToolTextGuard) (text : List Char) :
    ∃ dropped, (scan next true g 0 text).output ++ dropped = text ∧
      ((scan next true g 0 text).stopped = false → dropped = []) := by
  have ⟨dropped, hd, hs⟩ : ∃ dropped, (scan next true g 0 text).output ++
      ((scan next true g 0 text).pending ++ dropped) = text.drop 0 ∧ _ :=
    scan_text (Nat.zero_le _) fun _ _ _ _ _ _ hv => ⟨(next_fits hv).left, (next_fits hv).right.left⟩
  exact ⟨dropped, by simpa [next_lawful.scan_final_pending] using hd, hs⟩

-- The streamed guard withholds nothing but a leak and what follows it.
theorem stream_output (enabled : Bool) (chunks : List (List Char)) :
    ((init enabled).stream chunks).fst <+: chunks.flatten ∧
    (((init enabled).stream chunks).snd.leaked = false →
      ((init enabled).stream chunks).fst = chunks.flatten) := by
  rw [stream_eq_feed]
  cases enabled
  case false => simp [feed_disabled (g := init false) rfl]
  case true =>
    rw [feed_active rfl rfl]
    have ⟨dropped, hd, hs⟩ := scan_final_text ((init true).setPending [])
      ((init true).pending ++ chunks.flatten)
    refine ⟨⟨dropped, hd⟩, fun hl => ?_⟩
    have ⟨_, _, hst, _⟩ := scan_keeps true ((init true).setPending [])
      ((init true).pending ++ chunks.flatten)
    have hns : (scan next true ((init true).setPending []) 0
        ((init true).pending ++ chunks.flatten)).stopped = false := by
      by_contra hne
      exact absurd (hl.symm.trans (hst (by simpa using hne))) nofun
    exact (List.append_nil _).symm.trans (hs hns ▸ hd)

end NativeToolTextGuard

-- The guard is independent of the chunks: the streamed guard has the output and the final state,
-- the leak flag included, of the guard that reads the text at once.
theorem chunking (chunks : List (List Char)) :
    (∀ enabled, (NativeToolTextGuard.init enabled).stream chunks =
      (NativeToolTextGuard.init enabled).feed chunks.flatten true) ∧
    hasNativeToolText chunks.flatten =
      ((NativeToolTextGuard.init true).stream chunks).snd.leaked := by
  refine ⟨fun _ => NativeToolTextGuard.stream_eq_feed chunks, ?_⟩
  rw [NativeToolTextGuard.stream_eq_feed, hasNativeToolText]

end ModelText
