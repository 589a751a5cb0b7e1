import Mathlib.Data.List.Basic

-- Scanners that receive their text in chunks.
--
-- A scanner looks at the unread text and either consumes some of it, or asks to see more before
-- it decides, or drops everything that follows. The result does not depend on the chunks when no
-- decision depends on text that has not been seen.
namespace Incremental

variable {σ α β : Type*}

-- What a scanner decides about an unread text `c :: rest` in a given state.
inductive Verdict (σ β : Type*)
  | emit (extra : ℕ) (output : List β) (next : σ) -- consumes `c` and `extra` further symbols
  | wait (next : σ)
  | stop (next : σ)

def Verdict.Waits (v : Verdict σ β) : Prop := ∃ s, v = .wait s

-- The flag tells whether the text is complete.
abbrev Scanner (σ α β : Type*) := Bool → σ → α → List α → Verdict σ β

structure Lawful (next : Scanner σ α β) : Prop where
  decides {s c cs} : ¬(next true s c cs).Waits
  stable {s c cs} : ¬(next false s c cs).Waits →
    ∀ final more, next final s c (cs ++ more) = next false s c cs
  resumes {s t c cs} : next false s c cs = .wait t →
    ∀ final more, next final t c (cs ++ more) = next final s c (cs ++ more)
  within {final s t c cs k out} : next final s c cs = .emit k out t → k ≤ cs.length

@[ext]
structure Scan (σ α β : Type*) where
  output  : List β
  state   : σ
  pending : List α
  stopped : Bool

namespace Scan

def prepend (out : List β) (r : Scan σ α β) : Scan σ α β :=
  { r with output := out ++ r.output }

-- Continues a scan in its state with its pending text, unless it has stopped.
def resume (r : Scan σ α β) (f : σ → List α → Scan σ α β) : Scan σ α β :=
  if r.stopped then r else (f r.state r.pending).prepend r.output

variable {r : Scan σ α β} {f : σ → List α → Scan σ α β} {out out' : List β}

@[simp]
theorem prepend_nil : r.prepend [] = r := rfl

@[simp]
theorem prepend_prepend : (r.prepend out').prepend out = r.prepend (out ++ out') := by
  simp [prepend]

theorem resume_prepend : (r.prepend out).resume f = (r.resume f).prepend out := by
  cases hr : r.stopped <;> simp [resume, prepend, hr]

end Scan

-- Scans a text after dropping the symbols that the last decision has consumed ahead.
def scan (next : Scanner σ α β) (final : Bool) : σ → ℕ → List α → Scan σ α β
  | s, _, []          => ⟨[], s, [], false⟩
  | s, k + 1, _ :: cs => scan next final s k cs
  | s, 0, c :: cs     =>
    match next final s c cs with
    | .emit k out t => (scan next final t k cs).prepend out
    | .wait t       => ⟨[], t, c :: cs, false⟩
    | .stop t       => ⟨[], t, [], true⟩

variable {next : Scanner σ α β} {final : Bool} {s t : σ} {c : α} {k n : ℕ} {cs text more : List α}
  {out : List β}

theorem scan_emit (h : next final s c cs = .emit k out t) :
    scan next final s 0 (c :: cs) = (scan next final t k cs).prepend out := by
  simp only [scan, h]

theorem scan_wait (h : next final s c cs = .wait t) :
    scan next final s 0 (c :: cs) = ⟨[], t, c :: cs, false⟩ := by
  simp only [scan, h]

theorem scan_stop (h : next final s c cs = .stop t) :
    scan next final s 0 (c :: cs) = ⟨[], t, [], true⟩ := by
  simp only [scan, h]

-- The symbols that a decision has consumed ahead are dropped.
theorem scan_drop : scan next final s k text = scan next final s 0 (text.drop k) := by
  induction text generalizing k
  case nil => cases k <;> rfl
  case cons c cs hi =>
    cases k
    case zero   => rfl
    case succ k => exact hi

theorem scan_congr (h : next final s c cs = next final t c cs) :
    scan next final s 0 (c :: cs) = scan next final t 0 (c :: cs) := by
  simp only [scan, h]

namespace Lawful

-- A text is scanned the same way in one piece and in two.
theorem scan_append (law : Lawful next) (hk : k ≤ text.length) :
    scan next final s k (text ++ more) =
      (scan next false s k text).resume fun t pending => scan next final t 0 (pending ++ more) := by
  induction text generalizing s k
  case nil =>
    obtain rfl : k = 0 := by simpa using hk
    simp [scan, Scan.resume]
  case cons c cs hi =>
    cases k
    case succ k => exact hi (by simpa using hk)
    case zero =>
      rw [List.cons_append]
      cases hv : next false s c cs
      case emit k out t =>
        have hs : next final s c (cs ++ more) = next false s c cs :=
          law.stable (by simp [hv, Verdict.Waits]) final more
        rw [scan_emit (hs.trans hv), scan_emit hv, Scan.resume_prepend, hi (law.within hv)]
      case wait t =>
        rw [scan_wait hv, scan_congr (law.resumes hv final more).symm]
        simp [Scan.resume]
      case stop t =>
        have hs : next final s c (cs ++ more) = next false s c cs :=
          law.stable (by simp [hv, Verdict.Waits]) final more
        rw [scan_stop (hs.trans hv), scan_stop hv]
        simp [Scan.resume]

-- A complete text leaves nothing pending.
theorem scan_final_pending (law : Lawful next) : (scan next true s k text).pending = [] := by
  induction text generalizing s k
  case nil => cases k <;> rfl
  case cons c cs hi =>
    cases k
    case succ k => exact hi
    case zero =>
      cases hv : next true s c cs
      case emit k out t => simpa [scan_emit hv, Scan.prepend] using hi
      case wait t       => exact absurd ⟨t, hv⟩ law.decides
      case stop t       => simp [scan_stop hv]

end Lawful

-- A property of the state that only a stop ends.
theorem scan_state {P Q : σ → Prop} (hs : P s)
    (emit : ∀ s c cs k out t, P s → next final s c cs = .emit k out t → P t)
    (wait : ∀ s c cs t, P s → next final s c cs = .wait t → P t)
    (stop : ∀ s c cs t, P s → next final s c cs = .stop t → Q t) :
    if (scan next final s k text).stopped then Q (scan next final s k text).state
    else P (scan next final s k text).state := by
  induction text generalizing s k
  case nil => cases k <;> exact hs
  case cons c cs hi =>
    cases k
    case succ k => exact hi hs
    case zero =>
      cases hv : next final s c cs
      case emit k out t => simpa [scan_emit hv, Scan.prepend] using hi (emit _ _ _ _ _ _ hs hv)
      case wait t       => simpa [scan_wait hv] using wait _ _ _ _ hs hv
      case stop t       => simpa [scan_stop hv] using stop _ _ _ _ hs hv

-- A scanner that emits what it consumes passes its text on, up to what it has not decided yet and
-- what it drops when it stops.
theorem scan_text {next : Scanner σ α α} {s : σ} (hk : k ≤ text.length)
    (transparent : ∀ s c cs k out t, next final s c cs = .emit k out t →
      out = c :: cs.take k ∧ k ≤ cs.length) :
    ∃ dropped, (scan next final s k text).output ++ ((scan next final s k text).pending ++ dropped) =
      text.drop k ∧ ((scan next final s k text).stopped = false → dropped = []) := by
  induction text generalizing s k
  case nil =>
    obtain rfl : k = 0 := by simpa using hk
    exact ⟨[], rfl, fun _ => rfl⟩
  case cons c cs hi =>
    cases k
    case succ k => exact hi (by simpa using hk)
    case zero =>
      cases hv : next final s c cs
      case emit k out t =>
        have ⟨hout, hk⟩ := transparent _ _ _ _ _ _ hv
        have ⟨dropped, hd, hs⟩ := hi (s := t) hk
        refine ⟨dropped, ?_, by simpa [scan_emit hv, Scan.prepend] using hs⟩
        rw [scan_emit hv, Scan.prepend, List.append_assoc, hd, hout]
        simp
      case wait t => exact ⟨[], by simp [scan_wait hv], fun _ => rfl⟩
      case stop t => exact ⟨c :: cs, by simp [scan_stop hv], by simp [scan_stop hv]⟩

end Incremental
