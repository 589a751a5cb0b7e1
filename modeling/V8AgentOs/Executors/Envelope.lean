import V8AgentOs.Lib.Cursor
import V8AgentOs.Executors.Jpeg

-- What `jpeg_dimensions` accepts, and that it raises nothing but its own errors.
namespace Executors.Media

open Cursor

variable {α β : Type} {data payload rest : List UInt8} {offset n : ℕ} {x : Read α} {f : α → Read β}

theorem bind_ok {b : β} : (x >>= f) = .ok b ↔ ∃ a, x = .ok a ∧ f a = .ok b := by
  cases x <;> simp [bind, Except.bind]

theorem require_ok {condition : Bool} {code : String} {status : ℕ} {u : Unit} :
    require condition code status = .ok u ↔ condition = true := by
  cases condition <;> simp [require]

theorem subscript_ok {b : UInt8} : subscript data offset = .ok b ↔ data[offset]? = some b := by
  rw [subscript]
  cases data[offset]? <;> simp

-- Whatever is raised is an `ExecutorError` with this status, and no `IndexError`.
def Answers (x : Read α) : Prop :=
  ∀ fault, x = .error fault → ∃ code, fault = .error code 400

namespace Answers

theorem ok {a : α} : Answers (.ok a) :=
  fun _ h => by cases h

theorem error {code : String} : Answers (.error (.error code 400) : Read α) :=
  fun _ h => ⟨code, by cases h; rfl⟩

theorem bind (h : Answers x) (hf : ∀ a, x = .ok a → Answers (f a)) : Answers (x >>= f) := by
  cases x
  case error fault =>
    intro _ e
    cases e
    exact h _ rfl
  case ok a => exact hf a rfl

theorem require {condition : Bool} {code : String} : Answers (require condition code 400) := by
  cases condition
  case false => exact .error
  case true => exact .ok

theorem subscript (h : offset < data.length) : Answers (subscript data offset) := by
  rw [Media.subscript, List.getElem?_eq_getElem h]
  exact .ok

-- After `require(condition, ..)`, `condition` holds.
theorem ensured {condition : Bool} {code : String} {f : Unit → Read β} (h : condition = true → Answers (f ())) :
    Answers (Media.require condition code 400 >>= f) :=
  .bind .require fun _ hc => h <| require_ok.mp hc

theorem read {f : UInt8 → Read β} (h : offset < data.length) (hf : ∀ b, data[offset]? = some b → Answers (f b)) :
    Answers (Media.subscript data offset >>= f) :=
  .bind (.subscript h) fun b hb => hf b <| subscript_ok.mp hb

end Answers

theorem fromBytes_toBytes (h : n < 65536) : fromBytes (toBytes n) = n := by
  simp only [fromBytes, toBytes, List.foldl_cons, List.foldl_nil, UInt8.toNat_ofNat']
  omega

theorem toBytes_fromBytes (a b : UInt8) : toBytes (fromBytes [a, b]) = [a, b] := by
  have ha := a.toNat_lt
  have hb := b.toNat_lt
  simp only [fromBytes, toBytes, List.foldl_cons, List.foldl_nil, List.cons.injEq, and_true,
    ← UInt8.toNat_inj, UInt8.toNat_ofNat']
  omega

theorem fromBytes_lt (a b : UInt8) : fromBytes [a, b] < 65536 := by
  have ha := a.toNat_lt
  have hb := b.toNat_lt
  simp only [fromBytes, List.foldl_cons, List.foldl_nil]
  omega

theorem app0_answers : Answers (app0 payload) := by
  apply Answers.ensured
  intro h
  have h : 14 ≤ payload.length := by simp at h; exact h.right
  exact .read (by omega) fun _ _ => .read (by omega) fun _ _ => .require

theorem frame_answers {dimensions : Option (ℕ × ℕ)} : Answers (frame dimensions payload) := by
  apply Answers.ensured
  intro h
  have h : 6 ≤ payload.length := by simp at h; exact h.right
  exact .read (by omega) fun _ _ => .ensured fun _ => .read (by omega) fun _ _ => .ensured fun _ =>
    .ensured fun _ => .ok

theorem scan_answers {r : Locals} : Answers (scan r payload) := by
  apply Answers.ensured
  intro _
  apply Answers.ensured
  intro h
  exact .read (by simp at h; omega) fun _ _ => .require

theorem app0_ok : app0 payload = .ok () ↔ Payload 0xE0 payload := by
  simp only [app0, bind_ok, require_ok, subscript_ok, Bool.and_eq_true, decide_eq_true_eq,
    List.isPrefixOf_iff_prefix]
  constructor
  case mp =>
    intro ⟨_, ⟨⟨rest, hp⟩, hl⟩, x, hx, y, hy, h⟩
    cases hp
    have e : rest = rest.take 7 ++ x :: y :: rest.drop 9 := by
      have h₁ := List.drop_eq_getElem_cons (l := rest) (i := 7) (by simp at hl; omega)
      have h₂ := List.drop_eq_getElem_cons (l := rest) (i := 8) (by simp at hl; omega)
      simp [List.getElem?_eq_some_iff] at hx hy
      rw [← hx.2, ← hy.2, ← h₂, ← h₁, List.take_append_drop]
    rw [e, ← List.append_assoc]
    apply Payload.jfif
    case _ => simp at hl ⊢; omega
    case _ => simp at h hl ⊢; omega
  case mpr =>
    intro h
    generalize e : (0xE0 : UInt8) = m at h
    cases h
    case jfif units thumbnail x y hu ht =>
      refine ⟨(), ⟨⟨units ++ x :: y :: thumbnail, by simp⟩, by simp; omega⟩, x, ?_, y, ?_, by simp; omega⟩
      case refine_1 => simp [hu]
      case refine_2 => simp [List.getElem?_append_right, hu]
    all_goals simp at e

theorem frame_ok {dimensions : Option (ℕ × ℕ)} {d : ℕ × ℕ} (k : ℕ) : frame dimensions payload = .ok d ↔
    dimensions = none ∧ ∃ f : Frame, f.fill = k ∧ f.payload = payload ∧ f.dimensions = d := by
  simp only [frame, bind_ok, require_ok, subscript_ok, Bool.and_eq_true, Bool.or_eq_true, decide_eq_true_eq]
  constructor
  case mp =>
    intro ⟨_, ⟨hn, hl⟩, p, hp, _, hp', c, hc, _, ⟨hcs, hl'⟩, _, ⟨⟨⟨⟨hw, hw'⟩, hh⟩, hh'⟩, ha⟩, hd⟩
    match payload, hl with
    | p₀ :: h₁ :: h₀ :: w₁ :: w₀ :: count :: components, _ =>
      cases hp
      cases hc
      cases hp'
      cases hd
      refine ⟨Option.isNone_iff_eq_none.mp hn, ⟨k, fromBytes [w₁, w₀], fromBytes [h₁, h₀], c, components,
        hcs, ?_, ⟨hw, hw'⟩, ⟨hh, hh'⟩, ha⟩, rfl, ?_, rfl⟩
      case refine_1 => simp at hl'; omega
      case refine_2 =>
        simp only [Frame.payload, toBytes_fromBytes]
        rfl
  case mpr =>
    intro ⟨hn, ⟨_, width, height, count, components, hcs, hl, hw, hh, ha⟩, _, hp, hd⟩
    cases hp
    cases hd
    have ew : fromBytes (toBytes width) = width := fromBytes_toBytes (by omega)
    have eh : fromBytes (toBytes height) = height := fromBytes_toBytes (by omega)
    refine ⟨(), ⟨by simp [hn], by simp [Frame.payload, toBytes]⟩, 8, rfl, (), rfl, count, rfl, (), ⟨hcs, ?_⟩, (), ?_,
      ?_⟩
    case refine_1 => simp [Frame.payload, toBytes, hl]; omega
    case refine_2 => exact ew.symm ▸ eh.symm ▸ ⟨⟨⟨hw, hh.left⟩, hh.right⟩, ha⟩
    case refine_3 => exact congrArg Except.ok <| congrArg₂ Prod.mk ew eh

theorem scan_ok {r : Locals} (k : ℕ) : scan r payload = .ok () ↔
    (r.scanned = false ∧ r.dimensions.isSome ∧ r.tables = {0xC4, 0xDB}) ∧
      ∃ s : Scan, s.fill = k ∧ s.payload = payload := by
  simp only [scan, bind_ok, require_ok, subscript_ok, Bool.and_eq_true, Bool.or_eq_true, decide_eq_true_eq,
    Bool.not_eq_true']
  constructor
  case mp =>
    intro ⟨_, ⟨⟨hs, hd⟩, ht⟩, _, hl, c, hc, ⟨hcs, hl'⟩, he⟩
    match payload, hl with
    | count :: components, _ =>
      cases hc
      have hl₃ : components.length = 2 * c.toNat + 3 := by simp at hl'; omega
      refine ⟨⟨hs, hd, ht⟩, ⟨k, c, components.take (2 * c.toNat), hcs, ?_⟩, rfl, ?_⟩
      case refine_1 => simp [hl₃]
      case refine_2 =>
        have : components.drop (2 * c.toNat) = [0x00, 0x3F, 0x00] := by
          rw [← he, slice, List.take_length, List.length_cons, hl₃]
          rfl
        rw [Scan.payload, ← this, List.take_append_drop]
  case mpr =>
    intro ⟨⟨hs, hd, ht⟩, ⟨_, count, components, hcs, hl⟩, _, hp⟩
    cases hp
    refine ⟨(), ⟨⟨hs, hd⟩, ht⟩, (), ?_, count, rfl, ⟨hcs, ?_⟩, ?_⟩
    case refine_1 =>
      have : 1 ≤ count.toNat := hcs.elim (fun h => by simp [h]) (fun h => by simp [h])
      simp [Scan.payload, hl]
      omega
    case refine_2 => simp [Scan.payload, hl]; omega
    case refine_3 =>
      rw [slice, List.take_length]
      simp [Scan.payload]

theorem fill_answers {n : ℕ} (h : data.length - offset < n) : Answers (fill data n offset) := by
  induction n generalizing offset
  case zero => omega
  case succ n hi =>
    rw [fill]
    split
    case isFalse => exact .ok
    case isTrue hlt =>
      apply Answers.read hlt
      intro b _
      split
      case isTrue => exact hi (by omega)
      case isFalse => exact .ok

-- The loop stops behind all the fill bytes,
theorem fill_ok {offset' : ℕ} (h : fill data n offset = .ok offset') (a : At data offset rest) :
    ∃ k rest', rest = List.replicate k 0xFF ++ rest' ∧ At data offset' rest' ∧ rest'.head? ≠ some 0xFF := by
  induction n generalizing offset rest
  case zero => cases h
  case succ n hi =>
    rw [fill] at h
    split at h
    case isFalse hlt =>
      cases h
      have e : rest = [] := by simpa [a.lt_iff] using hlt
      exact ⟨0, rest, rfl, a, by simp [e]⟩
    case isTrue =>
      have ⟨b, hb, h⟩ := bind_ok.mp h
      rw [subscript_ok, ← Nat.add_zero offset, a.getElem? 0] at hb
      cases rest
      case nil => cases hb
      case cons b' rest =>
        cases hb
        split at h
        case isFalse hne =>
          cases h
          exact ⟨0, _, rfl, a, by simpa using hne⟩
        case isTrue he =>
          have ⟨k, rest', hr, h⟩ := hi h a.next
          exact ⟨k + 1, rest', by rw [he, hr]; rfl, h⟩

-- and it finds them all.
theorem fill_replicate {k : ℕ} {b : UInt8} (a : At data offset (List.replicate k 0xFF ++ b :: rest)) (hb : b ≠ 0xFF)
    (hn : k < n) : fill data n offset = .ok (offset + k) := by
  induction k generalizing offset n
  case zero =>
    have hlt : offset < data.length := a.lt_iff.mpr (by simp)
    have e : subscript data offset = .ok b := subscript_ok.mpr (a.getElem? 0)
    cases n
    case zero => omega
    case succ => simp [fill, hlt, e, hb, bind, Except.bind, pure, Except.pure]
  case succ k hi =>
    have hlt : offset < data.length := a.lt_iff.mpr (by simp [List.replicate_succ])
    have e : subscript data offset = .ok 0xFF := subscript_ok.mpr (a.getElem? 0)
    cases n
    case zero => omega
    case succ n =>
      have := hi (n := n) a.next (by omega)
      simp [fill, hlt, e, bind, Except.bind, this]
      omega

theorem find_eq (a : At data offset rest) : find data offset = (rest.findIdx? (· == 0xFF)).map (offset + ·) := by
  rw [find, a.left]

theorem find_pieces {i : ℕ} (h : rest.findIdx? (· == 0xFF) = some i) :
    ∃ (plain : List Piece) (rest' : List UInt8), rest = plain.flatMap Piece.bytes ++ 0xFF :: rest' ∧
      (plain.flatMap Piece.bytes).length = i := by
  induction rest generalizing i
  case nil => cases h
  case cons b rest hi =>
    rw [List.findIdx?_cons] at h
    split at h
    case isTrue hb =>
      cases h
      have hb : b = 0xFF := by simpa using hb
      exact ⟨[], rest, by rw [hb]; rfl, rfl⟩
    case isFalse hb =>
      have ⟨j, hj, e⟩ := Option.map_eq_some_iff.mp h
      cases e
      have ⟨plain, rest', hr, hl⟩ := hi hj
      exact ⟨.byte b (by simpa using hb) :: plain, rest', by rw [hr]; rfl, by simp [Piece.bytes, ← hl, Nat.add_comm]⟩

theorem entropy_answers (h : data.length - offset < n) : Answers (entropy data n offset) := by
  induction n generalizing offset
  case zero => omega
  case succ n hi =>
    rw [entropy]
    split
    case isFalse => exact .ok
    case isTrue hlt =>
      split
      case h_1 => exact .error
      case h_2 found hf =>
        have hle : offset ≤ found := by
          rw [find] at hf
          have ⟨i, _, e⟩ := Option.map_eq_some_iff.mp hf
          omega
        apply Answers.ensured
        intro hb
        apply Answers.read (by simpa using hb)
        intro b _
        split
        case isTrue => exact hi (by omega)
        case isFalse => exact .ok

theorem entropy_ok {offset' : ℕ} (h : entropy data n offset = .ok offset') (a : At data offset rest) :
    ∃ (pieces : List Piece) (rest' : List UInt8),
      rest = pieces.flatMap Piece.bytes ++ rest' ∧ At data offset' rest' := by
  induction n generalizing offset rest
  case zero => cases h
  case succ n hi =>
    rw [entropy] at h
    split at h
    case isFalse =>
      cases h
      exact ⟨[], rest, rfl, a⟩
    case isTrue =>
      rw [find_eq a] at h
      split at h
      case h_1 => cases h
      case h_2 found hf =>
        have ⟨i, hf, e⟩ := Option.map_eq_some_iff.mp hf
        have ⟨plain, rest', hr, hl⟩ := find_pieces hf
        cases e
        cases hr
        have a' := hl ▸ a.append
        have ⟨_, _, h⟩ := bind_ok.mp h
        have ⟨b, hb, h⟩ := bind_ok.mp h
        rw [subscript_ok, a'.getElem? 1] at hb
        cases rest'
        case nil => cases hb
        case cons b' rest' =>
          cases hb
          split at h
          case isTrue hs =>
            have ⟨pieces, rest', hr, a⟩ := hi h a'.next.next
            exact ⟨plain ++ .stuffed b hs :: pieces, rest', by simp [Piece.bytes, hr], a⟩
          case isFalse =>
            cases h
            exact ⟨plain, _, rfl, a'⟩

theorem entropy_byte {b : UInt8} (hb : b ≠ 0xFF) (a : At data offset (b :: rest)) (hr : rest ≠ []) :
    entropy data n offset = entropy data n (offset + 1) := by
  cases n
  case zero => rfl
  case succ n =>
    have hf : find data offset = find data (offset + 1) := by
      rw [find_eq a, find_eq a.next, List.findIdx?_cons, if_neg (by simpa using hb), Option.map_map]
      apply congrArg₂ Option.map _ rfl
      funext i
      simp only [Function.comp]
      omega
    rw [entropy, entropy, hf, if_pos (a.lt_iff.mpr (by simp)), if_pos (a.next.lt_iff.mpr hr)]

theorem entropy_mark {b : UInt8} (a : At data offset (0xFF :: b :: rest)) :
    entropy data (n + 1) offset = if stuffing b then entropy data n (offset + 2) else .ok offset := by
  have hl : offset < data.length := a.lt_iff.mpr (by simp)
  have hl' : offset + 1 < data.length := a.next.lt_iff.mpr (by simp)
  have hf : find data offset = some offset := by rw [find_eq a]; rfl
  have hs : subscript data (offset + 1) = .ok b := subscript_ok.mpr (a.getElem? 1)
  simp [entropy, hl, hl', hf, hs, require, bind, Except.bind, pure, Except.pure]

theorem length_pieces {pieces : List Piece} : pieces.length ≤ (pieces.flatMap Piece.bytes).length := by
  induction pieces
  case nil => exact Nat.le_refl _
  case cons piece pieces hi =>
    rw [List.flatMap_cons, List.length_append, List.length_cons]
    cases piece
    case byte => exact Nat.add_comm _ _ ▸ Nat.add_le_add_left hi 1
    case stuffed =>
      simp only [Piece.bytes, List.length_cons, List.length_nil]
      omega

theorem entropy_pieces {pieces : List Piece} {b : UInt8}
    (a : At data offset (pieces.flatMap Piece.bytes ++ 0xFF :: b :: rest)) (hb : stuffing b = false)
    (hn : pieces.length < n) :
    entropy data n offset = .ok (offset + (pieces.flatMap Piece.bytes).length) := by
  induction pieces generalizing offset n
  case nil =>
    cases n
    case zero => cases hn
    case succ n =>
      rw [entropy_mark a, hb]
      rfl
  case cons piece pieces hi =>
    rw [List.flatMap_cons, List.append_assoc] at a
    cases piece
    case byte b' hb' =>
      rw [entropy_byte hb' a (by simp), hi a.next (Nat.lt_of_succ_lt hn)]
      simp [Piece.bytes]
      omega
    case stuffed b' hb' =>
      cases n
      case zero => cases hn
      case succ n =>
        rw [entropy_mark a, if_pos hb', hi a.next.next (Nat.lt_of_succ_lt_succ hn)]
        simp [Piece.bytes]
        omega

section Absorb

variable {r r' : Locals} {marker : UInt8}

abbrev markers : List UInt8 := [0xC0, 0xC4, 0xDB, 0xDD, 0xDA, 0xE0]

-- What may follow at the offset of these variables
def Locals.Follows (r : Locals) (rest : List UInt8) (d : ℕ × ℕ) : Prop :=
  Media.Follows r.dimensions r.scanned r.tables rest d

theorem Payload.legal (h : Payload marker payload) : marker ∈ markers ∧ stuffing marker = false := by
  cases h <;> exact ⟨by simp [markers], rfl⟩

theorem absorb_app0 : absorb data 0xE0 payload r = app0 payload >>= fun _ => .ok r := by
  simp [absorb, pure, Except.pure, bind, Except.bind]

theorem absorb_table (h : marker = 0xC4 ∨ marker = 0xDB) : absorb data marker payload r =
    require (!payload.isEmpty) "jpeg_table_invalid" 400 >>= fun _ =>
      .ok { r with tables := tabled r.tables marker } := by
  cases h <;> cases ‹_ = _› <;> cases payload <;>
    simp [absorb, tabled, require, pure, Except.pure, bind, Except.bind]

theorem absorb_restart : absorb data 0xDD payload r = .ok r := by
  simp [absorb, pure, Except.pure, bind, Except.bind]

theorem absorb_frame : absorb data 0xC0 payload r =
    frame r.dimensions payload >>= fun d => .ok { r with dimensions := some d } := by
  rw [absorb]
  cases frame r.dimensions payload <;> simp [pure, Except.pure, bind, Except.bind]

theorem absorb_scan : absorb data 0xDA payload r =
    scan r payload >>= fun _ => entropy data (data.length + 1) r.offset >>= fun offset =>
      .ok ⟨offset, r.dimensions, true, r.tables⟩ := by
  simp [absorb, pure, Except.pure, bind, Except.bind]

theorem absorb_answers (hm : marker ∈ markers) : Answers (absorb data marker payload r) := by
  simp only [markers, List.mem_cons, List.not_mem_nil, or_false] at hm
  obtain h | h | h | h | h | h := hm <;> cases h
  case inl =>
    rw [absorb_frame]
    exact .bind frame_answers fun _ _ => .ok
  case inr.inl =>
    rw [absorb_table (.inl rfl)]
    exact .ensured fun _ => .ok
  case inr.inr.inl =>
    rw [absorb_table (.inr rfl)]
    exact .ensured fun _ => .ok
  case inr.inr.inr.inl =>
    rw [absorb_restart]
    exact .ok
  case inr.inr.inr.inr.inl =>
    rw [absorb_scan]
    exact .bind scan_answers fun _ _ => .bind (entropy_answers (by omega)) fun _ _ => .ok
  case inr.inr.inr.inr.inr =>
    rw [absorb_app0]
    exact .bind app0_answers fun _ _ => .ok

theorem absorb_segment (s : Segment) : absorb data s.marker s.payload r =
    .ok { r with tables := tabled r.tables s.marker } := by
  cases s
  case mk fill marker payload fits sound =>
    simp only
    cases sound
    case jfif hu ht =>
      rw [absorb_app0, app0_ok.mpr (.jfif hu ht)]
      rfl
    case huffman h =>
      rw [absorb_table (.inl rfl), require_ok (u := ()) |>.mpr (by simpa using h)]
      rfl
    case quantization h =>
      rw [absorb_table (.inr rfl), require_ok (u := ()) |>.mpr (by simpa using h)]
      rfl
    case restart =>
      rw [absorb_restart]
      rfl

theorem absorb_ok (k : ℕ) (hm : marker ∈ markers) (hl : payload.length + 2 < 65536)
    (h : absorb data marker payload r = .ok r') (a : At data r.offset rest) :
    ∃ read rest', rest = read ++ rest' ∧ At data r'.offset rest' ∧
      ∀ d, r'.Follows rest' d → r.Follows (delimited k marker payload ++ rest) d := by
  have sound (hp : Payload marker payload) (h : r' = { r with tables := tabled r.tables marker }) :
      ∃ read rest', rest = read ++ rest' ∧ At data r'.offset rest' ∧
        ∀ d, r'.Follows rest' d → r.Follows (delimited k marker payload ++ rest) d := by
    cases h
    exact ⟨[], rest, rfl, a, fun d h => .segment ⟨k, marker, payload, hl, hp⟩ h⟩
  simp only [markers, List.mem_cons, List.not_mem_nil, or_false] at hm
  obtain h' | h' | h' | h' | h' | h' := hm <;> cases h'
  case inl =>
    rw [absorb_frame] at h
    have ⟨d, hf, hr⟩ := bind_ok.mp h
    have ⟨hn, f, hk, hp, hd⟩ := (frame_ok k).mp hf
    cases hr
    cases hk
    cases hp
    cases hd
    refine ⟨[], rest, rfl, a, fun d h => ?_⟩
    rw [Locals.Follows, hn]
    exact .frame f h
  case inr.inl =>
    rw [absorb_table (.inl rfl)] at h
    have ⟨_, hp, h⟩ := bind_ok.mp h
    cases h
    exact sound (.huffman (by simpa using require_ok.mp hp)) rfl
  case inr.inr.inl =>
    rw [absorb_table (.inr rfl)] at h
    have ⟨_, hp, h⟩ := bind_ok.mp h
    cases h
    exact sound (.quantization (by simpa using require_ok.mp hp)) rfl
  case inr.inr.inr.inl =>
    rw [absorb_restart] at h
    cases h
    exact sound .restart rfl
  case inr.inr.inr.inr.inl =>
    rw [absorb_scan] at h
    have ⟨_, hc, h⟩ := bind_ok.mp h
    have ⟨offset, he, h⟩ := bind_ok.mp h
    have ⟨⟨hs, hd, ht⟩, s, hk, hp⟩ := (scan_ok k).mp hc
    have ⟨pieces, rest', hr, a⟩ := entropy_ok he a
    cases h
    cases hk
    cases hp
    refine ⟨_, rest', hr, a, fun d h => ?_⟩
    have ⟨d', hd⟩ := Option.isSome_iff_exists.mp hd
    rw [Locals.Follows, hd, hs, ht, hr]
    rw [Locals.Follows, hd, ht] at h
    exact .scan s pieces h
  case inr.inr.inr.inr.inr =>
    rw [absorb_app0] at h
    have ⟨_, hp, h⟩ := bind_ok.mp h
    cases h
    exact sound (app0_ok.mp hp) rfl

end Absorb

theorem readMarker_answers (h : offset < data.length) : Answers (readMarker data offset) := by
  apply Answers.read h
  intro _ _
  apply Answers.ensured
  intro _
  apply Answers.bind (fill_answers (by omega))
  intro _ _
  apply Answers.ensured
  intro hl
  exact .read (by simpa using hl) fun _ _ => .ok

theorem readMarker_ok {m : UInt8} {offset' : ℕ} (h : readMarker data offset = .ok (m, offset'))
    (a : At data offset rest) :
    ∃ k rest', rest = marked k m ++ rest' ∧ m ≠ 0xFF ∧ At data offset' rest' := by
  have ⟨b, hb, h⟩ := bind_ok.mp h
  have ⟨_, he, h⟩ := bind_ok.mp h
  have ⟨o, ho, h⟩ := bind_ok.mp h
  have ⟨_, _, h⟩ := bind_ok.mp h
  have ⟨m', hm, h⟩ := bind_ok.mp h
  cases h
  have ⟨k, rest', hr, a', hh⟩ := fill_ok ho a
  rw [subscript_ok, ← Nat.add_zero o, a'.getElem? 0] at hm
  rw [subscript_ok, ← Nat.add_zero offset, a.getElem? 0, hr] at hb
  have he : b = 255 := by simpa using require_ok.mp he
  cases rest'
  case nil => cases hm
  case cons m' rest' =>
    cases hm
    have hne : m ≠ 0xFF := by simpa using hh
    cases k
    case zero =>
      cases hb
      exact absurd he hne
    case succ k => exact ⟨k, rest', by simp [hr, marked], hne, a'.next⟩

theorem readMarker_marked {k : ℕ} {m : UInt8} (hm : m ≠ 0xFF) (a : At data offset (marked k m ++ rest)) :
    readMarker data offset = .ok (m, offset + (marked k m).length) := by
  have hr : marked k m ++ rest = List.replicate (k + 1) 0xFF ++ m :: rest := by simp [marked]
  rw [hr] at a
  have hb : subscript data offset = .ok 0xFF := subscript_ok.mpr (a.getElem? 0)
  have hk : k + 1 < data.length + 1 := by
    have := a.length
    simp at this
    omega
  have hf := fill_replicate a hm hk
  have a' : At data (offset + (k + 1)) (m :: rest) := by simpa using a.append
  have hl : offset + (k + 1) < data.length := a'.lt_iff.mpr (by simp)
  have hs : subscript data (offset + (k + 1)) = .ok m := subscript_ok.mpr (a'.getElem? 0)
  simp [readMarker, hb, hf, hl, hs, marked, require, bind, Except.bind, pure, Except.pure]
  omega

theorem readPayload_answers : Answers (readPayload data offset) :=
  .ensured fun _ => .ensured fun _ => .ok

theorem readPayload_ok {offset' : ℕ} (h : readPayload data offset = .ok (payload, offset'))
    (a : At data offset rest) :
    ∃ rest', rest = toBytes (payload.length + 2) ++ payload ++ rest' ∧ payload.length + 2 < 65536 := by
  have ⟨_, hl, h⟩ := bind_ok.mp h
  have ⟨_, hl', h⟩ := bind_ok.mp h
  cases h
  have hd := a.length
  have hs (n m : ℕ) : slice data (offset + n) (offset + m) = (rest.take m).drop n := a.slice n m
  have hs₀ := hs 0 2
  rw [Nat.add_zero] at hs₀
  rw [hs₀, hs]
  rw [hs₀] at hl'
  match rest with
  | [] | [_] => simp [require_ok] at hl hd; omega
  | b₁ :: b₀ :: rest =>
    have e : ((b₁ :: b₀ :: rest).take 2).drop 0 = [b₁, b₀] := rfl
    rw [e] at hl' ⊢
    simp only [require_ok, Bool.and_eq_true, decide_eq_true_eq] at hl'
    obtain ⟨n, hn⟩ := Nat.exists_eq_add_of_le' hl'.left
    have hlt := fromBytes_lt b₁ b₀
    have hb := toBytes_fromBytes b₁ b₀
    rw [hn] at hl' hlt hb ⊢
    have hp : ((b₁ :: b₀ :: rest).take (n + 2)).drop 2 = rest.take n := by simp
    have hn' : (rest.take n).length = n := by
      rw [List.length_take]
      simp at hd
      omega
    rw [hp, hn', hb]
    exact ⟨rest.drop n, by simp, hlt⟩

theorem readPayload_delimited (hl : payload.length + 2 < 65536)
    (a : At data offset (toBytes (payload.length + 2) ++ payload ++ rest)) :
    readPayload data offset = .ok (payload, offset + (payload.length + 2)) := by
  have hd := a.length
  have hs (n m : ℕ) : slice data (offset + n) (offset + m) =
      ((toBytes (payload.length + 2) ++ payload ++ rest).take m).drop n := a.slice n m
  have hs₀ : slice data offset (offset + 2) = toBytes (payload.length + 2) := hs 0 2
  have hs₁ : slice data (offset + 2) (offset + (payload.length + 2)) = payload := by
    rw [hs]
    simp [toBytes]
  rw [readPayload, hs₀, fromBytes_toBytes hl]
  simp [toBytes] at hd
  have h₁ : offset + 2 ≤ data.length := by omega
  have h₂ : offset + (payload.length + 2) ≤ data.length := by omega
  simp [h₁, h₂, hs₁, require, bind, Except.bind, pure, Except.pure]

section Turns

variable {r r' : Locals} {marker : UInt8} {d : ℕ × ℕ}

theorem turn_answers (h : r.offset < data.length) : Answers (turn data r) := by
  apply Answers.bind (readMarker_answers h)
  intro (marker, offset) _
  dsimp only
  split
  case isTrue =>
    split
    case h_1 => exact .error
    case h_2 => exact .ensured fun _ => .ok
  case isFalse =>
    apply Answers.ensured
    intro hm
    exact .bind readPayload_answers fun _ _ => .bind (absorb_answers (by simpa using hm)) fun _ _ => .ok

theorem turn_stop {k : ℕ} (a : At data r.offset (marked k 0xD9)) (hd : r.dimensions = some d)
    (hs : r.scanned = true) : turn data r = .ok (.inl d) := by
  have hm : readMarker data r.offset = .ok (0xD9, _) :=
    readMarker_marked (k := k) (by decide) (by rwa [List.append_nil])
  have hl := a.length
  simp [turn, hm, hd, hs, hl, require, bind, Except.bind, pure, Except.pure]

theorem turn_delimited {k : ℕ} (hm : marker ∈ markers) (hl : payload.length + 2 < 65536)
    (a : At data r.offset (delimited k marker payload ++ rest)) :
    turn data r = absorb data marker payload { r with offset := r.offset + (delimited k marker payload).length }
      >>= fun r => .ok (.inr r) := by
  have ha : delimited k marker payload ++ rest =
      marked k marker ++ (toBytes (payload.length + 2) ++ payload ++ rest) := by simp [delimited]
  have hne : marker ≠ 0xFF ∧ marker ≠ 0xD9 := by
    constructor <;> intro h <;> cases h <;> simp [markers] at hm
  rw [ha] at a
  have h₁ := readMarker_marked hne.left a
  have h₂ := readPayload_delimited hl a.append
  have he : r.offset + (delimited k marker payload).length =
      r.offset + (marked k marker).length + (payload.length + 2) := by
    simp [delimited, toBytes]
    omega
  rw [turn, h₁, he]
  simp [hne.right, hm, h₂, require, bind, Except.bind, pure, Except.pure]

theorem turn_ok {result : ℕ × ℕ ⊕ Locals} (h : turn data r = .ok result) (a : At data r.offset rest) :
    (∃ k d, rest = marked k 0xD9 ∧ r.dimensions = some d ∧ r.scanned = true ∧ result = .inl d) ∨
      ∃ k marker payload rest', rest = delimited k marker payload ++ rest' ∧ marker ∈ markers ∧
        payload.length + 2 < 65536 := by
  have ⟨(m, o), hm, h⟩ := bind_ok.mp h
  have ⟨k, rest', hr, hne, a'⟩ := readMarker_ok hm a
  dsimp only at h
  split at h
  case isTrue he =>
    cases he
    split at h
    case h_1 => cases h
    case h_2 d hd =>
      have ⟨_, hc, h⟩ := bind_ok.mp h
      cases h
      have ⟨hs, ho⟩ : r.scanned = true ∧ o = data.length := by simpa using require_ok.mp hc
      have e : rest' = [] := List.eq_nil_of_length_eq_zero (by have := a'.length; omega)
      exact .inl ⟨k, d, by rw [hr, e, List.append_nil], hd, hs, rfl⟩
  case isFalse he =>
    have ⟨_, hc, h⟩ := bind_ok.mp h
    have ⟨(payload, o'), hp, h⟩ := bind_ok.mp h
    have ⟨rest'', hr', hl⟩ := readPayload_ok hp a'
    refine .inr ⟨k, m, payload, rest'', ?_, by simpa using require_ok.mp hc, hl⟩
    rw [hr, hr']
    simp [delimited]

theorem turns_answers {n : ℕ} (a : At data r.offset rest) (hn : rest.length < n) : Answers (turns data n r) := by
  induction n generalizing r rest
  case zero => omega
  case succ n hi =>
    rw [turns]
    split
    case isFalse => exact .error
    case isTrue hlt =>
      apply Answers.bind (turn_answers hlt)
      intro result ht
      cases result
      case inl => exact .ok
      case inr r' =>
        obtain ⟨_, _, _, _, _, h⟩ | ⟨k, m, payload, rest', hr, hm, hl⟩ := turn_ok ht a
        case inl => cases h
        case inr =>
          cases hr
          rw [turn_delimited hm hl a] at ht
          have ⟨_, hb, e⟩ := bind_ok.mp ht
          cases e
          have ⟨read, rest'', hr, a', _⟩ := absorb_ok k hm hl hb a.append
          apply hi a'
          rw [hr] at hn
          simp [delimited, marked] at hn
          omega

theorem turns_ok {n : ℕ} (h : turns data n r = .ok d) (a : At data r.offset rest) : r.Follows rest d := by
  induction n generalizing r rest
  case zero => cases h
  case succ n hi =>
    rw [turns] at h
    split at h
    case isFalse => cases h
    case isTrue =>
      have ⟨result, ht, h⟩ := bind_ok.mp h
      obtain ⟨k, d', hr, hd, hs, e⟩ | ⟨k, m, payload, rest', hr, hm, hl⟩ := turn_ok ht a
      case inl =>
        cases e
        cases h
        rw [Locals.Follows, hd, hs, hr]
        exact .stop k
      case inr =>
        cases hr
        rw [turn_delimited hm hl a] at ht
        have ⟨r', hb, e⟩ := bind_ok.mp ht
        cases e
        have ⟨_, _, _, a', hf⟩ := absorb_ok k hm hl hb a.append
        exact hf d <| hi h a'

theorem marked_head {k : ℕ} (h : stuffing marker = false) :
    ∃ b rest', marked k marker ++ rest = 0xFF :: b :: rest' ∧ stuffing b = false := by
  cases k
  case zero => exact ⟨marker, rest, rfl, h⟩
  case succ k => exact ⟨0xFF, List.replicate k 0xFF ++ marker :: rest, by simp [marked, List.replicate_succ], rfl⟩

-- What follows starts with a marker that entropy data cannot hold.
theorem follows_head {dimensions : Option (ℕ × ℕ)} {scanned : Bool} {tables : Finset UInt8}
    (h : Follows dimensions scanned tables rest d) :
    ∃ b rest', rest = 0xFF :: b :: rest' ∧ stuffing b = false := by
  cases h
  case stop k =>
    have : ∃ b rest', marked k 0xD9 ++ [] = 0xFF :: b :: rest' ∧ stuffing b = false := marked_head rfl
    rwa [List.append_nil] at this
  case segment s _ =>
    simp only [Segment.bytes, delimited, List.append_assoc]
    exact marked_head s.sound.legal.right
  case frame =>
    simp only [Frame.bytes, delimited, List.append_assoc]
    exact marked_head rfl
  case scan =>
    simp only [Scan.bytes, delimited, List.append_assoc]
    exact marked_head rfl

theorem turns_absorb {n k : ℕ} (hm : marker ∈ markers) (hl : payload.length + 2 < 65536)
    (a : At data r.offset (delimited k marker payload ++ rest))
    (h : absorb data marker payload { r with offset := r.offset + (delimited k marker payload).length } = .ok r') :
    turns data (n + 1) r = turns data n r' := by
  have hlt : r.offset < data.length := a.lt_iff.mpr (by simp [delimited, marked])
  rw [turns, if_pos hlt, turn_delimited hm hl a, h]
  rfl

theorem turns_follows {n : ℕ} {dimensions : Option (ℕ × ℕ)} {scanned : Bool} {tables : Finset UInt8}
    (h : Follows dimensions scanned tables rest d) {offset : ℕ} (a : At data offset rest) (hn : rest.length < n) :
    turns data n ⟨offset, dimensions, scanned, tables⟩ = .ok d := by
  induction h generalizing offset n
  case stop k =>
    cases n
    case zero => omega
    case succ =>
      have hlt : offset < data.length := a.lt_iff.mpr (by simp [marked])
      rw [turns, if_pos hlt, turn_stop a rfl rfl]
      rfl
  case segment s _ hi =>
    cases n
    case zero => omega
    case succ n =>
      rw [turns_absorb s.sound.legal.left s.fits a (absorb_segment s)]
      apply hi a.append
      simp [Segment.bytes, delimited, marked] at hn
      omega
  case frame f _ hi =>
    cases n
    case zero => omega
    case succ n =>
      have hl : f.payload.length + 2 < 65536 := by
        have := f.count.toNat_lt
        simp [Frame.payload, toBytes, f.length]
        omega
      have hf : frame none f.payload = .ok f.dimensions := (frame_ok f.fill).mpr ⟨rfl, f, rfl, rfl, rfl⟩
      rw [turns_absorb (by simp [markers]) hl a (by rw [absorb_frame, hf]; rfl)]
      apply hi a.append
      simp [Frame.bytes, delimited, marked] at hn
      omega
  case scan dims _ _ s pieces h hi =>
    cases n
    case zero => omega
    case succ n =>
      have hl : s.payload.length + 2 < 65536 := by
        have := s.count.toNat_lt
        simp [Scan.payload, s.length]
        omega
      have ⟨b, rest', hr, hb⟩ := follows_head h
      have hp := hr ▸ a.append
      have hn' : pieces.length < data.length + 1 := by
        have := a.length
        have : pieces.length ≤ (pieces.flatMap Piece.bytes).length := length_pieces
        simp only [List.length_append] at *
        omega
      have he := entropy_pieces hp hb hn'
      have hs : scan ⟨offset + s.bytes.length, some dims, false, {0xC4, 0xDB}⟩ s.payload = .ok () :=
        (scan_ok s.fill).mpr ⟨⟨rfl, rfl, rfl⟩, s, rfl, rfl⟩
      have ha : absorb data 0xDA s.payload ⟨offset + s.bytes.length, some dims, false, {0xC4, 0xDB}⟩ =
          .ok ⟨offset + s.bytes.length + (pieces.flatMap Piece.bytes).length, some dims, true, {0xC4, 0xDB}⟩ := by
        rw [absorb_scan, hs, he]
        rfl
      rw [turns_absorb (r := ⟨offset, some dims, false, {0xC4, 0xDB}⟩) (k := s.fill) (by simp [markers]) hl a ha]
      apply hi a.append.append
      simp [Scan.bytes, delimited, marked] at hn
      omega

end Turns

-- Exactly the images of this form are accepted, with the dimensions of their frame. Everything else ends with an
-- `ExecutorError`, and nothing is read behind the end.
theorem jpegDimensions_iff (data : List UInt8) :
    (∀ width height, jpegDimensions data = .ok (width, height) ↔
      data.length ≤ maxBytes ∧ ∃ j : Jpeg, j.bytes = data ∧ j.frame.width = width ∧ j.frame.height = height) ∧
    ((∀ d, jpegDimensions data ≠ .ok d) → ∃ code, jpegDimensions data = .error (.error code 400)) := by
  constructor
  case left =>
    intro width height
    rw [jpegDimensions, bind_ok]
    simp only [require_ok, Bool.and_eq_true, decide_eq_true_eq]
    constructor
    case mp =>
      intro ⟨_, ⟨⟨_, hl⟩, hs⟩, h⟩
      have hr : data = [0xFF, 0xD8] ++ data.drop 2 := by
        rw [← hs]
        exact (List.take_append_drop 2 data).symm
      have a : At data 2 (data.drop 2) := by
        constructor
        case le =>
          have := congrArg List.length hr
          simp at this
          omega
        case left => rfl
      have ⟨j, hj, hd⟩ := follows_iff.mp <| turns_ok h a
      cases hd
      exact ⟨hl, j, by rw [Jpeg.bytes, hj]; exact hr.symm, rfl, rfl⟩
    case mpr =>
      intro ⟨hl, j, hj, hw, hh⟩
      have hf : Follows none false ∅ j.body (width, height) :=
        follows_iff.mpr ⟨j, rfl, by rw [Frame.dimensions, hw, hh]⟩
      have ⟨b, rest, hr, _⟩ := follows_head hf
      cases hj
      have a : At j.bytes 2 j.body := ⟨by simp [Jpeg.bytes], rfl⟩
      refine ⟨(), ⟨⟨?_, hl⟩, rfl⟩, turns_follows hf a ?_⟩
      case refine_1 => simp [Jpeg.bytes, hr]
      case refine_2 => simp [Jpeg.bytes]; omega
  case right =>
    intro h
    have answers : Answers (jpegDimensions data) := by
      apply Answers.ensured
      intro hc
      simp only [Bool.and_eq_true, decide_eq_true_eq] at hc
      have h₂ : 2 ≤ data.length := by omega
      apply turns_answers ⟨h₂, rfl⟩
      simp only [List.length_drop]
      omega
    cases hd : jpegDimensions data
    case error fault => exact answers fault hd |>.imp fun _ => congrArg Except.error
    case ok d => exact absurd hd (h d)

example : jpegDimensions [0xFF, 0xD8, 0xFF, 0xDB, 0, 3, 1, 0xFF, 0xFF, 0xC4, 0, 3, 1,
    0xFF, 0xC0, 0, 11, 8, 0, 24, 0, 32, 1, 1, 2, 3, 0xFF, 0xDA, 0, 8, 1, 9, 9, 0, 0x3F, 0,
    7, 0xFF, 0, 0xFF, 0xD0, 5, 0xFF, 0xD9] = .ok (32, 24) := by decide

end Executors.Media
