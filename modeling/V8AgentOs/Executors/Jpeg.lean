import Mathlib.Data.Finset.Insert

-- The check of an uploaded image: `jpeg_dimensions`.
namespace Executors.Media

abbrev maxBytes : ℕ := 2 * 1024 * 1024

-- How a call ends without a result: with an `ExecutorError`, with an `IndexError`, or not within the fuel.
inductive Fault
  | error (code : String) (status : ℕ)
  | index
  | running
  deriving DecidableEq

abbrev Read := Except Fault

-- `require(x and y, ..)` is `require(x, ..)` before `require(y, ..)`, where `y` reads what `x` makes sure of.
def require (condition : Bool) (code : String) (status : ℕ) : Read Unit :=
  if condition then .ok () else .error (.error code status)

-- `data[offset]`
def subscript (data : List UInt8) (offset : ℕ) : Read UInt8 :=
  match data[offset]? with
  | some b => .ok b
  | none   => .error .index

-- `data[first:last]`
def slice (data : List UInt8) (first last : ℕ) : List UInt8 :=
  (data.take last).drop first

-- `int.from_bytes(data, "big")`
def fromBytes (data : List UInt8) : ℕ :=
  data.foldl (fun n b => 256 * n + b.toNat) 0

-- `data.find(b"\xff", offset)`
def find (data : List UInt8) (offset : ℕ) : Option ℕ :=
  ((data.drop offset).findIdx? (· == 0xFF)).map (offset + ·)

-- The variables of the outer loop
structure Locals where
  offset     : ℕ
  dimensions : Option (ℕ × ℕ)
  scanned    : Bool
  tables     : Finset UInt8

-- `while offset < len(data) and data[offset] == 255`
def fill (data : List UInt8) : ℕ → ℕ → Read ℕ
  | 0, _          => .error .running
  | n + 1, offset =>
    if offset < data.length then do
      let b ← subscript data offset
      if b = 255 then fill data n (offset + 1) else return offset
    else return offset

def app0 (payload : List UInt8) : Read Unit := do
  require ([0x4A, 0x46, 0x49, 0x46, 0x00].isPrefixOf payload && 14 ≤ payload.length)
    "jpeg_metadata_not_allowed" 400
  let width ← subscript payload 12
  let height ← subscript payload 13
  require (payload.length = 14 + 3 * width.toNat * height.toNat) "jpeg_app0_invalid" 400

def frame (dimensions : Option (ℕ × ℕ)) (payload : List UInt8) : Read (ℕ × ℕ) := do
  require (dimensions.isNone && 6 ≤ payload.length) "jpeg_frame_invalid" 400
  let precision ← subscript payload 0
  require (precision = 8) "jpeg_frame_invalid" 400
  let height := fromBytes (slice payload 1 3)
  let width := fromBytes (slice payload 3 5)
  let components ← subscript payload 5
  require ((components = 1 || components = 3) && payload.length = 6 + components.toNat * 3)
    "jpeg_frame_invalid" 400
  require (0 < width && width ≤ 4096 && 0 < height && height ≤ 4096 && width * height ≤ 8 * 1024 * 1024)
    "frame_dimensions_invalid" 400
  return (width, height)

def scan (r : Locals) (payload : List UInt8) : Read Unit := do
  require (!r.scanned && r.dimensions.isSome && r.tables = {0xC4, 0xDB}) "jpeg_scan_invalid" 400
  require (6 ≤ payload.length) "jpeg_scan_invalid" 400
  let components ← subscript payload 0
  require ((components = 1 || components = 3) && payload.length = 1 + components.toNat * 2 + 3 &&
    slice payload (payload.length - 3) payload.length = [0x00, 0x3F, 0x00]) "jpeg_scan_invalid" 400

-- `next_marker == 0 or 0xD0 <= next_marker <= 0xD7`
def stuffing (marker : UInt8) : Bool :=
  marker = 0 || 0xD0 ≤ marker && marker ≤ 0xD7

-- The inner loop, after the header of the scan
def entropy (data : List UInt8) : ℕ → ℕ → Read ℕ
  | 0, _          => .error .running
  | n + 1, offset =>
    if offset < data.length then
      match find data offset with
      | none       => .error (.error "jpeg_truncated" 400)
      | some found => do
        require (found + 1 < data.length) "jpeg_truncated" 400
        let nextMarker ← subscript data (found + 1)
        if stuffing nextMarker then entropy data n (found + 2) else return found
    else return offset

-- The body of the outer loop from `if marker == 0xE0` on
def absorb (data : List UInt8) (marker : UInt8) (payload : List UInt8) (r : Locals) : Read Locals := do
  if marker = 0xE0 then app0 payload
  let tables ←
    if marker = 0xC4 || marker = 0xDB then do
      require (!payload.isEmpty) "jpeg_table_invalid" 400
      pure (insert marker r.tables)
    else pure r.tables
  let dimensions ←
    if marker = 0xC0 then do
      let d ← frame r.dimensions payload
      pure (some d)
    else pure r.dimensions
  if marker = 0xDA then do
    scan { r with dimensions, tables } payload
    let offset ← entropy data (data.length + 1) r.offset
    return ⟨offset, dimensions, true, tables⟩
  else return { r with dimensions, tables }

-- The fill bytes and the marker at an offset, with the offset behind them
def readMarker (data : List UInt8) (offset : ℕ) : Read (UInt8 × ℕ) := do
  let b ← subscript data offset
  require (b = 255) "jpeg_marker_invalid" 400
  let offset ← fill data (data.length + 1) offset
  require (offset < data.length) "jpeg_truncated" 400
  let marker ← subscript data offset
  return (marker, offset + 1)

-- The length and the payload at an offset, with the offset behind them
def readPayload (data : List UInt8) (offset : ℕ) : Read (List UInt8 × ℕ) := do
  require (offset + 2 ≤ data.length) "jpeg_truncated" 400
  let length := fromBytes (slice data offset (offset + 2))
  require (2 ≤ length && offset + length ≤ data.length) "jpeg_truncated" 400
  return (slice data (offset + 2) (offset + length), offset + length)

-- One turn of the outer loop, which returns the dimensions or goes on
def turn (data : List UInt8) (r : Locals) : Read (ℕ × ℕ ⊕ Locals) := do
  let (marker, offset) ← readMarker data r.offset
  if marker = 0xD9 then
    match r.dimensions with
    | none   => .error (.error "jpeg_incomplete" 400)
    | some d => do
      require (r.scanned && offset = data.length) "jpeg_incomplete" 400
      return .inl d
  else do
    require ([0xC0, 0xC4, 0xDB, 0xDD, 0xDA, 0xE0].contains marker) "jpeg_marker_unsupported" 400
    let (payload, offset) ← readPayload data offset
    let r ← absorb data marker payload { r with offset }
    return .inr r

def turns (data : List UInt8) : ℕ → Locals → Read (ℕ × ℕ)
  | 0, _     => .error .running
  | n + 1, r =>
    if r.offset < data.length then do
      match ← turn data r with
      | .inl d => return d
      | .inr r => turns data n r
    else .error (.error "jpeg_truncated" 400)

def jpegDimensions (data : List UInt8) : Read (ℕ × ℕ) := do
  require (4 ≤ data.length && data.length ≤ maxBytes && slice data 0 2 = [0xFF, 0xD8]) "jpeg_invalid" 400
  turns data (data.length + 1) ⟨2, none, false, ∅⟩

end Executors.Media

-- The images that the docstring of `jpeg_dimensions` describes: a single baseline JPEG, without EXIF, ICC, comments or
-- anything after its end.
namespace Executors.Media

-- `n` in two bytes, big-endian
def toBytes (n : ℕ) : List UInt8 :=
  [.ofNat (n / 256), .ofNat n]

-- A marker with fill bytes before it
def marked (fill : ℕ) (marker : UInt8) : List UInt8 :=
  List.replicate (fill + 1) 0xFF ++ [marker]

-- A segment says its length, which counts the two bytes that say it.
def delimited (fill : ℕ) (marker : UInt8) (payload : List UInt8) : List UInt8 :=
  marked fill marker ++ toBytes (payload.length + 2) ++ payload

-- The payloads of the segments that are neither frame nor scan. A JFIF header holds a thumbnail.
inductive Payload : UInt8 → List UInt8 → Prop
  | jfif {units thumbnail : List UInt8} {x y : UInt8} :
    units.length = 7 → thumbnail.length = 3 * x.toNat * y.toNat →
    Payload 0xE0 ([0x4A, 0x46, 0x49, 0x46, 0x00] ++ units ++ x :: y :: thumbnail)
  | huffman {payload : List UInt8} : payload ≠ [] → Payload 0xC4 payload
  | quantization {payload : List UInt8} : payload ≠ [] → Payload 0xDB payload
  | restart {payload : List UInt8} : Payload 0xDD payload

structure Segment where
  fill    : ℕ
  marker  : UInt8
  payload : List UInt8
  fits    : payload.length + 2 < 65536
  sound   : Payload marker payload

def Segment.bytes (s : Segment) : List UInt8 :=
  delimited s.fill s.marker s.payload

-- A frame header of one or three components within the limits
structure Frame where
  fill       : ℕ
  width      : ℕ
  height     : ℕ
  count      : UInt8
  components : List UInt8
  counted    : count = 1 ∨ count = 3
  length     : components.length = 3 * count.toNat
  wide       : 0 < width ∧ width ≤ 4096
  high       : 0 < height ∧ height ≤ 4096
  area       : width * height ≤ 8 * 1024 * 1024

namespace Frame

def payload (f : Frame) : List UInt8 :=
  8 :: (toBytes f.height ++ toBytes f.width ++ f.count :: f.components)

def bytes (f : Frame) : List UInt8 :=
  delimited f.fill 0xC0 f.payload

def dimensions (f : Frame) : ℕ × ℕ :=
  (f.width, f.height)

end Frame

-- The header of a baseline scan
structure Scan where
  fill       : ℕ
  count      : UInt8
  components : List UInt8
  counted    : count = 1 ∨ count = 3
  length     : components.length = 2 * count.toNat

namespace Scan

def payload (s : Scan) : List UInt8 :=
  s.count :: (s.components ++ [0x00, 0x3F, 0x00])

def bytes (s : Scan) : List UInt8 :=
  delimited s.fill 0xDA s.payload

end Scan

-- What entropy data consists of: bytes other than `FF`, and `FF` before zero or a restart marker.
inductive Piece
  | byte (b : UInt8) (plain : b ≠ 0xFF)
  | stuffed (b : UInt8) (stuffing : stuffing b = true)

def Piece.bytes : Piece → List UInt8
  | byte b _    => [b]
  | stuffed b _ => [0xFF, b]

-- The header is one frame and at least one table of either kind, the scan follows it, and other segments stand
-- anywhere. The end of the image is the last of the bytes.
structure Jpeg where
  start        : List Segment
  frame        : Frame
  middle       : List Segment
  scan         : Scan
  data         : List Piece
  rest         : List Segment
  fill         : ℕ
  huffman      : ∃ s ∈ start ++ middle, s.marker = 0xC4
  quantization : ∃ s ∈ start ++ middle, s.marker = 0xDB

namespace Jpeg

def body (j : Jpeg) : List UInt8 :=
  j.start.flatMap Segment.bytes ++ (j.frame.bytes ++ (j.middle.flatMap Segment.bytes ++
    (j.scan.bytes ++ (j.data.flatMap Piece.bytes ++ (j.rest.flatMap Segment.bytes ++ marked j.fill 0xD9)))))

def bytes (j : Jpeg) : List UInt8 :=
  0xFF :: 0xD8 :: j.body

end Jpeg

-- The tables that are there after a segment
def tabled (tables : Finset UInt8) (marker : UInt8) : Finset UInt8 :=
  if marker = 0xC4 ∨ marker = 0xDB then insert marker tables else tables

-- What may still follow when the variables of the loop have these values, with the dimensions that are returned then.
inductive Follows : Option (ℕ × ℕ) → Bool → Finset UInt8 → List UInt8 → ℕ × ℕ → Prop
  | stop {d tables} (fill : ℕ) : Follows (some d) true tables (marked fill 0xD9) d
  | segment {dimensions scanned tables rest d} (s : Segment) :
    Follows dimensions scanned (tabled tables s.marker) rest d →
    Follows dimensions scanned tables (s.bytes ++ rest) d
  | frame {scanned tables rest d} (f : Frame) :
    Follows (some f.dimensions) scanned tables rest d →
    Follows none scanned tables (f.bytes ++ rest) d
  | scan {dimensions rest d} (s : Scan) (data : List Piece) :
    Follows (some dimensions) true {0xC4, 0xDB} rest d →
    Follows (some dimensions) false {0xC4, 0xDB} (s.bytes ++ (data.flatMap Piece.bytes ++ rest)) d

variable {dimensions : Option (ℕ × ℕ)} {scanned : Bool} {tables : Finset UInt8} {rest : List UInt8}
  {d d' : ℕ × ℕ} {ss : List Segment}

theorem Follows.segments (h : Follows dimensions scanned ((ss.map Segment.marker).foldl tabled tables) rest d) :
    Follows dimensions scanned tables (ss.flatMap Segment.bytes ++ rest) d := by
  induction ss generalizing tables
  case nil => exact h
  case cons s ss hi =>
    rw [List.flatMap_cons, List.append_assoc]
    exact .segment s (hi h)

theorem mem_tabled {m : UInt8} (hm : m = 0xC4 ∨ m = 0xDB) {markers : List UInt8} :
    m ∈ markers.foldl tabled tables ↔ m ∈ tables ∨ m ∈ markers := by
  induction markers generalizing tables
  case nil => simp
  case cons m' markers hi =>
    rw [List.foldl_cons, hi, tabled]
    split
    case isTrue => simp [or_assoc, or_left_comm]
    case isFalse h =>
      have : m ≠ m' := fun e => h (e ▸ hm)
      simp [this]

theorem tabled_sub (h : tables ⊆ {0xC4, 0xDB}) {markers : List UInt8} :
    markers.foldl tabled tables ⊆ {0xC4, 0xDB} := by
  induction markers generalizing tables
  case nil => exact h
  case cons m markers hi =>
    apply hi
    rw [tabled]
    split
    case isTrue hm => exact Finset.insert_subset (by simpa using hm) h
    case isFalse => exact h

theorem tabled_eq {markers : List UInt8} :
    markers.foldl tabled ∅ = {0xC4, 0xDB} ↔ 0xC4 ∈ markers ∧ 0xDB ∈ markers := by
  constructor
  case mp =>
    intro h
    have h₁ : 0xC4 ∈ markers.foldl tabled ∅ ↔ _ := mem_tabled (.inl rfl)
    have h₂ : 0xDB ∈ markers.foldl tabled ∅ ↔ _ := mem_tabled (.inr rfl)
    rw [h] at h₁ h₂
    exact ⟨by simpa using h₁, by simpa using h₂⟩
  case mpr =>
    intro ⟨h₁, h₂⟩
    apply Finset.Subset.antisymm (tabled_sub (Finset.empty_subset _))
    apply Finset.insert_subset
    case ha => exact mem_tabled (.inl rfl) |>.mpr <| .inr h₁
    case hs => exact Finset.singleton_subset_iff.mpr <| mem_tabled (.inr rfl) |>.mpr <| .inr h₂

theorem Follows.end (h : Follows (some d') true tables rest d) :
    d = d' ∧ ∃ (ss : List Segment) (fill : ℕ), rest = ss.flatMap Segment.bytes ++ marked fill 0xD9 := by
  generalize e : some d' = dimensions, e' : true = scanned at h
  induction h
  case stop fill =>
    cases e
    exact ⟨rfl, [], fill, rfl⟩
  case segment s _ hi =>
    have ⟨hd, ss, fill, h⟩ := hi e e'
    exact ⟨hd, s :: ss, fill, by rw [h, List.flatMap_cons, List.append_assoc]⟩
  case frame => cases e
  case scan => cases e'

-- The part from the frame on
theorem Follows.pending (h : Follows (some d') false tables rest d) :
    d = d' ∧ ∃ (ss : List Segment) (s : Scan) (data : List Piece) (ss' : List Segment) (fill : ℕ),
      (ss.map Segment.marker).foldl tabled tables = {0xC4, 0xDB} ∧
      rest = ss.flatMap Segment.bytes ++ (s.bytes ++ (data.flatMap Piece.bytes ++
        (ss'.flatMap Segment.bytes ++ marked fill 0xD9))) := by
  generalize e : some d' = dimensions, e' : false = scanned at h
  induction h
  case stop => cases e'
  case segment s _ hi =>
    have ⟨hd, ss, sc, data, ss', fill, ht, h⟩ := hi e e'
    exact ⟨hd, s :: ss, sc, data, ss', fill, ht, by rw [h, List.flatMap_cons, List.append_assoc]⟩
  case frame => cases e
  case scan s data h _ =>
    cases e
    have ⟨hd, ss, fill, h⟩ := h.end
    exact ⟨hd, [], s, data, ss, fill, rfl, by rw [h]; rfl⟩

theorem Follows.framed (h : Follows none false tables rest d) :
    ∃ (ss : List Segment) (f : Frame) (rest' : List UInt8), d = f.dimensions ∧
      rest = ss.flatMap Segment.bytes ++ (f.bytes ++ rest') ∧
      Follows (some f.dimensions) false ((ss.map Segment.marker).foldl tabled tables) rest' d := by
  generalize e : (none : Option (ℕ × ℕ)) = dimensions, e' : false = scanned at h
  induction h
  case stop => cases e
  case segment s _ hi =>
    have ⟨ss, f, rest', hd, h, hf⟩ := hi e e'
    exact ⟨s :: ss, f, rest', hd, by rw [h, List.flatMap_cons, List.append_assoc], hf⟩
  case frame f h _ =>
    cases e'
    exact ⟨[], f, _, h.pending.left, rfl, h⟩
  case scan => cases e

-- What the loop may read from its start is what follows the first two bytes of an image.
theorem follows_iff : Follows none false ∅ rest d ↔ ∃ j : Jpeg, j.body = rest ∧ j.frame.dimensions = d := by
  constructor
  case mp =>
    intro h
    have ⟨ss, f, rest', hd, hr, h⟩ := h.framed
    have ⟨_, ss', s, data, ss'', fill, ht, hr'⟩ := h.pending
    rw [← List.foldl_append, ← List.map_append, tabled_eq] at ht
    exact ⟨⟨ss, f, ss', s, data, ss'', fill, List.mem_map.mp ht.left, List.mem_map.mp ht.right⟩,
      by rw [hr, hr']; rfl, hd.symm⟩
  case mpr =>
    intro ⟨j, hj, hd⟩
    cases hj
    cases hd
    have ht : ((j.start ++ j.middle).map Segment.marker).foldl tabled ∅ = {0xC4, 0xDB} :=
      tabled_eq.mpr ⟨List.mem_map.mpr j.huffman, List.mem_map.mpr j.quantization⟩
    rw [List.map_append, List.foldl_append] at ht
    apply Follows.segments
    apply Follows.frame
    apply Follows.segments
    rw [ht]
    apply Follows.scan
    apply Follows.segments
    exact .stop _

end Executors.Media
