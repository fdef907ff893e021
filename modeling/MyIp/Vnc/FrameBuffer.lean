import MyIp.Foundations.Bytes
import Mathlib.Data.List.GetD

/-! # Frame buffer updates

`calculate_fb_update` (`vnc.cpp`) makes the message for a rectangle of the frame buffer. Where it reads
the pixels of the rectangle one by one, it takes the width of the rectangle for the length of a row of
the frame buffer. The offsets are those of the program's frame buffer of 640 by 480, which an `int`
holds. -/

namespace MyIp.Vnc
set_option autoImplicit false

open Bytes

inductive Fault
  | outside
  deriving DecidableEq

/-- `frame_buffer_t`: three bytes for each pixel, once it is set up. -/
structure FrameBuffer where
  w : ℕ
  h : ℕ
  buffer : Option (List Byte)
  size : ∀ b ∈ buffer, b.length = w * h * 3

/-- The rectangle of a `FramebufferUpdateRequest`. -/
structure Rectangle where
  x : ℕ
  y : ℕ
  w : ℕ
  h : ℕ

structure Rgb where
  r : Byte
  g : Byte
  b : Byte
  deriving DecidableEq

/-- The three bytes from an offset on. -/
def rgbAt (buffer : List Byte) (offset : ℕ) : Except Fault Rgb :=
  if offset + 2 < buffer.length then
    .ok ⟨buffer.getD offset 0, buffer.getD (offset + 1) 0, buffer.getD (offset + 2) 0⟩
  else .error .outside

/-- `encode_pixel`; the raw encoding has the same bytes. -/
def encodePixel (depth : Byte) (p : Rgb) : List Byte :=
  if depth = 32 ∨ depth = 24 then [p.b, p.g, p.r, 255]
  else if depth = 8 then [(p.r &&& (0xe0 : Byte)) ||| ((p.g >>> 3) &&& (0x1c : Byte)) ||| (p.b >>> 6)]
  else []

/-- The bits of gray pixels, eight to a byte; bits that fill no byte are left out. -/
def packBits : (bOut : Byte) → (bN : ℕ) → List Rgb → List Byte
  | _, _, [] => []
  | bOut, bN, p :: ps =>
    let gray := (p.r.toNat + p.g.toNat + p.b.toNat) / 3
    let bOut := (bOut <<< 1) ||| if 128 ≤ gray then 1 else 0
    if bN + 1 = 8 then bOut :: packBits bOut 0 ps else packBits bOut (bN + 1) ps

/-- The columns and rows of the two loops. -/
def positions (r : Rectangle) : List (ℕ × ℕ) :=
  (List.range' r.y r.h).flatMap fun yo => (List.range' r.x r.w).map fun xo => (xo, yo)

def rectanglePixels (buffer : List Byte) (r : Rectangle) : Except Fault (List Rgb) :=
  (positions r).mapM fun p => rgbAt buffer (p.2 * r.w * 3 + p.1 * 3)

/-- `temp`, the pixels that are sent as they are or given to `deflate`. -/
def rawPixels (buffer : List Byte) (r : Rectangle) (depth : Byte) : Except Fault (List Byte) :=
  if depth = 32 ∨ depth = 24 ∨ depth = 8 then do
    let pixels ← rectanglePixels buffer r
    return pixels.flatMap (encodePixel depth)
  else if depth = 1 then do
    let pixels ← rectanglePixels buffer r
    return packBits 0 0 pixels
  else .ok []

/-! ## Hextile -/

/-- The offsets of the pixels of a tile, from the one at `x` and `y` on. -/
def tileOffsets (w : ℕ) (t : ℕ × ℕ) : List ℕ :=
  (List.range 16).flatMap fun ty => (List.range 16).map fun tx => (t.2 + ty) * w * 3 + (t.1 + tx) * 3

/-- The scan for a pixel that is different from the first one. -/
def scanTile (buffer : List Byte) (s : Rgb) : List ℕ → Except Fault Bool
  | [] => .ok false
  | offset :: offsets => do
    let c ← rgbAt buffer offset
    if c ≠ s then return true else scanTile buffer s offsets

def hextileTile (buffer : List Byte) (w : ℕ) (depth : Byte) (t : ℕ × ℕ) : Except Fault (List Byte) := do
  let s ← rgbAt buffer (t.2 * w * 3 + t.1 * 3)
  let different ← scanTile buffer s (tileOffsets w t)
  if different then do
    let pixels ← (tileOffsets w t).mapM (rgbAt buffer)
    return 1 :: pixels.flatMap (encodePixel depth)
  else return 2 :: encodePixel depth s

/-- Columns and rows in steps of 16, as long as they are below the size. -/
def tiles (w h : ℕ) : List (ℕ × ℕ) :=
  (List.range ((h + 15) / 16)).flatMap fun j =>
    (List.range ((w + 15) / 16)).map fun i => (16 * i, 16 * j)

/-- `hextile`: it starts at the first pixel of the frame buffer, wherever the rectangle is. -/
def hextile (buffer : List Byte) (w h : ℕ) (depth : Byte) : Except Fault (List Byte) :=
  ((tiles w h).mapM (hextileTile buffer w depth)).map List.flatten

/-! ## `calculate_fb_update` -/

/-- The first of the encodings that is Hextile, ZLIB or JPEG, else raw. -/
def chosenEncoding (encodings : List ℤ) : ℤ :=
  (encodings.find? fun e => e = 5 ∨ e = 6 ∨ e = 21).getD 0

def updateHeader (r : Rectangle) (ce : ℤ) : List Byte :=
  [0, 0, 0, 1] ++ be16Bytes (BitVec.ofNat 16 r.x) ++ be16Bytes (BitVec.ofNat 16 r.y) ++
    be16Bytes (BitVec.ofNat 16 r.w) ++ be16Bytes (BitVec.ofNat 16 r.h) ++ be32Bytes (BitVec.ofInt 32 ce)

/-- What is put behind the header. `compressed` is the work of zlib and libjpeg. -/
def updateData (compressed : ℤ → List Byte → Except Fault (List Byte)) (buffer : List Byte)
    (ce : ℤ) (r : Rectangle) (depth : Byte) : Except Fault (List Byte) :=
  if ce = 5 then hextile buffer r.w r.h depth
  else if ce = 21 then compressed ce buffer
  else do
    let temp ← rawPixels buffer r depth
    if ce = 0 then return temp else compressed ce temp

/-- `calculate_fb_update`: the message, if there is one. It was allocated for four bytes for each pixel
of the rectangle. -/
def calculateFbUpdate (compressed : ℤ → List Byte → Except Fault (List Byte)) (fb : FrameBuffer)
    (encodings : List ℤ) (r : Rectangle) (depth : Byte) : Except Fault (Option (List Byte)) :=
  if fb.w < r.x + r.w ∨ fb.h < r.y + r.h then .ok none
  else
    match fb.buffer with
    | none => .ok none
    | some buffer => do
      let ce := chosenEncoding encodings
      let data ← updateData compressed buffer ce r depth
      if r.w * r.h * 4 < data.length then throw .outside
      return some (updateHeader r ce ++ data)

/-! ## The rectangle that is shown -/

/-- The pixels of the frame buffer, numbered row by row. -/
def pixel (buffer : List Byte) (k : ℕ) : Rgb :=
  ⟨buffer.getD (3 * k) 0, buffer.getD (3 * k + 1) 0, buffer.getD (3 * k + 2) 0⟩

/-- The frame buffer is set up and the rectangle is inside it. -/
structure Inside (fb : FrameBuffer) (buffer : List Byte) (r : Rectangle) : Prop where
  buffer : fb.buffer = some buffer
  columns : r.x + r.w ≤ fb.w
  rows : r.y + r.h ≤ fb.h

/-- The update has the pixels at the positions of the rectangle, row by row, and nothing else. -/
def Shows (compressed : ℤ → List Byte → Except Fault (List Byte)) (fb : FrameBuffer)
    (buffer : List Byte) (encodings : List ℤ) (r : Rectangle) (depth : Byte) : Prop :=
  calculateFbUpdate compressed fb encodings r depth = .ok (some (updateHeader r 0 ++
    (positions r).flatMap fun p => encodePixel depth (pixel buffer (p.2 * fb.w + p.1))))

theorem mem_positions {r : Rectangle} {p : ℕ × ℕ} :
    p ∈ positions r ↔ (r.x ≤ p.1 ∧ p.1 < r.x + r.w) ∧ r.y ≤ p.2 ∧ p.2 < r.y + r.h := by
  obtain ⟨px, py⟩ := p
  simp only [positions, List.mem_flatMap, List.mem_map, List.mem_range'_1, Prod.mk.injEq]
  constructor
  · rintro ⟨yo, hy, xo, hx, rfl, rfl⟩
    exact ⟨hx, hy⟩
  · rintro ⟨hx, hy⟩
    exact ⟨py, hy, px, hx, rfl, rfl⟩

theorem positions_length (r : Rectangle) : (positions r).length = r.w * r.h := by
  rw [positions, List.length_flatMap]
  simp [Nat.mul_comm]

theorem mapM_eq_ok {α β : Type} {f : α → Except Fault β} {g : α → β} {l : List α}
    (h : ∀ a ∈ l, f a = .ok (g a)) : l.mapM f = .ok (l.map g) := by
  induction l with
  | nil => rfl
  | cons a l ih =>
    rw [List.mapM_cons, h a List.mem_cons_self, ih fun b hb => h b (List.mem_cons_of_mem _ hb)]
    rfl

/-- Lists of blocks of the same sizes are the same if the blocks are. -/
theorem flatMap_eq_iff {α β : Type} {f g : α → List β} {l : List α}
    (hlen : ∀ a ∈ l, (f a).length = (g a).length) :
    l.flatMap f = l.flatMap g ↔ ∀ a ∈ l, f a = g a := by
  induction l with
  | nil => simp
  | cons a l ih =>
    have hrest := ih fun b hb => hlen b (List.mem_cons_of_mem _ hb)
    rw [List.flatMap_cons, List.flatMap_cons, List.forall_mem_cons, ← hrest]
    constructor
    · intro h
      exact List.append_inj h (hlen a List.mem_cons_self)
    · rintro ⟨hhead, htail⟩
      rw [hhead, htail]

theorem encodePixel_length (depth : Byte) (p q : Rgb) :
    (encodePixel depth p).length = (encodePixel depth q).length := by
  unfold encodePixel
  split_ifs <;> rfl

theorem encodePixel_length_le (depth : Byte) (p : Rgb) : (encodePixel depth p).length ≤ 4 := by
  unfold encodePixel
  split_ifs <;> simp

theorem rgbAt_pixel {buffer : List Byte} {k n : ℕ} (hn : buffer.length = n * 3) (hk : k < n) :
    rgbAt buffer (3 * k) = .ok (pixel buffer k) := by
  rw [rgbAt, if_pos (by omega)]
  rfl

/-- The pixel that is read for a position of a rectangle inside is one of the frame buffer. -/
theorem read_lt {fb : FrameBuffer} {buffer : List Byte} {r : Rectangle} (h : Inside fb buffer r)
    {p : ℕ × ℕ} (hp : p ∈ positions r) : p.2 * r.w + p.1 < fb.w * fb.h := by
  obtain ⟨⟨-, hx⟩, -, hy⟩ := mem_positions.mp hp
  have hcolumns := h.columns
  have hrows := h.rows
  have hrow : p.2 * r.w ≤ p.2 * fb.w := Nat.mul_le_mul_left _ (by omega)
  calc p.2 * r.w + p.1 < p.2 * fb.w + fb.w := by omega
    _ = (p.2 + 1) * fb.w := (Nat.succ_mul _ _).symm
    _ ≤ fb.h * fb.w := Nat.mul_le_mul_right _ (by omega)
    _ = fb.w * fb.h := Nat.mul_comm _ _

theorem rectanglePixels_eq {fb : FrameBuffer} {buffer : List Byte} {r : Rectangle}
    (h : Inside fb buffer r) :
    rectanglePixels buffer r = .ok ((positions r).map fun p => pixel buffer (p.2 * r.w + p.1)) := by
  apply mapM_eq_ok
  intro p hp
  have hoffset : p.2 * r.w * 3 + p.1 * 3 = 3 * (p.2 * r.w + p.1) := by ring
  rw [hoffset]
  exact rgbAt_pixel (fb.size buffer h.buffer) (read_lt h hp)

/-- The depths whose pixels have bytes of their own. -/
def Depth (depth : Byte) : Prop := depth = 32 ∨ depth = 24 ∨ depth = 8

/-- A raw update of a rectangle inside, and what it has of the frame buffer. -/
theorem calculateFbUpdate_raw (compressed : ℤ → List Byte → Except Fault (List Byte))
    {fb : FrameBuffer} {buffer : List Byte} {r : Rectangle} (h : Inside fb buffer r)
    {encodings : List ℤ} (hraw : chosenEncoding encodings = 0) {depth : Byte} (hdepth : Depth depth) :
    calculateFbUpdate compressed fb encodings r depth = .ok (some (updateHeader r 0 ++
      (positions r).flatMap fun p => encodePixel depth (pixel buffer (p.2 * r.w + p.1)))) := by
  have hcolumns := h.columns
  have hrows := h.rows
  have hdata : updateData compressed buffer 0 r depth =
      .ok ((positions r).flatMap fun p => encodePixel depth (pixel buffer (p.2 * r.w + p.1))) := by
    have hpixels : depth = 32 ∨ depth = 24 ∨ depth = 8 := hdepth
    rw [updateData, if_neg (by decide), if_neg (by decide), rawPixels, if_pos hpixels,
      rectanglePixels_eq h]
    simp only [bind, Except.bind, pure, Except.pure, if_true, List.flatMap_map]
  have hlength : ((positions r).flatMap fun p =>
      encodePixel depth (pixel buffer (p.2 * r.w + p.1))).length ≤ r.w * r.h * 4 := by
    rw [List.length_flatMap, ← positions_length]
    apply (List.sum_le_card_nsmul _ 4 ?_).trans (by simp)
    intro n hn
    obtain ⟨p, -, rfl⟩ := List.mem_map.mp hn
    exact encodePixel_length_le depth _
  rw [calculateFbUpdate, if_neg (by omega), h.buffer, hraw]
  simp only [bind, Except.bind, hdata, if_neg (not_lt.mpr hlength)]
  rfl

/-- What is shown is the rectangle exactly if every pixel that is read is encoded as the one that should
be. -/
theorem shows_iff_pixels (compressed : ℤ → List Byte → Except Fault (List Byte))
    {fb : FrameBuffer} {buffer : List Byte} {r : Rectangle} (h : Inside fb buffer r)
    {encodings : List ℤ} (hraw : chosenEncoding encodings = 0) {depth : Byte} (hdepth : Depth depth) :
    Shows compressed fb buffer encodings r depth ↔ ∀ p ∈ positions r,
      encodePixel depth (pixel buffer (p.2 * r.w + p.1)) =
        encodePixel depth (pixel buffer (p.2 * fb.w + p.1)) := by
  rw [Shows, calculateFbUpdate_raw compressed h hraw hdepth, Except.ok.injEq, Option.some.injEq,
    List.append_cancel_left_eq]
  exact flatMap_eq_iff fun p _ => encodePixel_length depth _ _

/-- Each row that is read is the one that should be: the rectangle is as wide as the frame buffer, or it
is in the first row, or it is empty. -/
def RowsMeet (w : ℕ) (r : Rectangle) : Prop := r.w = w ∨ r.y + r.h ≤ 1 ∨ r.w = 0 ∨ r.h = 0

theorem rowsMeet_iff {w : ℕ} {r : Rectangle} :
    RowsMeet w r ↔ ∀ p ∈ positions r, p.2 * r.w + p.1 = p.2 * w + p.1 := by
  constructor
  · intro h p hp
    obtain ⟨⟨hx, hx'⟩, hy, hy'⟩ := mem_positions.mp hp
    obtain hw | hfirst | hempty | hempty := h
    · rw [hw]
    · have hzero : p.2 = 0 := by omega
      rw [hzero, Nat.zero_mul, Nat.zero_mul]
    · omega
    · omega
  · intro h
    by_contra hnot
    simp only [RowsMeet, not_or] at hnot
    obtain ⟨hw, hfirst, hwidth, hheight⟩ := hnot
    -- the last row is not the first of the frame buffer
    have hp := h (r.x, r.y + r.h - 1) (mem_positions.mpr ⟨by omega, by omega⟩)
    exact hw (Nat.eq_of_mul_eq_mul_left (by omega : 0 < r.y + r.h - 1) (Nat.add_right_cancel hp))

/-! ## Which rectangles are shown -/

/-- The bytes of a frame buffer that is black but for one white pixel. -/
def spot (n k : ℕ) : List Byte := (List.range (n * 3)).map fun m => if m / 3 = k then 255 else 0

theorem spot_length (n k : ℕ) : (spot n k).length = n * 3 := by
  rw [spot, List.length_map, List.length_range]

theorem spot_pixel {n k i : ℕ} (hi : i < n) :
    pixel (spot n k) i = if i = k then ⟨255, 255, 255⟩ else ⟨0, 0, 0⟩ := by
  have hbyte : ∀ j < 3, (spot n k).getD (3 * i + j) 0 = if i = k then 255 else 0 := by
    intro j hj
    have hdiv : (3 * i + j) / 3 = i := by omega
    rw [spot, List.getD_eq_getElem?_getD, List.getElem?_map, List.getElem?_range (by omega)]
    exact congrArg (fun m => if m = k then (255 : Byte) else 0) hdiv
  have hfirst := hbyte 0 (by decide)
  rw [Nat.add_zero] at hfirst
  rw [pixel, hfirst, hbyte 1 (by decide), hbyte 2 (by decide)]
  split <;> rfl

theorem encodePixel_white_ne {depth : Byte} (h : Depth depth) :
    encodePixel depth ⟨255, 255, 255⟩ ≠ encodePixel depth ⟨0, 0, 0⟩ := by
  obtain rfl | rfl | rfl := h <;> decide

/-- The rectangle lies inside the frame buffer and the depth has bytes for its pixels. -/
theorem rowsMeet_of_shows (compressed : ℤ → List Byte → Except Fault (List Byte)) {w h : ℕ}
    {r : Rectangle} (hcolumns : r.x + r.w ≤ w) (hrows : r.y + r.h ≤ h) {encodings : List ℤ}
    (hraw : chosenEncoding encodings = 0) {depth : Byte} (hdepth : Depth depth)
    (hshows : ∀ (buffer : List Byte) (size : ∀ b ∈ some buffer, b.length = w * h * 3),
      Shows compressed ⟨w, h, some buffer, size⟩ buffer encodings r depth) :
    ∀ p ∈ positions r, p.2 * r.w + p.1 = p.2 * w + p.1 := by
  intro p hp
  by_contra hne
  -- the pixel that should be shown is white, the one that is read is not
  have hsize : ∀ b ∈ some (spot (w * h) (p.2 * w + p.1)), b.length = w * h * 3 := by
    intro b hb
    obtain rfl := Option.some.inj hb
    exact spot_length _ _
  have hinside : Inside ⟨w, h, some (spot (w * h) (p.2 * w + p.1)), hsize⟩
      (spot (w * h) (p.2 * w + p.1)) r := ⟨rfl, hcolumns, hrows⟩
  have hread := read_lt hinside hp
  have hshould : p.2 * w + p.1 < w * h := by
    obtain ⟨⟨-, hx⟩, -, hy⟩ := mem_positions.mp hp
    calc p.2 * w + p.1 < p.2 * w + w := by omega
      _ = (p.2 + 1) * w := (Nat.succ_mul _ _).symm
      _ ≤ h * w := Nat.mul_le_mul_right _ (by omega)
      _ = w * h := Nat.mul_comm _ _
  have hsame := (shows_iff_pixels compressed hinside hraw hdepth).mp (hshows _ hsize) p hp
  dsimp only at hsame hread
  rw [spot_pixel hread, spot_pixel hshould, if_neg hne, if_pos rfl] at hsame
  exact encodePixel_white_ne hdepth hsame.symm

/-- Raw updates of a rectangle inside show it, whatever the frame buffer has, exactly if the rows that
are read are those of the rectangle; for one frame buffer, exactly if the pixels that are read are
encoded as those of the rectangle. -/
theorem shows_iff (compressed : ℤ → List Byte → Except Fault (List Byte)) {w h : ℕ} {r : Rectangle}
    (hcolumns : r.x + r.w ≤ w) (hrows : r.y + r.h ≤ h) {encodings : List ℤ}
    (hraw : chosenEncoding encodings = 0) {depth : Byte} (hdepth : Depth depth) :
    ((∀ (buffer : List Byte) (size : ∀ b ∈ some buffer, b.length = w * h * 3),
      Shows compressed ⟨w, h, some buffer, size⟩ buffer encodings r depth) ↔
        RowsMeet w r) ∧
    ∀ (buffer : List Byte) (size : ∀ b ∈ some buffer, b.length = w * h * 3),
      Shows compressed ⟨w, h, some buffer, size⟩ buffer encodings r depth ↔
        ∀ p ∈ positions r, encodePixel depth (pixel buffer (p.2 * r.w + p.1)) =
          encodePixel depth (pixel buffer (p.2 * w + p.1)) := by
  have hpixels : ∀ (buffer : List Byte) (size : ∀ b ∈ some buffer, b.length = w * h * 3),
      Shows compressed ⟨w, h, some buffer, size⟩ buffer encodings r depth ↔
        ∀ p ∈ positions r, encodePixel depth (pixel buffer (p.2 * r.w + p.1)) =
          encodePixel depth (pixel buffer (p.2 * w + p.1)) :=
    fun buffer size => shows_iff_pixels compressed ⟨rfl, hcolumns, hrows⟩ hraw hdepth
  refine ⟨⟨fun hshows => ?_, fun hrowsMeet buffer size => ?_⟩, hpixels⟩
  · exact rowsMeet_iff.mpr (rowsMeet_of_shows compressed hcolumns hrows hraw hdepth hshows)
  · rw [hpixels]
    intro p hp
    rw [rowsMeet_iff.mp hrowsMeet p hp]

/-- Two pixels of the first row. -/
theorem shows_first_row :
    Shows (fun _ _ => .ok []) ⟨4, 2, some (spot 8 5), by decide⟩ (spot 8 5) [0] ⟨1, 0, 2, 1⟩ 24 :=
  (shows_iff (fun _ _ => .ok []) (w := 4) (h := 2) (r := ⟨1, 0, 2, 1⟩) (by decide) (by decide) rfl
    (.inr (.inl rfl))).1.mpr (.inr (.inl (by decide))) (spot 8 5) (by decide)

/-- Two pixels of the second row: what is sent are the last one of the first row and the first one of
the second. -/
theorem not_shows_second_row :
    ¬∀ (buffer : List Byte) (size : ∀ b ∈ some buffer, b.length = 4 * 2 * 3),
      Shows (fun _ _ => .ok []) ⟨4, 2, some buffer, size⟩ buffer [0] ⟨1, 1, 2, 1⟩ 24 := by
  intro h
  have hspot := h (spot 8 5) (by decide)
  revert hspot
  unfold Shows
  decide +kernel

end MyIp.Vnc
