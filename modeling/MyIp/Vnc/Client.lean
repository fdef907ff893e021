import MyIp.Net.Buffer
import MyIp.Vnc.Hextile

/-! # What a client shows

A client that reads updates in Hextile encoding as the RFB protocol has them: tiles of 16 by 16
pixels, each with a mask that says whether its pixels follow as they are, or a background, a
foreground and rectangles in it.

`calculate_fb_update` takes the pixels from the beginning of the frame buffer, in rows as long as
the rectangle. These the client shows in the rectangle, whatever it showed before and whatever comes
after, and nothing outside changes (`hextile_shows`). A rectangle over the whole width from the
first row on is shown as it is. -/

namespace MyIp.Vnc
set_option autoImplicit false

open Bytes

/-- The bytes of each pixel, by column and row. -/
abbrev Picture := ℕ × ℕ → List Byte

/-- A rectangle of `w` by `h` pixels with its first one at `x` and `y`. -/
def fill (pic : Picture) (x y w h : ℕ) (colour : ℕ → ℕ → List Byte) : Picture := fun p =>
  if (x ≤ p.1 ∧ p.1 < x + w) ∧ y ≤ p.2 ∧ p.2 < y + h then colour (p.1 - x) (p.2 - y) else pic p

/-- The next bytes of what was received. -/
def next (n : ℕ) (data : List Byte) : Option (List Byte × List Byte) :=
  if n ≤ data.length then some (data.take n, data.drop n) else none

/-- The colours that stay as they are until a tile sets others. -/
structure Colours where
  background : List Byte
  foreground : List Byte

/-- So many rectangles of a tile, each in one colour. -/
def showSubrects (bpp : ℕ) (coloured : Bool) (x y : ℕ) (foreground : List Byte) :
    ℕ → Picture → List Byte → Option (Picture × List Byte)
  | 0, pic, data => some (pic, data)
  | n + 1, pic, data => do
    let (colour, data) ← if coloured then next bpp data else some (foreground, data)
    let (place, data) ← next 2 data
    let xy := place.getD 0 0
    let wh := place.getD 1 0
    showSubrects bpp coloured x y foreground n
      (fill pic (x + (xy >>> 4).toNat) (y + (xy &&& 15).toNat) ((wh >>> 4).toNat + 1)
        ((wh &&& 15).toNat + 1) fun _ _ => colour) data

def showTile (bpp x y w h : ℕ) (c : Colours) (pic : Picture) (data : List Byte) :
    Option (Picture × Colours × List Byte) := do
  let (subencoding, data) ← next 1 data
  let mask := subencoding.getD 0 0
  if mask &&& 1 ≠ 0 then do
    let (pixels, data) ← next (w * h * bpp) data
    return (fill pic x y w h fun i j => (pixels.drop ((j * w + i) * bpp)).take bpp, c, data)
  else do
    let (background, data) ← if mask &&& 2 ≠ 0 then next bpp data else some (c.background, data)
    let (foreground, data) ← if mask &&& 4 ≠ 0 then next bpp data else some (c.foreground, data)
    let pic := fill pic x y w h fun _ _ => background
    let (pic, data) ←
      if mask &&& 8 ≠ 0 then do
        let (count, data) ← next 1 data
        showSubrects bpp (mask &&& 16 ≠ 0) x y foreground (count.getD 0 0).toNat pic data
      else some (pic, data)
    return (pic, ⟨background, foreground⟩, data)

/-- The tiles of a rectangle; those at its right and lower edge are cut. -/
def showTiles (bpp : ℕ) (r : Rectangle) :
    List (ℕ × ℕ) → Colours → Picture → List Byte → Option (Picture × List Byte)
  | [], _, pic, data => some (pic, data)
  | t :: ts, c, pic, data => do
    let (pic, c, data) ← showTile bpp (r.x + t.1) (r.y + t.2) (min 16 (r.w - t.1))
      (min 16 (r.h - t.2)) c pic data
    showTiles bpp r ts c pic data

/-- The rectangles of an update, all of them in Hextile encoding. -/
def showRectangles (bpp : ℕ) : ℕ → Picture → List Byte → Option (Picture × List Byte)
  | 0, pic, data => some (pic, data)
  | n + 1, pic, data => do
    let (header, data) ← next 12 data
    let at16 := fun i => (be16 (header.getD i 0) (header.getD (i + 1) 0)).toNat
    let r : Rectangle := ⟨at16 0, at16 2, at16 4, at16 6⟩
    if header.drop 8 = [0, 0, 0, 5] then do
      let (pic, data) ← showTiles bpp r (tiles r.w r.h) ⟨[], []⟩ pic data
      showRectangles bpp n pic data
    else none

/-- The client reads one `FramebufferUpdate`. -/
def showUpdate (bpp : ℕ) (pic : Picture) (data : List Byte) : Option (Picture × List Byte) := do
  let (header, data) ← next 4 data
  if header.getD 0 0 = 0 then
    showRectangles bpp (be16 (header.getD 2 0) (header.getD 3 0)).toNat pic data
  else none

/-! ## Blocks of bytes -/

theorem next_append {a : List Byte} {n : ℕ} (h : a.length = n) (rest : List Byte) :
    next n (a ++ rest) = some (a, rest) := by
  rw [next, if_pos (by rw [List.length_append, h]; exact Nat.le_add_right _ _),
    List.take_left' h, List.drop_left' h]

theorem next_one (b : Byte) (rest : List Byte) : next 1 (b :: rest) = some ([b], rest) :=
  next_append (a := [b]) rfl rest

/-- In blocks of one size each block is where it should be. -/
theorem block_flatMap {f : ℕ → List Byte} {n m i : ℕ} (hf : ∀ k, (f k).length = n) (hi : i < m) :
    (((List.range m).flatMap f).drop (i * n)).take n = f i := by
  obtain ⟨k, rfl⟩ : ∃ k, m = i + (k + 1) := ⟨m - i - 1, by omega⟩
  have hfront : ((List.range i).flatMap f).length = i * n := by
    rw [List.length_flatMap]
    simp [hf]
  rw [List.range_add, List.flatMap_append, List.drop_left' hfront, List.range_succ_eq_map,
    List.map_cons, List.flatMap_cons, Nat.add_zero, List.take_left' (hf i)]

theorem fill_congr {pic : Picture} {x y w h : ℕ} {f g : ℕ → ℕ → List Byte}
    (hfg : ∀ i < w, ∀ j < h, f i j = g i j) : fill pic x y w h f = fill pic x y w h g := by
  funext p
  rw [fill, fill]
  split
  · next hin => exact hfg _ (by omega) _ (by omega)
  · rfl

/-! ## One tile -/

/-- The pixels of a tile as they are sent. -/
def tileBytes (buffer : List Byte) (w : ℕ) (depth : Byte) (t : ℕ × ℕ) : List Byte :=
  (tilePixels w t).flatMap fun k => encodePixel depth (pixel buffer k)

theorem tileBytes_length (buffer : List Byte) (w : ℕ) (depth : Byte) (t : ℕ × ℕ) :
    (tileBytes buffer w depth t).length = 16 * 16 * bytesPerPixel depth := by
  rw [tileBytes, List.length_flatMap]
  simp only [encodePixel_size, List.map_const', List.sum_replicate, tilePixels_length, smul_eq_mul]

/-- The pixel in column `i` and row `j` of the tile. -/
theorem tileBytes_pixel (buffer : List Byte) (w : ℕ) (depth : Byte) (t : ℕ × ℕ) {i j : ℕ}
    (hi : i < 16) (hj : j < 16) :
    ((tileBytes buffer w depth t).drop ((j * 16 + i) * bytesPerPixel depth)).take
        (bytesPerPixel depth) =
      encodePixel depth (pixel buffer ((t.2 + j) * w + (t.1 + i))) := by
  have hrows : tileBytes buffer w depth t = (List.range 16).flatMap fun ty =>
      (List.range 16).flatMap fun tx =>
        encodePixel depth (pixel buffer ((t.2 + ty) * w + (t.1 + tx))) := by
    rw [tileBytes, tilePixels, List.flatMap_assoc]
    simp only [List.flatMap_map]
  have hrow : ∀ ty, ((List.range 16).flatMap fun tx =>
      encodePixel depth (pixel buffer ((t.2 + ty) * w + (t.1 + tx)))).length =
        16 * bytesPerPixel depth := by
    intro ty
    rw [List.length_flatMap]
    simp only [encodePixel_size, List.map_const', List.sum_replicate, List.length_range,
      smul_eq_mul]
  have hin := block_flatMap hrow hj
  have hpixel := block_flatMap (f := fun tx =>
    encodePixel depth (pixel buffer ((t.2 + j) * w + (t.1 + tx))))
    (fun _ => encodePixel_size depth _) hi
  have hroom : i * bytesPerPixel depth + bytesPerPixel depth ≤ 16 * bytesPerPixel depth := by
    rw [← Nat.succ_mul]
    exact Nat.mul_le_mul_right _ hi
  rw [← hin, List.drop_take, List.take_take, List.drop_drop, ← hrows] at hpixel
  rw [← hpixel, min_eq_left (by omega), Nat.add_mul, Nat.mul_assoc]

/-- What the client makes of a tile. -/
theorem showTile_hextileTile {buffer : List Byte} {n w : ℕ} (hn : buffer.length = n * 3)
    (depth : Byte) {t : ℕ × ℕ} (h : ∀ k ∈ tilePixels w t, k < n) {tile : List Byte}
    (made : hextileTile buffer w depth t = .ok tile) (x y : ℕ) (c : Colours) (pic : Picture)
    (rest : List Byte) :
    ∃ c', showTile (bytesPerPixel depth) x y 16 16 c pic (tile ++ rest) =
      some (fill pic x y 16 16 fun i j =>
        encodePixel depth (pixel buffer ((t.2 + j) * w + (t.1 + i))), c', rest) := by
  rw [hextileTile_inside hn depth h] at made
  obtain rfl := Except.ok.inj made
  by_cases hmixed : Mixed buffer w t
  · have hbytes : next (16 * 16 * bytesPerPixel depth) (tileBytes buffer w depth t ++ rest) =
        some (tileBytes buffer w depth t, rest) := next_append (tileBytes_length ..) rest
    have hmask : ((1 : Byte) &&& 1 ≠ 0) = True := by decide
    rw [if_pos hmixed, List.cons_append, showTile, next_one]
    simp only [Option.bind_eq_bind, Option.bind_some, List.getD_cons_zero, hmask, if_true]
    rw [show (tilePixels w t).flatMap (fun k => encodePixel depth (pixel buffer k)) =
      tileBytes buffer w depth t from rfl, hbytes]
    refine ⟨c, ?_⟩
    have hfill := @fill_congr pic x y 16 16 _ _ fun i hi j hj =>
      tileBytes_pixel buffer w depth t hi hj
    rw [← hfill]
    rfl
  · have hsame : ∀ i < 16, ∀ j < 16, encodePixel depth (pixel buffer (t.2 * w + t.1)) =
        encodePixel depth (pixel buffer ((t.2 + j) * w + (t.1 + i))) := by
      intro i hi j hj
      by_contra hdiffers
      refine hmixed ⟨_, mem_tilePixels.mpr ⟨j, hj, i, hi, rfl⟩, fun heq => hdiffers ?_⟩
      rw [heq]
    have hbytes : next (bytesPerPixel depth)
        (encodePixel depth (pixel buffer (t.2 * w + t.1)) ++ rest) =
          some (encodePixel depth (pixel buffer (t.2 * w + t.1)), rest) :=
      next_append (encodePixel_size depth _) rest
    have hraw : ((2 : Byte) &&& 1 ≠ 0) = False := by decide
    have hback : ((2 : Byte) &&& 2 ≠ 0) = True := by decide
    have hfore : ((2 : Byte) &&& 4 ≠ 0) = False := by decide
    have hsub : ((2 : Byte) &&& 8 ≠ 0) = False := by decide
    rw [if_neg hmixed, List.cons_append, showTile, next_one]
    simp only [Option.bind_eq_bind, Option.bind_some, List.getD_cons_zero, hraw, hback, hfore, hsub,
      if_true, if_false, hbytes]
    rw [fill_congr hsame]
    exact ⟨_, rfl⟩

/-! ## All tiles -/

/-- The pixel is in the tile, counted from the first pixel of the rectangle. -/
def InTile (r : Rectangle) (t p : ℕ × ℕ) : Prop :=
  (r.x + t.1 ≤ p.1 ∧ p.1 < r.x + t.1 + 16) ∧ r.y + t.2 ≤ p.2 ∧ p.2 < r.y + t.2 + 16

/-- The pixel of the frame buffer that is sent for a position. -/
def sentFor (buffer : List Byte) (r : Rectangle) (depth : Byte) (p : ℕ × ℕ) : List Byte :=
  encodePixel depth (pixel buffer ((p.2 - r.y) * r.w + (p.1 - r.x)))

theorem showTiles_hextile {buffer : List Byte} {n : ℕ} (hn : buffer.length = n * 3) (depth : Byte)
    {r : Rectangle} {ts : List (ℕ × ℕ)} (hinside : ∀ t ∈ ts, ∀ k ∈ tilePixels r.w t, k < n)
    (whole : ∀ t ∈ ts, t.1 + 16 ≤ r.w ∧ t.2 + 16 ≤ r.h) {data : List (List Byte)}
    (made : ts.mapM (hextileTile buffer r.w depth) = .ok data) (c : Colours) (pic : Picture)
    (rest : List Byte) :
    ∃ pic', showTiles (bytesPerPixel depth) r ts c pic (data.flatten ++ rest) = some (pic', rest) ∧
      ∀ p, ((∃ t ∈ ts, InTile r t p) → pic' p = sentFor buffer r depth p) ∧
        ((∀ t ∈ ts, ¬InTile r t p) → pic' p = pic p) := by
  induction ts generalizing c pic data with
  | nil =>
    obtain rfl := Except.ok.inj made
    exact ⟨pic, rfl, by simp⟩
  | cons t ts ih =>
    rw [List.mapM_cons] at made
    obtain ⟨tile, htile, made⟩ := exists_of_bind_eq_ok made
    obtain ⟨tail, htail, made⟩ := exists_of_bind_eq_ok made
    obtain rfl := Except.ok.inj made
    obtain ⟨hcolumns, hrows⟩ := whole t List.mem_cons_self
    obtain ⟨c', hshown⟩ := showTile_hextileTile hn depth (hinside t List.mem_cons_self) htile
      (r.x + t.1) (r.y + t.2) c pic (tail.flatten ++ rest)
    obtain ⟨pic', hrest, hpic⟩ := ih (fun t' h => hinside t' (List.mem_cons_of_mem _ h))
      (fun t' h => whole t' (List.mem_cons_of_mem _ h)) htail c' _
    refine ⟨pic', ?_, ?_⟩
    · rw [List.flatten_cons, List.append_assoc, showTiles, min_eq_left (by omega),
        min_eq_left (by omega), hshown]
      exact hrest
    · intro p
      obtain ⟨hin, hout⟩ := hpic p
      -- a later tile, this one or none
      by_cases hlater : ∃ t' ∈ ts, InTile r t' p
      · refine ⟨fun _ => hin hlater, fun hnone => ?_⟩
        obtain ⟨t', ht', hp⟩ := hlater
        exact absurd hp (hnone t' (List.mem_cons_of_mem _ ht'))
      · have hthis := hout fun t' ht' hp => hlater ⟨t', ht', hp⟩
        rw [hthis, fill]
        constructor
        · rintro ⟨t', ht', hp⟩
          obtain rfl | ht' := List.mem_cons.mp ht'
          · obtain ⟨hx, hy⟩ := hp
            rw [if_pos ⟨hx, hy⟩, sentFor]
            congr 3
            · congr 1
              omega
            · omega
          · exact absurd ⟨t', ht', hp⟩ hlater
        · intro hnone
          exact if_neg (hnone t List.mem_cons_self)

/-- The tiles of a rectangle in whole tiles cover it, and nothing else. -/
theorem inTile_iff {r : Rectangle} (hw : 16 ∣ r.w) (hh : 16 ∣ r.h) (p : ℕ × ℕ) :
    (∃ t ∈ tiles r.w r.h, InTile r t p) ↔
      (r.x ≤ p.1 ∧ p.1 < r.x + r.w) ∧ r.y ≤ p.2 ∧ p.2 < r.y + r.h := by
  constructor
  · rintro ⟨t, ht, hp⟩
    obtain ⟨j, hj, i, hi, rfl⟩ := mem_tiles.mp ht
    obtain ⟨hx, hy⟩ := hp
    dsimp only at hx hy
    omega
  · rintro ⟨hx, hy⟩
    refine ⟨(16 * ((p.1 - r.x) / 16), 16 * ((p.2 - r.y) / 16)), mem_tiles.mpr ?_, ?_⟩
    · exact ⟨(p.2 - r.y) / 16, by omega, (p.1 - r.x) / 16, by omega, rfl⟩
    · rw [InTile]
      dsimp only
      omega

/-! ## The message -/

/-- The rectangle can be written in a message. -/
structure Rectangle.Sized (r : Rectangle) : Prop where
  x : r.x < 2 ^ 16
  y : r.y < 2 ^ 16
  w : r.w < 2 ^ 16
  h : r.h < 2 ^ 16

/-- What is written in front of the tiles of a rectangle. -/
def rectangleHead (r : Rectangle) : List Byte :=
  be16Bytes (BitVec.ofNat 16 r.x) ++ be16Bytes (BitVec.ofNat 16 r.y) ++
    be16Bytes (BitVec.ofNat 16 r.w) ++ be16Bytes (BitVec.ofNat 16 r.h) ++ [0, 0, 0, 5]

theorem updateHeader_hextile (r : Rectangle) :
    updateHeader r 5 = [0, 0, 0, 1] ++ rectangleHead r := rfl

theorem rectangleHead_length (r : Rectangle) : (rectangleHead r).length = 12 := rfl

theorem word_toNat {n : ℕ} (hn : n < 2 ^ 16) :
    (be16 ((BitVec.ofNat 16 n >>> 8).setWidth 8) ((BitVec.ofNat 16 n).setWidth 8)).toNat = n := by
  rw [be16_be16Bytes, BitVec.toNat_ofNat, Nat.mod_eq_of_lt hn]

theorem showRectangles_one {r : Rectangle} (sized : r.Sized) (bpp : ℕ) (pic : Picture)
    (data : List Byte) :
    showRectangles bpp 1 pic (rectangleHead r ++ data) =
      showTiles bpp r (tiles r.w r.h) ⟨[], []⟩ pic data := by
  have hx : (be16 ((rectangleHead r).getD 0 0) ((rectangleHead r).getD 1 0)).toNat = r.x :=
    word_toNat sized.x
  have hy : (be16 ((rectangleHead r).getD 2 0) ((rectangleHead r).getD 3 0)).toNat = r.y :=
    word_toNat sized.y
  have hw : (be16 ((rectangleHead r).getD 4 0) ((rectangleHead r).getD 5 0)).toNat = r.w :=
    word_toNat sized.w
  have hh : (be16 ((rectangleHead r).getD 6 0) ((rectangleHead r).getD 7 0)).toNat = r.h :=
    word_toNat sized.h
  have hencoding : (rectangleHead r).drop 8 = [0, 0, 0, 5] := rfl
  rw [showRectangles, next_append (rectangleHead_length r)]
  simp only [Option.bind_eq_bind, Option.bind_some, Nat.reduceAdd, hx, hy, hw, hh, hencoding,
    if_true]
  cases showTiles bpp r (tiles r.w r.h) ⟨[], []⟩ pic data <;> rfl

theorem showUpdate_header {r : Rectangle} (sized : r.Sized) (bpp : ℕ) (pic : Picture)
    (data : List Byte) :
    showUpdate bpp pic (updateHeader r 5 ++ data) =
      showTiles bpp r (tiles r.w r.h) ⟨[], []⟩ pic data := by
  rw [updateHeader_hextile, List.append_assoc, showUpdate,
    next_append (a := [0, 0, 0, 1]) (n := 4) rfl, ← showRectangles_one sized]
  rfl

/-- The whole tiles of a rectangle inside are read inside. -/
theorem tilePixels_lt {fb : FrameBuffer} {buffer : List Byte} {r : Rectangle}
    (h : Inside fb buffer r) {t : ℕ × ℕ} (whole : t.1 + 16 ≤ r.w ∧ t.2 + 16 ≤ r.h) :
    ∀ k ∈ tilePixels r.w t, k < fb.w * fb.h := by
  intro k hk
  obtain ⟨ty, hty, tx, htx, rfl⟩ := mem_tilePixels.mp hk
  have hcolumns := h.columns
  have hrows := h.rows
  calc (t.2 + ty) * r.w + (t.1 + tx) < (t.2 + ty) * r.w + r.w := by omega
    _ = (t.2 + ty + 1) * r.w := (Nat.succ_mul _ _).symm
    _ ≤ fb.h * fb.w := Nat.mul_le_mul (by omega) (by omega)
    _ = fb.w * fb.h := Nat.mul_comm _ _

/-- A Hextile message is its header and its tiles. -/
theorem message_hextile (compressed : ℤ → List Byte → Except Fault (List Byte)) {fb : FrameBuffer}
    {buffer : List Byte} {r : Rectangle} (h : Inside fb buffer r) {encodings : List ℤ}
    (hextileChosen : chosenEncoding encodings = 5) {depth : Byte} {message : List Byte}
    (sent : calculateFbUpdate compressed fb encodings r depth = .ok (some message)) :
    ∃ data, (tiles r.w r.h).mapM (hextileTile buffer r.w depth) = .ok data ∧
      message = updateHeader r 5 ++ data.flatten := by
  have hcolumns := h.columns
  have hrows := h.rows
  rw [calculateFbUpdate, if_neg (by omega), h.buffer, hextileChosen] at sent
  obtain ⟨bytes, hbytes, sent⟩ := exists_of_bind_eq_ok sent
  rw [updateData, if_pos rfl, hextile] at hbytes
  cases hdata : (tiles r.w r.h).mapM (hextileTile buffer r.w depth) with
  | error fault =>
    rw [hdata] at hbytes
    cases hbytes
  | ok data =>
    rw [hdata] at hbytes
    obtain rfl := Except.ok.inj hbytes
    refine ⟨data, rfl, ?_⟩
    dsimp only at sent
    split_ifs at sent
    · cases sent
    · exact (Option.some.inj (Except.ok.inj sent)).symm

/-- A client that reads a Hextile update of a rectangle in whole tiles shows in it what is sent for
each position and leaves everything else as it was, and goes on behind the message. If the rectangle
goes over the whole width from the first row on, these are the pixels of the frame buffer at their
places. -/
theorem hextile_shows (compressed : ℤ → List Byte → Except Fault (List Byte)) {fb : FrameBuffer}
    {buffer : List Byte} {r : Rectangle} (h : Inside fb buffer r) (sized : r.Sized) (hw : 16 ∣ r.w)
    (hh : 16 ∣ r.h) {encodings : List ℤ} (hextileChosen : chosenEncoding encodings = 5)
    {depth : Byte} {message : List Byte}
    (sent : calculateFbUpdate compressed fb encodings r depth = .ok (some message)) (pic : Picture)
    (rest : List Byte) :
    ∃ pic', showUpdate (bytesPerPixel depth) pic (message ++ rest) = some (pic', rest) ∧
      (∀ p ∈ positions r, pic' p = sentFor buffer r depth p) ∧
      (∀ p, p ∉ positions r → pic' p = pic p) ∧
      (r.w = fb.w → r.y = 0 → ∀ p ∈ positions r,
        pic' p = encodePixel depth (pixel buffer (p.2 * fb.w + p.1))) := by
  have hcolumns := h.columns
  obtain ⟨data, hdata, rfl⟩ := message_hextile compressed h hextileChosen sent
  have whole : ∀ t ∈ tiles r.w r.h, t.1 + 16 ≤ r.w ∧ t.2 + 16 ≤ r.h := by
    intro t ht
    obtain ⟨j, hj, i, hi, rfl⟩ := mem_tiles.mp ht
    dsimp only
    omega
  obtain ⟨pic', hshown, hpic⟩ := showTiles_hextile (fb.size buffer h.buffer) depth
    (fun t ht => tilePixels_lt h (whole t ht)) whole hdata ⟨[], []⟩ pic rest
  have hcovered : ∀ p, p ∈ positions r ↔ ∃ t ∈ tiles r.w r.h, InTile r t p := fun p =>
    mem_positions.trans (inTile_iff hw hh p).symm
  have hinside : ∀ p ∈ positions r, pic' p = sentFor buffer r depth p := fun p hp =>
    (hpic p).1 ((hcovered p).mp hp)
  refine ⟨pic', ?_, hinside, ?_, ?_⟩
  · rw [List.append_assoc, showUpdate_header sized, hshown]
  · intro p hp
    exact (hpic p).2 fun t ht hin => hp ((hcovered p).mpr ⟨t, ht, hin⟩)
  · intro hwidth hfirst p hp
    have hleft : r.x = 0 := by omega
    rw [hinside p hp, sentFor, hfirst, hleft, hwidth, Nat.sub_zero, Nat.sub_zero]

/-! ## A black tile -/

namespace Sample

def blackBuffer : FrameBuffer :=
  ⟨32, 16, some (List.replicate (32 * 16 * 3) 0), black_length _⟩

/-- The right one of two tiles. -/
def blackUpdate : List Byte :=
  [0, 0, 0, 1, 0, 16, 0, 0, 0, 16, 0, 16, 0, 0, 0, 5, 2, 0, 0, 0, 255]

/-- A client that showed nothing yet shows a black square. -/
theorem hextile_shows_black :
    ∃ pic, showUpdate 4 (fun _ => []) (blackUpdate ++ [2]) = some (pic, [2]) ∧
      pic (16, 7) = [0, 0, 0, 255] ∧ pic (15, 7) = [] := by
  have hinside : Inside blackBuffer (List.replicate (32 * 16 * 3) 0) ⟨16, 0, 16, 16⟩ :=
    ⟨rfl, by decide, by decide⟩
  have htiles : hextile (List.replicate (32 * 16 * 3) 0) 16 16 24 = .ok [2, 0, 0, 0, 255] := by
    have htile : hextileTile (List.replicate (32 * 16 * 3) 0) 16 24 (0, 0) =
        .ok [2, 0, 0, 0, 255] := by
      have hpixels : ∀ k ∈ tilePixels 16 (0, 0), k < 32 * 16 :=
        tilePixels_lt hinside (t := (0, 0)) ⟨by decide, by decide⟩
      rw [hextileTile_inside List.length_replicate 24 hpixels, if_neg (not_mixed_black _ _ _),
        pixel_black]
      rfl
    rw [hextile, show tiles 16 16 = [(0, 0)] by decide, List.mapM_cons, htile]
    rfl
  have hsent : calculateFbUpdate (fun _ _ => .ok []) blackBuffer [5] ⟨16, 0, 16, 16⟩ 24 =
      .ok (some blackUpdate) := by
    rw [calculateFbUpdate_hextile _ hinside rfl, htiles]
    rfl
  obtain ⟨pic, hshown, hin, hout, -⟩ := hextile_shows (fun _ _ => .ok []) hinside
    ⟨by decide, by decide, by decide, by decide⟩ ⟨1, rfl⟩ ⟨1, rfl⟩ rfl hsent (fun _ => []) [2]
  refine ⟨pic, hshown, ?_, ?_⟩
  · rw [hin (16, 7) (mem_positions.mpr (by decide))]
    decide +kernel
  · exact hout (15, 7) fun hmem => absurd (mem_positions.mp hmem) (by decide)

end Sample

end MyIp.Vnc
