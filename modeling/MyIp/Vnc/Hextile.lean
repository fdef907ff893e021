import MyIp.Vnc.FrameBuffer

/-! # The size of a Hextile update

`hextile` (`vnc.cpp`) "assumes w & h multiples of 16": it reads whole tiles, also where they reach
beyond the rectangle. A tile that has more than one colour takes one byte more than its pixels, so
that at four bytes a pixel it is larger than what was allocated for it. -/

namespace MyIp.Vnc
set_option autoImplicit false

open Bytes

/-- The numbers of the pixels of a tile, in rows of `w`. -/
def tilePixels (w : ℕ) (t : ℕ × ℕ) : List ℕ :=
  (List.range 16).flatMap fun ty => (List.range 16).map fun tx => (t.2 + ty) * w + (t.1 + tx)

/-- The tile has more than one colour. -/
def Mixed (buffer : List Byte) (w : ℕ) (t : ℕ × ℕ) : Prop :=
  ∃ k ∈ tilePixels w t, pixel buffer k ≠ pixel buffer (t.2 * w + t.1)

instance (buffer : List Byte) (w : ℕ) (t : ℕ × ℕ) : Decidable (Mixed buffer w t) :=
  inferInstanceAs (Decidable (∃ k ∈ tilePixels w t, pixel buffer k ≠ pixel buffer (t.2 * w + t.1)))

def mixedTiles (buffer : List Byte) (w h : ℕ) : ℕ := (tiles w h).countP fun t => Mixed buffer w t

def bytesPerPixel (depth : Byte) : ℕ := if depth = 32 ∨ depth = 24 then 4 else if depth = 8 then 1 else 0

/-- `n` pixels, up to whole tiles. -/
def wholeTiles (n : ℕ) : ℕ := 16 * ((n + 15) / 16)

/-- The last pixel of the last tile is one of the `n` pixels of the frame buffer. -/
def TilesInside (n w h : ℕ) : Prop :=
  w = 0 ∨ h = 0 ∨ (wholeTiles h - 1) * w + (wholeTiles w - 1) < n

/-- A byte for each tile, and its pixels: one if it has one colour, all of them if it is mixed. -/
def hextileSize (buffer : List Byte) (w h : ℕ) (depth : Byte) : ℕ :=
  (tiles w h).length + mixedTiles buffer w h * (256 * bytesPerPixel depth) +
    ((tiles w h).length - mixedTiles buffer w h) * bytesPerPixel depth

/-! ## One tile -/

theorem encodePixel_size (depth : Byte) (p : Rgb) :
    (encodePixel depth p).length = bytesPerPixel depth := by
  unfold encodePixel bytesPerPixel
  split_ifs <;> rfl

theorem tileOffsets_eq (w : ℕ) (t : ℕ × ℕ) : tileOffsets w t = (tilePixels w t).map (3 * ·) := by
  rw [tileOffsets, tilePixels, List.map_flatMap]
  congr 1
  funext ty
  rw [List.map_map]
  congr 1
  funext tx
  simp only [Function.comp_apply]
  ring

theorem tilePixels_length (w : ℕ) (t : ℕ × ℕ) : (tilePixels w t).length = 256 := by
  rw [tilePixels, List.length_flatMap]
  simp

theorem mem_tilePixels {w k : ℕ} {t : ℕ × ℕ} :
    k ∈ tilePixels w t ↔ ∃ ty < 16, ∃ tx < 16, (t.2 + ty) * w + (t.1 + tx) = k := by
  simp only [tilePixels, List.mem_flatMap, List.mem_map, List.mem_range]

theorem first_mem_tilePixels (w : ℕ) (t : ℕ × ℕ) : t.2 * w + t.1 ∈ tilePixels w t :=
  mem_tilePixels.mpr ⟨0, by decide, 0, by decide, by rw [Nat.add_zero, Nat.add_zero]⟩

theorem rgbAt_outside {buffer : List Byte} {n k : ℕ} (hn : buffer.length = n * 3) (hk : n ≤ k) :
    rgbAt buffer (3 * k) = .error .outside := by
  rw [rgbAt, if_neg (by omega)]

/-- The scan of pixels that are inside. -/
theorem scanTile_inside {buffer : List Byte} {n : ℕ} (hn : buffer.length = n * 3) (s : Rgb)
    {ks : List ℕ} (hks : ∀ k ∈ ks, k < n) :
    scanTile buffer s (ks.map (3 * ·)) = .ok (decide (∃ k ∈ ks, pixel buffer k ≠ s)) := by
  induction ks with
  | nil => simp [scanTile]
  | cons k ks ih =>
    rw [List.map_cons, scanTile, rgbAt_pixel hn (hks k List.mem_cons_self)]
    simp only [bind, Except.bind]
    by_cases hk : pixel buffer k = s
    · rw [if_neg (not_not.mpr hk), ih fun k' h => hks k' (List.mem_cons_of_mem _ h)]
      simp [hk]
    · rw [if_pos hk]
      simp [hk, pure, Except.pure]

/-- A scan that finds no difference has read everything. -/
theorem read_of_scanTile {buffer : List Byte} {s : Rgb} {offsets : List ℕ}
    (h : scanTile buffer s offsets = .ok false) :
    ∀ offset ∈ offsets, rgbAt buffer offset ≠ .error .outside := by
  induction offsets with
  | nil => simp
  | cons offset offsets ih =>
    rw [scanTile] at h
    cases hread : rgbAt buffer offset with
    | error fault =>
      rw [hread] at h
      cases h
    | ok c =>
      rw [hread] at h
      simp only [bind, Except.bind] at h
      split_ifs at h with hc
      · cases h
      · intro offset' hmem
        obtain rfl | hmem := List.mem_cons.mp hmem
        · rw [hread]
          intro hcontra
          cases hcontra
        · exact ih h offset' hmem

theorem mapM_error {α β : Type} {f : α → Except Fault β} {l : List α} {a : α} (ha : a ∈ l)
    (h : f a = .error .outside) : l.mapM f = .error .outside := by
  induction l with
  | nil => cases ha
  | cons b l ih =>
    rw [List.mapM_cons]
    cases hb : f b with
    | error fault =>
      cases fault
      rfl
    | ok c =>
      obtain rfl | ha := List.mem_cons.mp ha
      · rw [h] at hb
        cases hb
      · rw [ih ha]
        rfl

theorem hextileTile_inside {buffer : List Byte} {n w : ℕ} (hn : buffer.length = n * 3) (depth : Byte)
    {t : ℕ × ℕ} (h : ∀ k ∈ tilePixels w t, k < n) :
    hextileTile buffer w depth t = .ok (if Mixed buffer w t then
        1 :: (tilePixels w t).flatMap fun k => encodePixel depth (pixel buffer k)
      else 2 :: encodePixel depth (pixel buffer (t.2 * w + t.1))) := by
  have hfirst : t.2 * w * 3 + t.1 * 3 = 3 * (t.2 * w + t.1) := by ring
  have hpixels : ((tilePixels w t).map (3 * ·)).mapM (rgbAt buffer) =
      .ok ((tilePixels w t).map (pixel buffer)) := by
    rw [List.mapM_map]
    exact mapM_eq_ok fun k hk => rgbAt_pixel hn (h k hk)
  rw [hextileTile, hfirst, rgbAt_pixel hn (h _ (first_mem_tilePixels w t)), tileOffsets_eq]
  simp only [bind, Except.bind, scanTile_inside hn _ h, hpixels, decide_eq_true_eq]
  by_cases hmixed : Mixed buffer w t
  · have hsome : ∃ k ∈ tilePixels w t, pixel buffer k ≠ pixel buffer (t.2 * w + t.1) := hmixed
    rw [if_pos hsome, if_pos hmixed]
    simp only [pure, Except.pure, List.flatMap_map]
  · have hnone : ¬∃ k ∈ tilePixels w t, pixel buffer k ≠ pixel buffer (t.2 * w + t.1) := hmixed
    rw [if_neg hnone, if_neg hmixed]
    rfl

theorem hextileTile_outside {buffer : List Byte} {n w k : ℕ} (hn : buffer.length = n * 3) (depth : Byte)
    {t : ℕ × ℕ} (hk : k ∈ tilePixels w t) (hout : n ≤ k) :
    hextileTile buffer w depth t = .error .outside := by
  have hmem : 3 * k ∈ tileOffsets w t := by
    rw [tileOffsets_eq]
    exact List.mem_map_of_mem hk
  have hread := rgbAt_outside hn hout
  rw [hextileTile]
  cases rgbAt buffer (t.2 * w * 3 + t.1 * 3) with
  | error fault =>
    cases fault
    rfl
  | ok s =>
    simp only [bind, Except.bind]
    cases hscan : scanTile buffer s (tileOffsets w t) with
    | error fault =>
      cases fault
      rfl
    | ok different =>
      cases different with
      | false => exact absurd hread (read_of_scanTile hscan _ hmem)
      | true =>
        dsimp only
        rw [if_pos rfl, mapM_error hmem hread]

/-! ## All tiles -/

theorem mem_tiles {w h : ℕ} {t : ℕ × ℕ} :
    t ∈ tiles w h ↔ ∃ j < (h + 15) / 16, ∃ i < (w + 15) / 16, (16 * i, 16 * j) = t := by
  simp only [tiles, List.mem_flatMap, List.mem_map, List.mem_range]

theorem tilesInside_iff {n w h : ℕ} :
    TilesInside n w h ↔ ∀ t ∈ tiles w h, ∀ k ∈ tilePixels w t, k < n := by
  constructor
  · intro hlast t ht k hk
    obtain ⟨j, hj, i, hi, rfl⟩ := mem_tiles.mp ht
    obtain ⟨ty, hty, tx, htx, rfl⟩ := mem_tilePixels.mp hk
    have hlast : (wholeTiles h - 1) * w + (wholeTiles w - 1) < n := by
      obtain rfl | rfl | hlast := hlast
      · omega
      · omega
      · exact hlast
    have hrow : (16 * j + ty) * w ≤ (wholeTiles h - 1) * w := by
      apply Nat.mul_le_mul_right
      rw [wholeTiles]
      omega
    have hcolumn : 16 * i + tx ≤ wholeTiles w - 1 := by
      rw [wholeTiles]
      omega
    exact (Nat.add_le_add hrow hcolumn).trans_lt hlast
  · intro hall
    by_cases hw : w = 0
    · exact .inl hw
    by_cases hh : h = 0
    · exact .inr (.inl hh)
    -- the last pixel of the last tile
    refine .inr (.inr (hall (16 * ((w + 15) / 16 - 1), 16 * ((h + 15) / 16 - 1)) ?_ _ ?_))
    · exact mem_tiles.mpr ⟨_, by omega, _, by omega, rfl⟩
    · refine mem_tilePixels.mpr ⟨15, by decide, 15, by decide, ?_⟩
      have hrow : 16 * ((h + 15) / 16 - 1) + 15 = wholeTiles h - 1 := by
        rw [wholeTiles]
        omega
      have hcolumn : 16 * ((w + 15) / 16 - 1) + 15 = wholeTiles w - 1 := by
        rw [wholeTiles]
        omega
      rw [hrow, hcolumn]

theorem sum_tiles (M : ℕ × ℕ → Prop) [DecidablePred M] (p : ℕ) (ts : List (ℕ × ℕ)) :
    (ts.map fun t => if M t then 1 + 256 * p else 1 + p).sum =
      ts.length + ts.countP (fun t => M t) * (256 * p) + (ts.length - ts.countP fun t => M t) * p := by
  induction ts with
  | nil => simp
  | cons t ts ih =>
    have hle := List.countP_le_length (p := fun t => decide (M t)) (l := ts)
    rw [List.map_cons, List.sum_cons, ih, List.length_cons, List.countP_cons]
    by_cases ht : M t
    · simp only [ht, if_true, decide_true]
      have hsub : ts.length + 1 - (ts.countP (fun t => decide (M t)) + 1) =
          ts.length - ts.countP fun t => decide (M t) := by omega
      rw [hsub]
      ring
    · simp only [ht, if_false, decide_false, Nat.add_zero, Bool.false_eq_true]
      rw [Nat.sub_add_comm hle]
      ring

/-- What `hextile` writes, if it reads inside. -/
theorem hextile_inside {buffer : List Byte} {n w h : ℕ} (hn : buffer.length = n * 3) (depth : Byte)
    (hinside : TilesInside n w h) :
    ∃ data, hextile buffer w h depth = .ok data ∧ data.length = hextileSize buffer w h depth := by
  have htile := fun t ht => hextileTile_inside hn depth (tilesInside_iff.mp hinside t ht)
  refine ⟨_, by rw [hextile, mapM_eq_ok htile]; rfl, ?_⟩
  have hlength : ∀ t : ℕ × ℕ, (if Mixed buffer w t then
        1 :: (tilePixels w t).flatMap fun k => encodePixel depth (pixel buffer k)
      else 2 :: encodePixel depth (pixel buffer (t.2 * w + t.1))).length =
        if Mixed buffer w t then 1 + 256 * bytesPerPixel depth else 1 + bytesPerPixel depth := by
    intro t
    split_ifs
    · rw [List.length_cons, List.length_flatMap]
      simp only [encodePixel_size, List.map_const', List.sum_replicate, tilePixels_length, smul_eq_mul]
      exact Nat.add_comm _ _
    · rw [List.length_cons, encodePixel_size, Nat.add_comm]
  rw [List.length_flatten, List.map_map, hextileSize, mixedTiles, ← sum_tiles (Mixed buffer w)]
  congr 1
  apply List.map_congr_left
  exact fun t _ => hlength t

theorem hextile_outside {buffer : List Byte} {n w h : ℕ} (hn : buffer.length = n * 3) (depth : Byte)
    (houtside : ¬TilesInside n w h) : hextile buffer w h depth = .error .outside := by
  rw [tilesInside_iff] at houtside
  push Not at houtside
  obtain ⟨t, ht, k, hk, hout⟩ := houtside
  rw [hextile, mapM_error ht (hextileTile_outside hn depth hk hout)]
  rfl

theorem calculateFbUpdate_hextile (compressed : ℤ → List Byte → Except Fault (List Byte))
    {fb : FrameBuffer} {buffer : List Byte} {r : Rectangle} (h : Inside fb buffer r)
    {encodings : List ℤ} (hextileChosen : chosenEncoding encodings = 5) (depth : Byte) :
    calculateFbUpdate compressed fb encodings r depth = (do
      let data ← hextile buffer r.w r.h depth
      if r.w * r.h * 4 < data.length then throw .outside
      return some (updateHeader r 5 ++ data)) := by
  have hcolumns := h.columns
  have hrows := h.rows
  rw [calculateFbUpdate, if_neg (by omega), h.buffer, hextileChosen]
  rfl

/-- There is a message, and neither a read outside the frame buffer nor a write behind what was
allocated. -/
def Bounded (compressed : ℤ → List Byte → Except Fault (List Byte)) (fb : FrameBuffer)
    (encodings : List ℤ) (r : Rectangle) (depth : Byte) : Prop :=
  ∃ message, calculateFbUpdate compressed fb encodings r depth = .ok (some message)

/-- A Hextile update stays inside its bounds exactly if the whole tiles of a rectangle of that size at
the origin lie within the pixels of the frame buffer, and the tiles take no more than four bytes for
each pixel of the rectangle. -/
theorem hextile_bounded_iff (compressed : ℤ → List Byte → Except Fault (List Byte)) {fb : FrameBuffer}
    {buffer : List Byte} {r : Rectangle} (h : Inside fb buffer r) {encodings : List ℤ}
    (hextileChosen : chosenEncoding encodings = 5) (depth : Byte) :
    Bounded compressed fb encodings r depth ↔
      TilesInside (fb.w * fb.h) r.w r.h ∧ hextileSize buffer r.w r.h depth ≤ r.w * r.h * 4 := by
  have hsize := fb.size buffer h.buffer
  have hupdate := calculateFbUpdate_hextile compressed h hextileChosen depth
  by_cases hinside : TilesInside (fb.w * fb.h) r.w r.h
  · obtain ⟨data, hdata, hlength⟩ := hextile_inside hsize depth hinside
    rw [Bounded, hupdate, hdata]
    simp only [bind, Except.bind, hlength]
    by_cases hfits : r.w * r.h * 4 < hextileSize buffer r.w r.h depth
    · rw [if_pos hfits]
      refine iff_of_false ?_ fun hboth => not_lt.mpr hboth.2 hfits
      rintro ⟨message, hmessage⟩
      cases hmessage
    · rw [if_neg hfits]
      exact iff_of_true ⟨_, rfl⟩ ⟨hinside, not_lt.mp hfits⟩
  · rw [Bounded, hupdate, hextile_outside hsize depth hinside]
    refine iff_of_false ?_ fun hboth => hinside hboth.1
    rintro ⟨message, hmessage⟩
    cases hmessage

theorem black_length (n : ℕ) : ∀ b ∈ some (List.replicate n (0 : Byte)), b.length = n := by
  intro b hb
  obtain rfl := Option.some.inj hb
  exact List.length_replicate

theorem pixel_black (n k : ℕ) : pixel (List.replicate n 0) k = ⟨0, 0, 0⟩ := by
  simp only [pixel, List.getD_eq_getElem?_getD, List.getElem?_getD_replicate_default_eq]

theorem not_mixed_black (n w : ℕ) (t : ℕ × ℕ) : ¬Mixed (List.replicate n 0) w t := by
  rintro ⟨k, -, hk⟩
  rw [pixel_black, pixel_black] at hk
  exact hk rfl

theorem mixedTiles_black (n w h : ℕ) : mixedTiles (List.replicate n 0) w h = 0 :=
  List.countP_eq_zero.mpr fun t _ => by simpa using not_mixed_black n w t

/-- A tile of one colour. -/
theorem bounded_black :
    Bounded (fun _ _ => .ok []) ⟨16, 16, some (List.replicate (16 * 16 * 3) 0), black_length _⟩ [5]
      ⟨0, 0, 16, 16⟩ 24 :=
  have hwhole : Inside ⟨16, 16, some (List.replicate (16 * 16 * 3) 0), black_length _⟩
      (List.replicate (16 * 16 * 3) 0) ⟨0, 0, 16, 16⟩ := ⟨rfl, by decide, by decide⟩
  (hextile_bounded_iff (fun _ _ => .ok []) hwhole rfl 24).mpr
    ⟨.inr (.inr (by decide)), by rw [hextileSize, mixedTiles_black]; decide⟩

/-- A tile with one white pixel: 1025 bytes are written into 1024. -/
theorem not_bounded_spot :
    ¬Bounded (fun _ _ => .ok []) ⟨16, 16, some (spot 256 0), by decide +kernel⟩ [5] ⟨0, 0, 16, 16⟩ 24 := by
  have hwhole : Inside ⟨16, 16, some (spot 256 0), by decide +kernel⟩ (spot 256 0) ⟨0, 0, 16, 16⟩ :=
    ⟨rfl, by decide, by decide⟩
  have hlarge : 16 * 16 * 4 < hextileSize (spot 256 0) 16 16 24 := by decide +kernel
  obtain ⟨data, hdata, hlength⟩ := hextile_inside (spot_length 256 0) 24
    (.inr (.inr (by decide)) : TilesInside 256 16 16)
  rintro ⟨message, hmessage⟩
  rw [calculateFbUpdate_hextile _ hwhole rfl, hdata] at hmessage
  simp only [bind, Except.bind, hlength, if_pos hlarge] at hmessage
  cases hmessage

end MyIp.Vnc
