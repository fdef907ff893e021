import Mathlib.Data.List.ReduceOption
import MyIp.Foundations.Framing
import MyIp.Foundations.Bytes

/-! # KISS

`phys_kiss::transmit_ax25` puts a frame around the bytes of an AX.25 packet,
`phys_kiss::handle_kiss` reads such frames into a buffer of 256 bytes. The inner loop of
`handle_kiss` starts again with an empty buffer after each frame and, in the middle of a frame, when
a byte finds the buffer full.

What a frame is does not depend on the buffer: `frames` cuts a stream at every FEND that does not
follow a FESC, `units` are the bytes a frame stands for, with `none` for an escape sequence that
stands for nothing. `feed_frame` says what `handle_kiss` makes of a frame in these terms. From it
follow the round trip (`kiss_round_trip`) and which frames are dropped whole
(`frames_whole_iff`). -/

namespace MyIp.Phys.Kiss
set_option autoImplicit false

open Bytes Framing

/-- `MAX_PACKET_SIZE` -/
def maxPacketSize : ℕ := 256

def FEND : Byte := 0xc0
def FESC : Byte := 0xdb
def TFEND : Byte := 0xdc
def TFESC : Byte := 0xdd

/-- `escape_put`: what is put out for one byte. -/
def escapePut (c : Byte) : List Byte :=
  if c = FEND then [FESC, TFEND]
  else if c = FESC then [FESC, TFESC]
  else [c]

/-- `max_len` -/
def maxLen (packetSize : ℕ) : ℕ := packetSize * 2 + 3

/-- `transmit_ax25`: the bytes it writes for a packet, sent with command 0 on channel 0. -/
def transmitAx25 (packet : List Byte) : List Byte :=
  FEND :: (escapePut 0 ++ packet.flatMap escapePut ++ [FEND])

/-- The inner loop of `handle_kiss`: the first `len` bytes of `p`, and `escape`. -/
structure Reader where
  p : List Byte
  escape : Bool
  deriving DecidableEq

def Reader.start : Reader := ⟨[], false⟩

/-- What `process_kiss_packet` gets when a frame ends: all but the command byte. -/
def frameDone (p : List Byte) : List (List Byte) := if p = [] then [] else [p.tail]

/-- One byte that `handle_kiss` reads, and what it passes to `process_kiss_packet`. -/
def handleKiss (r : Reader) (buffer : Byte) : Reader × List (List Byte) :=
  if r.escape then
    if r.p.length = maxPacketSize then (.start, [])
    else if buffer = TFEND then (⟨r.p ++ [FEND], false⟩, [])
    else if buffer = TFESC then (⟨r.p ++ [FESC], false⟩, [])
    else (⟨r.p, false⟩, [])
  else if buffer = FEND then (.start, frameDone r.p)
  else if buffer = FESC then (⟨r.p, true⟩, [])
  else if r.p.length = maxPacketSize then (.start, [])
  else (⟨r.p ++ [buffer], false⟩, [])

/-! ## Frames of a stream -/

/-- The complete frames of a stream and what comes after the last of them; `current` is the part of
the first frame already read, `escape` says whether it ends with an open FESC. -/
def cut (escape : Bool) (current : List Byte) : List Byte → List (List Byte) × List Byte
  | [] => ([], current)
  | b :: bs =>
    if escape then cut false (current ++ [b]) bs
    else if b = FEND then (current :: (cut false [] bs).1, (cut false [] bs).2)
    else cut (b == FESC) (current ++ [b]) bs

def frames (stream : List Byte) : List (List Byte) := (cut false [] stream).1

def unitsFrom : Bool → List Byte → List (Option Byte)
  | _, [] => []
  | true, b :: bs =>
    (if b = TFEND then some FEND else if b = TFESC then some FESC else none) :: unitsFrom false bs
  | false, b :: bs => if b = FESC then unitsFrom true bs else some b :: unitsFrom false bs

/-- The bytes of a frame, `none` for each unknown escape sequence. -/
def units (frame : List Byte) : List (Option Byte) := unitsFrom false frame

/-- The complete unescaped content of a frame. -/
def content (frame : List Byte) : List Byte := (units frame).reduceOption

/-- What is left of a frame in a buffer that starts again when a unit finds it full. -/
def fill (us : List (Option Byte)) : List Byte :=
  us.foldl (fun p u => if p.length = maxPacketSize then [] else p ++ u.toList) []

/-- Whether a frame that starts with `frame` is inside an escape sequence. -/
def openAfter (frame : List Byte) : Bool := frame.foldl (fun escape b => !escape && b == FESC) false

/-- The reader after the bytes `frame` of a frame that has not ended. -/
def readerAt (frame : List Byte) : Reader := ⟨fill (units frame), openAfter frame⟩

theorem openAfter_snoc (frame : List Byte) (b : Byte) :
    openAfter (frame ++ [b]) = (!openAfter frame && b == FESC) := by
  simp [openAfter]

theorem unitsFrom_snoc (escape : Bool) (frame : List Byte) (b : Byte) :
    unitsFrom escape (frame ++ [b]) = unitsFrom escape frame ++
      unitsFrom (frame.foldl (fun escape b => !escape && b == FESC) escape) [b] := by
  induction frame generalizing escape with
  | nil => cases escape <;> simp [unitsFrom]
  | cons a frame ih =>
    cases escape with
    | true => simp [unitsFrom, ih]
    | false =>
      by_cases ha : a = FESC
      · simp [unitsFrom, ih, ha]
      · have hne : (a == FESC) = false := beq_eq_false_iff_ne.mpr ha
        simp [unitsFrom, ih, ha, hne]

theorem units_snoc (frame : List Byte) (b : Byte) :
    units (frame ++ [b]) = units frame ++ unitsFrom (openAfter frame) [b] :=
  unitsFrom_snoc false frame b

theorem fill_snoc (us : List (Option Byte)) (u : Option Byte) :
    fill (us ++ [u]) = if (fill us).length = maxPacketSize then [] else fill us ++ u.toList := by
  rw [fill, List.foldl_append]
  rfl

/-- A byte that does not end the frame is one of the frame. -/
theorem handleKiss_inside {frame : List Byte} {b : Byte} (h : openAfter frame = true ∨ b ≠ FEND) :
    handleKiss (readerAt frame) b = (readerAt (frame ++ [b]), []) := by
  rw [readerAt, readerAt, openAfter_snoc, units_snoc]
  cases hesc : openAfter frame with
  | true =>
    by_cases hfull : (fill (units frame)).length = maxPacketSize
    · simp [handleKiss, unitsFrom, fill_snoc, hfull, Reader.start]
    · by_cases hend : b = TFEND
      · simp [handleKiss, unitsFrom, fill_snoc, hfull, hend]
      · by_cases hfesc : b = TFESC
        · simp [handleKiss, unitsFrom, fill_snoc, hfull, hfesc, show TFESC ≠ TFEND by decide]
        · simp [handleKiss, unitsFrom, fill_snoc, hfull, hend, hfesc]
  | false =>
    have hend : b ≠ FEND := by simpa [hesc] using h
    by_cases hfesc : b = FESC
    · simp [handleKiss, unitsFrom, hfesc, show FESC ≠ FEND by decide]
    · by_cases hfull : (fill (units frame)).length = maxPacketSize
      · simp [handleKiss, unitsFrom, fill_snoc, hend, hfesc, hfull, Reader.start]
      · simp [handleKiss, unitsFrom, fill_snoc, hend, hfesc, hfull]

theorem handleKiss_end {frame : List Byte} (h : openAfter frame = false) :
    handleKiss (readerAt frame) FEND = (.start, frameDone (fill (units frame))) := by
  simp [handleKiss, readerAt, h]

theorem feed_snoc_inside {frame : List Byte} {b : Byte}
    (hframe : feed handleKiss .start frame = (readerAt frame, []))
    (h : openAfter frame = true ∨ b ≠ FEND) :
    feed handleKiss .start (frame ++ [b]) = (readerAt (frame ++ [b]), []) := by
  have hb : feed handleKiss (readerAt frame) [b] = (readerAt (frame ++ [b]), []) := by
    rw [feed_singleton]
    exact handleKiss_inside h
  exact feed_append_of_eq hframe hb

theorem feed_nothing : feed handleKiss .start [] = (readerAt [], []) := rfl

/-- The stream falls into its frames and a rest, and in all of them nothing is passed on before the
FEND. -/
theorem cut_spec {current : List Byte} (hcurrent : feed handleKiss .start current =
    (readerAt current, [])) (stream : List Byte) :
    let c := cut (openAfter current) current stream
    (c.1.map (· ++ [FEND])).flatten ++ c.2 = current ++ stream ∧
    (∀ f ∈ c.1, feed handleKiss .start f = (readerAt f, []) ∧ openAfter f = false) ∧
    feed handleKiss .start c.2 = (readerAt c.2, []) := by
  induction stream generalizing current with
  | nil => exact ⟨by simp [cut], by simp [cut], hcurrent⟩
  | cons b bs ih =>
    cases hesc : openAfter current with
    | true =>
      have h := ih (feed_snoc_inside (b := b) hcurrent (Or.inl hesc))
      rw [openAfter_snoc, hesc] at h
      simpa [cut] using h
    | false =>
      by_cases hend : b = FEND
      · obtain ⟨hjoin, hframes, hrest⟩ := ih feed_nothing
        have hcut : cut false current (b :: bs) =
            (current :: (cut false [] bs).1, (cut false [] bs).2) := by
          rw [cut, if_neg Bool.false_ne_true, if_pos hend]
        rw [hcut]
        refine ⟨?_, ?_, hrest⟩
        · have hjoin' : ((cut false [] bs).1.map (· ++ [FEND])).flatten ++
              (cut false [] bs).2 = bs := hjoin
          simp [List.map_cons, List.flatten_cons, hend, hjoin']
        · intro f hf
          rcases List.mem_cons.mp hf with rfl | hf
          · exact ⟨hcurrent, hesc⟩
          · exact hframes f hf
      · have h := ih (feed_snoc_inside (b := b) hcurrent (Or.inr hend))
        rw [openAfter_snoc, hesc] at h
        simpa [cut, hend] using h

/-- What `handle_kiss` passes on while it reads each of the frames of a stream. -/
def passedOn (stream : List Byte) : List (List (List Byte)) :=
  feedEach handleKiss .start ((frames stream).map (· ++ [FEND]))

theorem feed_frame {frame : List Byte} (h : feed handleKiss .start frame = (readerAt frame, []))
    (hesc : openAfter frame = false) :
    feed handleKiss .start (frame ++ [FEND]) = (.start, frameDone (fill (units frame))) := by
  have hend : feed handleKiss (readerAt frame) [FEND] =
      (.start, frameDone (fill (units frame))) := by
    rw [feed_singleton]
    exact handleKiss_end hesc
  exact feed_append_of_eq h hend

theorem passedOn_eq (stream : List Byte) :
    passedOn stream = (frames stream).map fun f => frameDone (fill (units f)) := by
  obtain ⟨-, hframes, -⟩ := cut_spec feed_nothing stream
  have hpiece : ∀ f ∈ frames stream,
      feed handleKiss .start (f ++ [FEND]) = (.start, frameDone (fill (units f))) :=
    fun f hf => feed_frame (hframes f hf).1 (hframes f hf).2
  rw [passedOn, feedEach_of_return, List.map_map]
  · exact List.map_congr_left fun f hf => congrArg Prod.snd (hpiece f hf)
  · intro piece hp
    obtain ⟨f, hf, rfl⟩ := List.mem_map.mp hp
    exact congrArg Prod.fst (hpiece f hf)

/-- Nothing is passed on outside of the frames. -/
theorem feed_passedOn (stream : List Byte) :
    (feed handleKiss .start stream).2 = (passedOn stream).flatten := by
  obtain ⟨hjoin, hframes, hrest⟩ := cut_spec feed_nothing stream
  have hreturn : feed handleKiss .start ((frames stream).map (· ++ [FEND])).flatten =
      (.start, ((frames stream).flatMap fun f => frameDone (fill (units f)))) := by
    rw [← List.flatMap_def]
    exact feed_frames fun f hf => feed_frame (hframes f hf).1 (hframes f hf).2
  have hwhole := feed_append_of_eq hreturn hrest
  have hstream : ((frames stream).map (· ++ [FEND])).flatten ++ (cut false [] stream).2 = stream :=
    hjoin
  rw [show cut (openAfter []) [] stream = cut false [] stream from rfl, hstream] at hwhole
  rw [hwhole, passedOn_eq, List.append_nil, List.flatMap_def]

/-! ## Round trip -/

theorem feed_escapePut {collected : List Byte} (b : Byte) (h : collected.length < maxPacketSize) :
    feed handleKiss ⟨collected, false⟩ (escapePut b) = (⟨collected ++ [b], false⟩, []) := by
  have hroom : collected.length ≠ maxPacketSize := by omega
  unfold escapePut
  split
  · rename_i hend
    subst hend
    simp [feed, handleKiss, hroom, show FESC ≠ FEND by decide]
  · rename_i hend
    split
    · rename_i hesc
      subst hesc
      simp [feed, handleKiss, hroom, show FESC ≠ FEND by decide, show TFESC ≠ TFEND by decide]
    · rename_i hesc
      rw [feed_singleton, handleKiss, if_neg Bool.false_ne_true, if_neg hend, if_neg hesc,
        if_neg hroom]

/-- A frame whose content is one byte of command and at most 255 bytes fills the buffer at most to
its end. -/
theorem feed_transmitAx25 {packet : List Byte} (h : packet.length ≤ 255) :
    feed handleKiss .start (transmitAx25 packet) = (.start, [packet]) := by
  have hfront : feed handleKiss .start [FEND] = (.start, []) := rfl
  have hbody : feed handleKiss .start ((0 :: packet).flatMap escapePut) =
      (⟨0 :: packet, false⟩, []) := by
    refine feed_collect (φ := fun collected => Reader.mk collected false) fun pre b post hfull => ?_
    have hlen := congrArg List.length hfull
    rw [List.length_cons, List.length_append, List.length_cons] at hlen
    exact feed_escapePut b (by rw [maxPacketSize]; omega)
  have hback : feed handleKiss ⟨0 :: packet, false⟩ [FEND] = (.start, [packet]) := rfl
  exact feed_append_of_eq hfront (feed_append_of_eq hbody hback)

theorem transmitAx25_length_le (packet : List Byte) :
    (transmitAx25 packet).length ≤ maxLen packet.length := by
  have h := Stuffing.stuff_length_le (S := .delimited FEND FESC TFEND TFESC) packet
  have heq : packet.flatMap escapePut = (Stuffing.delimited FEND FESC TFEND TFESC).stuff packet :=
    List.flatMap_congr fun b _ => (Stuffing.delimited_symbol _ _ _ _ b).symm
  have hcommand : (escapePut 0).length = 1 := rfl
  rw [← heq] at h
  simp only [transmitAx25, maxLen, List.length_cons, List.length_append, List.length_nil]
  omega

/-- Packets of 1 to 255 bytes that are sent one after the other come out of `handle_kiss` in that
order, with the contents they were sent with. -/
theorem kiss_round_trip (packets : List (List Byte))
    (hlen : ∀ p ∈ packets, 1 ≤ p.length ∧ p.length ≤ 255) :
    feed handleKiss .start (packets.flatMap transmitAx25) = (.start, packets) ∧
      ∀ p ∈ packets, (transmitAx25 p).length ≤ maxLen p.length := by
  refine ⟨?_, fun p _ => transmitAx25_length_le p⟩
  have hframes : feed handleKiss .start (packets.flatMap transmitAx25) =
      (.start, packets.flatMap fun p => [p]) :=
    feed_frames fun p hp => feed_transmitAx25 (hlen p hp).2
  rw [hframes, List.flatMap_singleton']

theorem kiss_round_trip_longest :
    feed handleKiss .start
        (transmitAx25 (List.replicate 255 FEND) ++ transmitAx25 [FESC, TFEND, 7]) =
      (.start, [List.replicate 255 FEND, [FESC, TFEND, 7]]) := by
  have hlen : ∀ p ∈ [List.replicate 255 FEND, [FESC, TFEND, 7]], 1 ≤ p.length ∧ p.length ≤ 255 := by
    intro p hp
    rcases List.mem_cons.mp hp with rfl | hp
    · rw [List.length_replicate]
      decide
    · obtain rfl := List.mem_singleton.mp hp
      decide
  have h := kiss_round_trip [List.replicate 255 FEND, [FESC, TFEND, 7]] hlen
  rw [List.flatMap_cons, List.flatMap_cons, List.flatMap_nil, List.append_nil] at h
  exact h.1

/-! ## Frames that are too long -/

/-- Passing on frames whole: a frame with content that fits the buffer gives all of its content
without the command byte, any other nothing. -/
def whole (frame : List Byte) : List (List Byte) :=
  if 1 ≤ (content frame).length ∧ (content frame).length ≤ maxPacketSize then
    [(content frame).tail]
  else []

/-- Counts the content bytes, from 0 again after each unit that comes when there are 256. -/
def left (us : List (Option Byte)) : ℕ :=
  us.foldl (fun n u => if n = maxPacketSize then 0 else n + u.toList.length) 0

/-- No unit of the frame comes when there are 256 content bytes before it, or the content is longer
than that and after the last restart of the count there is no content left. -/
def Harmless (frame : List Byte) : Prop :=
  (units frame).dropLast.reduceOption.length < maxPacketSize ∨
    maxPacketSize < (content frame).length ∧ left (units frame) = 0

instance (frame : List Byte) : Decidable (Harmless frame) :=
  inferInstanceAs (Decidable (_ ∨ _))

theorem left_eq (us : List (Option Byte)) : left us = (fill us).length := by
  induction us using List.reverseRecOn with
  | nil => rfl
  | append_singleton us u ih =>
    rw [fill_snoc, left, List.foldl_append]
    change (if left us = maxPacketSize then 0 else left us + u.toList.length) = _
    rw [ih]
    split <;> simp

/-- Either no unit found the buffer full and it holds the whole content, or one did and the buffer
lost at least 256 bytes of the content. -/
theorem fill_cases (us : List (Option Byte)) :
    (us.dropLast.reduceOption.length < maxPacketSize ∧ us.reduceOption.length ≤ maxPacketSize ∧
      fill us = us.reduceOption) ∨
    (maxPacketSize ≤ us.dropLast.reduceOption.length ∧
      us.dropLast.reduceOption.length ≤ us.reduceOption.length ∧
      (fill us).length + maxPacketSize ≤ us.reduceOption.length) := by
  induction us using List.reverseRecOn with
  | nil => exact Or.inl ⟨by decide, by decide, rfl⟩
  | append_singleton us u ih =>
    have hu : u.toList.length ≤ 1 := by cases u <;> simp
    rw [List.dropLast_concat, List.reduceOption_append, List.reduceOption_singleton, fill_snoc,
      List.length_append]
    rcases ih with ⟨-, hle, hfill⟩ | ⟨hfull, hle, hlost⟩
    · rw [hfill]
      by_cases hroom : us.reduceOption.length < maxPacketSize
      · left
        rw [if_neg (by omega)]
        exact ⟨hroom, by omega, rfl⟩
      · right
        rw [if_pos (by omega)]
        exact ⟨by omega, by omega, by rw [List.length_nil]; omega⟩
    · right
      refine ⟨by omega, by omega, ?_⟩
      split
      · rw [List.length_nil]
        omega
      · rw [List.length_append]
        omega

theorem frameDone_eq_whole_iff (frame : List Byte) :
    frameDone (fill (units frame)) = whole frame ↔ Harmless frame := by
  rcases fill_cases (units frame) with ⟨hfits, hle, hfill⟩ | ⟨hfull, hle, hlost⟩
  · refine iff_of_true ?_ (Or.inl hfits)
    rw [hfill, frameDone, whole]
    change (if content frame = [] then [] else _) = _
    by_cases hnil : content frame = []
    · simp [hnil]
    · have hpos : 1 ≤ (content frame).length := List.length_pos_iff.mpr hnil
      rw [if_neg hnil, if_pos ⟨hpos, hle⟩]
      rfl
  · have hdone : frameDone (fill (units frame)) = [] ↔ left (units frame) = 0 := by
      rw [left_eq, frameDone, List.length_eq_zero_iff]
      split <;> simp_all
    by_cases hlong : maxPacketSize < (content frame).length
    · have hwhole : whole frame = [] := if_neg (by omega)
      rw [hwhole, hdone]
      constructor
      · exact fun h => Or.inr ⟨hlong, h⟩
      · rintro (h | h)
        · omega
        · exact h.2
    -- the content fits, but an unknown escape sequence after it found the buffer full
    · have hcontent : (units frame).reduceOption.length = (content frame).length := rfl
      have hwhole : whole frame = [(content frame).tail] :=
        if_pos ⟨by rw [maxPacketSize] at hfull; omega, by omega⟩
      have hnone : frameDone (fill (units frame)) = [] := by
        rw [hdone, left_eq]
        omega
      rw [hwhole, hnone]
      refine iff_of_false (by simp) ?_
      rintro (h | h)
      · omega
      · omega

/-- Whatever `handle_kiss` passes on, it passes on while it reads a frame; and each frame of the
stream is passed on whole, or not at all if it is too long, exactly if every frame is harmless. -/
theorem frames_whole_iff (stream : List Byte) :
    (feed handleKiss .start stream).2 = (passedOn stream).flatten ∧
      (passedOn stream = (frames stream).map whole ↔ ∀ f ∈ frames stream, Harmless f) := by
  refine ⟨feed_passedOn stream, ?_⟩
  rw [passedOn_eq, List.map_inj_left]
  exact forall₂_congr fun f _ => frameDone_eq_whole_iff f

/-- Of a frame with 300 bytes of content, the last 43 are taken for a frame of their own. -/
theorem frames_whole_300 :
    passedOn (FEND :: List.replicate 300 0x41 ++ [FEND]) ≠
      (frames (FEND :: List.replicate 300 0x41 ++ [FEND])).map whole := by
  decide +kernel

end MyIp.Phys.Kiss
