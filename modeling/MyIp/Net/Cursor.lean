import MyIp.Foundations.Traced
import MyIp.Net.Buffer

/-! # `buffer_in` with its integers

The class as it is written: a pointer `p` into a block of bytes, here a position in it, and the
integers `size` and `o`, which nothing in the type keeps in order. (`o + len` stays far below 2^31:
`o` is at most the size of a datagram, `len` a 16 bit number.) Each object that is made or moved and
each range of bytes that is looked at leaves a note.

A cursor `Views` a `BufferIn` when both have the same bytes and the same position. `BufferIn` cannot
leave its bytes, so that a cursor that goes along with one cannot either: each reader is compared
with its counterpart once. -/

namespace MyIp
set_option autoImplicit false

open Bytes Traced

structure Cursor where
  p : ℤ
  size : ℤ
  o : ℤ
  deriving DecidableEq, Repr

/-- The exceptions of the C++ library that could come out of the code here. -/
inductive Exn
  | outOfRange (what : String)
  /-- `std::vector` from a range whose end is before its beginning. -/
  | lengthError
  /-- A call of a `std::function` that is not set. -/
  | badFunctionCall
  deriving DecidableEq, Repr

def Exn.IsOutOfRange (e : Exn) : Prop := ∃ what, e = .outOfRange what

inductive Note
  /-- A `buffer_in` after it was made or moved. -/
  | buffer (c : Cursor)
  /-- The bytes from the first position up to the second are looked at. -/
  | access (start stop : ℤ)
  /-- A turn of a loop began and ended at these positions. -/
  | turn (before after : ℤ)
  deriving DecidableEq, Repr

abbrev Scan := Traced Note Exn

/-- The bytes at a position; outside of the block they could be anything. -/
def byteAt (data : List Byte) (i : ℤ) : Byte := data.getD i.toNat 0

def bytesAt (data : List Byte) (i len : ℤ) : List Byte := (data.drop i.toNat).take len.toNat

namespace Cursor

/-- `buffer_in(p, size)` -/
def make (p size : ℤ) : Scan Cursor := do
  note (.buffer ⟨p, size, 0⟩)
  return ⟨p, size, 0⟩

/-- The copy constructor. -/
def copy (c : Cursor) : Scan Cursor := make c.p c.size

def endReached (c : Cursor) : Bool := c.o == c.size

def getNBytesLeft (c : Cursor) : ℤ := c.size - c.o

/-- `o += len` -/
def move (len : ℤ) (c : Cursor) : Scan Cursor := do
  note (.buffer ⟨c.p, c.size, c.o + len⟩)
  return ⟨c.p, c.size, c.o + len⟩

/-- The check of a reader, and `o += len`. -/
def advance (what : String) (len : ℤ) (c : Cursor) : Scan Cursor :=
  if c.o + len > c.size then Traced.throw (.outOfRange what) else c.move len

section Readers
variable (data : List Byte)

def getNetByte (c : Cursor) : Scan (Byte × Cursor) :=
  if c.o ≥ c.size then Traced.throw (.outOfRange "buffer_in::get_net_byte")
  else do
    note (.access (c.p + c.o) (c.p + c.o + 1))
    let next ← c.move 1
    return (byteAt data (c.p + c.o), next)

def getNetShort (c : Cursor) : Scan (BitVec 16 × Cursor) := do
  let next ← c.advance "buffer_in::get_net_short" 2
  note (.access (c.p + c.o) (c.p + c.o + 2))
  return (be16 (byteAt data (c.p + c.o)) (byteAt data (c.p + c.o + 1)), next)

def getNetLong (c : Cursor) : Scan (BitVec 32 × Cursor) := do
  let next ← c.advance "buffer_in::get_net_long" 4
  note (.access (c.p + c.o) (c.p + c.o + 4))
  return (be32 (byteAt data (c.p + c.o)) (byteAt data (c.p + c.o + 1))
    (byteAt data (c.p + c.o + 2)) (byteAt data (c.p + c.o + 3)), next)

def getSegment (len : ℤ) (c : Cursor) : Scan (Cursor × Cursor) := do
  let next ← c.advance "buffer_in::get_segment" len
  let temp ← make (c.p + c.o) len
  return (temp, next)

def seek (len : ℤ) (c : Cursor) : Scan Cursor := c.advance "buffer_in::seek" len

/-- `peek`: a vector of the bytes from `p + o` up to `p + size`. -/
def peek (c : Cursor) : Scan (List Byte) :=
  if c.size < c.o then Traced.throw .lengthError
  else do
    note (.access (c.p + c.o) (c.p + c.size))
    return bytesAt data (c.p + c.o) (c.size - c.o)

/-- `buffer_out::add_buffer_in` for as many bytes. -/
def addBufferIn : ℕ → Cursor → List Byte → Scan (List Byte × Cursor)
  | 0, c, out => return (out, c)
  | n + 1, c, out => do
    let (b, c) ← c.getNetByte data
    addBufferIn n c (out ++ [b])

end Readers

/-! ## What the notes should be -/

/-- The cursor and its bytes are inside of a block of `length` bytes. -/
structure Inside (length : ℕ) (c : Cursor) : Prop where
  o_nonneg : 0 ≤ c.o
  o_le : c.o ≤ c.size
  p_nonneg : 0 ≤ c.p
  p_le : c.p + c.size ≤ length

end Cursor

/-- Nothing outside of the datagram is looked at, every buffer stays inside, and every turn of a
loop takes four bytes at least. -/
def Note.Sound (length : ℕ) : Note → Prop
  | .buffer c => c.Inside length
  | .access start stop => 0 ≤ start ∧ start ≤ stop ∧ stop ≤ length
  | .turn before after => before + 4 ≤ after

/-! ## Cursors and `BufferIn` -/

/-- The same bytes and the same position. -/
structure Views (data : List Byte) (c : Cursor) (b : BufferIn) : Prop where
  bytes : ∃ pre post, data = pre ++ (b.p ++ post) ∧ c.p = pre.length
  size : c.size = b.p.length
  o : c.o = b.o

namespace Views
variable {data : List Byte} {c : Cursor} {b : BufferIn}

theorem inside (h : Views data c b) : c.Inside data.length := by
  obtain ⟨⟨pre, post, hdata, hp⟩, hsize, ho⟩ := h
  have hle := b.o_le
  have hlength := congrArg List.length hdata
  simp only [List.length_append] at hlength
  exact ⟨by omega, by omega, by omega, by omega⟩

theorem endReached (h : Views data c b) : c.endReached = b.endReached := by
  have hsize := h.size
  have ho := h.o
  rw [Cursor.endReached, BufferIn.endReached, BufferIn.getSize, Bool.eq_iff_iff, beq_iff_eq,
    beq_iff_eq]
  omega

theorem getNBytesLeft (h : Views data c b) : c.getNBytesLeft = b.getNBytesLeft := by
  have hsize := h.size
  have ho := h.o
  have hle := b.o_le
  rw [Cursor.getNBytesLeft, BufferIn.getNBytesLeft, BufferIn.getSize]
  omega

theorem content (h : Views data c b) : bytesAt data c.p c.size = b.p := by
  obtain ⟨⟨pre, post, rfl, hp⟩, hsize, -⟩ := h
  rw [bytesAt, hp, hsize, Int.toNat_natCast, Int.toNat_natCast, List.drop_left, List.take_left]

theorem bytesAt_eq (h : Views data c b) (len : ℕ) (hlen : b.o + len ≤ b.p.length) :
    bytesAt data (c.p + c.o) len = b.left.take len := by
  obtain ⟨⟨pre, post, rfl, hp⟩, -, ho⟩ := h
  have hstart : (c.p + c.o).toNat = pre.length + b.o := by omega
  have hsize : ((len : ℤ)).toNat = len := rfl
  have hleft : len ≤ b.left.length := by
    rw [BufferIn.left_length]
    omega
  rw [bytesAt, hstart, hsize, ← List.drop_drop, List.drop_left,
    List.drop_append_of_le_length b.o_le]
  exact List.take_append_of_le_length hleft

theorem byteAt_eq (h : Views data c b) {len k : ℕ} (hlen : b.o + len ≤ b.p.length) (hk : k < len) :
    (b.left.take len).getD k 0 = byteAt data (c.p + c.o + k) := by
  have hinside := h.inside
  have hstart : (c.p + c.o + k).toNat = (c.p + c.o).toNat + k := by
    have hp := hinside.p_nonneg
    have ho := hinside.o_nonneg
    omega
  rw [← h.bytesAt_eq len hlen, bytesAt, byteAt, hstart]
  simp only [List.getD_eq_getElem?_getD, Int.toNat_natCast, List.getElem?_take_of_lt hk,
    List.getElem?_drop]

theorem access (h : Views data c b) {len : ℕ} (hlen : b.o + len ≤ b.p.length) :
    (Note.access (c.p + c.o) (c.p + c.o + len)).Sound data.length := by
  have hsize := h.size
  have ho := h.o
  obtain ⟨ho_nonneg, -, hp_nonneg, hp_le⟩ := h.inside
  exact ⟨by omega, by omega, by omega⟩

theorem moved (h : Views data c b) {len : ℕ} (hlen : b.o + len ≤ b.p.length) :
    Views data ⟨c.p, c.size, c.o + len⟩ ⟨b.p, b.o + len, hlen⟩ :=
  ⟨h.bytes, h.size, by rw [h.o]; push_cast; rfl⟩

theorem segment (h : Views data c b) {len : ℕ} (hlen : b.o + len ≤ b.p.length) :
    Views data ⟨c.p + c.o, len, 0⟩ (BufferIn.ofBytes (b.left.take len)) := by
  obtain ⟨⟨pre, post, rfl, hp⟩, -, ho⟩ := h
  refine ⟨⟨pre ++ b.p.take b.o, b.left.drop len ++ post, ?_, ?_⟩, ?_, rfl⟩
  · rw [BufferIn.ofBytes, List.append_assoc, ← List.append_assoc (List.take len _),
      List.take_append_drop, ← List.append_assoc (List.take b.o _), BufferIn.left,
      List.take_append_drop]
  · have hle := b.o_le
    simp only [List.length_append, List.length_take]
    omega
  · have hleft := b.left_length
    simp only [BufferIn.ofBytes, List.length_take]
    omega

end Views

/-! ## Each reader and its counterpart -/

/-- `c'` is `c` after a move by `len` or more. -/
structure Ahead (data : List Byte) (c : Cursor) (len : ℤ) (c' : Cursor) (b' : BufferIn) : Prop where
  views : Views data c' b'
  size : c'.size = c.size
  far : c.o + len ≤ c'.o

theorem Ahead.mono {data : List Byte} {c c' : Cursor} {b' : BufferIn} {len len' : ℤ}
    (h : Ahead data c len c' b') (hle : len' ≤ len) : Ahead data c len' c' b' := by
  refine ⟨h.views, h.size, ?_⟩
  have hfar := h.far
  omega

/-- The same value, and moved. -/
def Reads {α : Type} (data : List Byte) (c : Cursor) (len : ℤ) (r : α × Cursor)
    (r' : α × BufferIn) : Prop :=
  r.1 = r'.1 ∧ Ahead data c len r.2 r'.2

theorem Ahead.trans {data : List Byte} {c c' c'' : Cursor} {b' b'' : BufferIn} {len len' : ℤ}
    (h : Ahead data c len c' b') (h' : Ahead data c' len' c'' b'') :
    Ahead data c (len + len') c'' b'' := by
  refine ⟨h'.views, h'.size.trans h.size, ?_⟩
  have hfar := h.far
  have hfar' := h'.far
  omega

theorem Ahead.left_lt {data : List Byte} {c c' : Cursor} {b b' : BufferIn} {len : ℤ}
    (h : Ahead data c len c' b') (hb : Views data c b) (hlen : 0 < len) :
    b'.left.length < b.left.length := by
  obtain ⟨⟨-, hsize', ho'⟩, hsame, hfar⟩ := h
  have hsize := hb.size
  have ho := hb.o
  have hle := b'.o_le
  rw [BufferIn.left_length, BufferIn.left_length]
  omega

section Refinement
variable {data : List Byte} {c : Cursor} {b : BufferIn}

/-- `Refines` for scans of a datagram. -/
abbrev Follows {δ α β : Type} (data : List Byte) (R : α → β → Prop) (x : Scan α)
    (y : Except δ β) : Prop :=
  Refines (Note.Sound data.length) Exn.IsOutOfRange R x y

theorem make_follows {δ : Type} {p size : ℤ} (h : Views data ⟨p, size, 0⟩ b) :
    Follows (δ := δ) data (Views data) (Cursor.make p size) (.ok b) :=
  Refines.note h.inside (Refines.pure h)

theorem copy_follows {δ : Type} (h : Views data c b) :
    Follows (δ := δ) data (Views data) c.copy (.ok b.copy) :=
  make_follows ⟨h.bytes, h.size, rfl⟩

theorem move_follows {δ : Type} {len : ℕ} (h : Views data c b) (hlen : b.o + len ≤ b.p.length) :
    Follows (δ := δ) data (Ahead data c len) (c.move len) (.ok ⟨b.p, b.o + len, hlen⟩) :=
  Refines.note (h.moved hlen).inside (Refines.pure ⟨h.moved hlen, rfl, le_refl _⟩)

theorem advance_follows (what : String) (len : ℕ) (h : Views data c b) :
    Follows data (fun c' r => Ahead data c len c' r.2 ∧ b.o + len ≤ b.p.length ∧
      r.1 = b.left.take len) (c.advance what len) (b.read what len) := by
  have hsize := h.size
  have ho := h.o
  rw [Cursor.advance, BufferIn.read]
  by_cases hfits : b.o + len ≤ b.p.length
  · rw [if_neg (by omega), dif_pos hfits]
    apply (move_follows (δ := String) h hfits).bind_right (g := fun b' => (b.left.take len, b'))
    intro c' b' hahead
    exact ⟨hahead, hfits, rfl⟩
  · rw [if_pos (by omega), dif_neg hfits]
    exact Refines.throw _ ⟨what, rfl⟩

theorem getNetByte_follows (h : Views data c b) :
    Follows data (Reads data c 1) (c.getNetByte data) b.getNetByte := by
  have hsize := h.size
  have ho := h.o
  rw [Cursor.getNetByte, BufferIn.getNetByte, BufferIn.read]
  by_cases hfits : b.o + 1 ≤ b.p.length
  · rw [if_neg (by omega), dif_pos hfits]
    apply Refines.note (h.access hfits)
    apply (move_follows (δ := String) h hfits).bind_left
    intro next hahead
    refine Refines.pure ⟨?_, hahead⟩
    have h₀ := h.byteAt_eq hfits (k := 0) (by omega)
    rw [Nat.cast_zero, add_zero] at h₀
    exact h₀.symm
  · rw [if_pos (by omega), dif_neg hfits]
    exact Refines.throw _ ⟨_, rfl⟩

theorem getNetShort_follows (h : Views data c b) :
    Follows data (Reads data c 2) (c.getNetShort data) b.getNetShort := by
  apply (advance_follows "buffer_in::get_net_short" 2 h).bind
  rintro c' ⟨bs, b'⟩ ⟨hahead, hfits, rfl⟩
  refine Refines.note (h.access hfits) (Refines.pure ⟨?_, hahead⟩)
  have h₀ := h.byteAt_eq hfits (k := 0) (by omega)
  have h₁ := h.byteAt_eq hfits (k := 1) (by omega)
  rw [Nat.cast_zero, add_zero] at h₀
  rw [Nat.cast_one] at h₁
  rw [h₀, h₁]

theorem getNetLong_follows (h : Views data c b) :
    Follows data (Reads data c 4) (c.getNetLong data) b.getNetLong := by
  apply (advance_follows "buffer_in::get_net_long" 4 h).bind
  rintro c' ⟨bs, b'⟩ ⟨hahead, hfits, rfl⟩
  refine Refines.note (h.access hfits) (Refines.pure ⟨?_, hahead⟩)
  have h₀ := h.byteAt_eq hfits (k := 0) (by omega)
  have h₁ := h.byteAt_eq hfits (k := 1) (by omega)
  have h₂ := h.byteAt_eq hfits (k := 2) (by omega)
  have h₃ := h.byteAt_eq hfits (k := 3) (by omega)
  rw [Nat.cast_zero, add_zero] at h₀
  rw [Nat.cast_one] at h₁
  rw [Nat.cast_ofNat] at h₂ h₃
  rw [h₀, h₁, h₂, h₃]

theorem getSegment_follows (len : ℕ) (h : Views data c b) :
    Follows data (fun r r' => Views data r.1 r'.1 ∧ Ahead data c len r.2 r'.2)
      (c.getSegment len) (b.getSegment len) := by
  apply (advance_follows "buffer_in::get_segment" len h).bind
  rintro c' ⟨bs, b'⟩ ⟨hahead, hfits, rfl⟩
  exact (make_follows (δ := String) (h.segment hfits)).bind_left fun temp htemp =>
    Refines.pure ⟨htemp, hahead⟩

theorem seek_follows (len : ℕ) (h : Views data c b) :
    Follows data (Ahead data c len) (c.seek len) (b.seek len) := by
  apply (advance_follows "buffer_in::seek" len h).bind_right
  rintro c' ⟨bs, b'⟩ ⟨hahead, -⟩
  exact hahead

theorem peek_follows {δ : Type} (h : Views data c b) :
    Follows (δ := δ) data (fun bs bs' => bs = bs') (c.peek data) (.ok b.peek) := by
  have hsize := h.size
  have ho := h.o
  have hle := b.o_le
  obtain ⟨len, hlen⟩ : ∃ len : ℕ, b.p.length = b.o + len := ⟨b.p.length - b.o, by omega⟩
  have hend : c.p + c.size = c.p + c.o + len := by omega
  have hleft : c.size - c.o = len := by omega
  rw [Cursor.peek, if_neg (by omega), hend, hleft]
  refine Refines.note (h.access (by omega)) (Refines.pure ?_)
  rw [h.bytesAt_eq len (by omega)]
  apply List.take_of_length_le
  rw [BufferIn.left_length]
  omega

theorem addBufferIn_follows {δ : Type} {n : ℕ} (h : Views data c b) (hn : b.left.length = n)
    (out : List Byte) :
    Follows (δ := δ) data (fun r (_ : Unit) => r.1 = out ++ b.left) (c.addBufferIn data n out)
      (.ok ()) := by
  induction n generalizing c b out with
  | zero =>
    rw [List.length_eq_zero_iff.mp hn]
    exact Refines.pure (List.append_nil out).symm
  | succ n ih =>
    obtain ⟨x, rest, hleft⟩ := List.exists_cons_of_length_eq_add_one hn
    obtain ⟨b', hread, hrest⟩ := BufferIn.getNetByte_append hleft
    have hfirst := getNetByte_follows h
    rw [hread] at hfirst
    rw [Cursor.addBufferIn]
    apply hfirst.bind_left
    rintro ⟨x', c'⟩ ⟨rfl, hahead⟩
    have hlength : b'.left.length = n := by
      rw [hleft, List.length_cons, ← hrest] at hn
      omega
    apply (ih hahead.views hlength (out ++ [x'])).imp
    intro r _ hr
    rw [hr, hleft, hrest, List.append_assoc]
    rfl

end Refinement

end MyIp
