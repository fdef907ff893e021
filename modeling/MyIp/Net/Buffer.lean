import MyIp.Net.AnyAddr

/-! # `buffer_in` and `buffer_out`

`buffer_in` reads a block of bytes from the front: `p` is the block, `o` how far it has been read.
A read that does not fit throws `std::out_of_range` with the name of the reader and leaves the
buffer as it was; reads that fit are all said by `left`, what has not been read yet. A copy starts
to read at the front again, an assignment keeps the position.

`buffer_out` is the list of the bytes that were put into it. -/

namespace MyIp
open Bytes
set_option autoImplicit false

/-! ## Exceptions -/

section Exceptions
variable {ε α β : Type}

@[simp] theorem ok_bind (a : α) (f : α → Except ε β) : (Except.ok a >>= f) = f a := rfl

@[simp] theorem pure_eq_ok (a : α) : (pure a : Except ε α) = .ok a := rfl

/-- A sequence that comes to its end has come through its first part. -/
theorem exists_of_bind_eq_ok {x : Except ε α} {f : α → Except ε β} {r : β}
    (h : (x >>= f) = .ok r) : ∃ a, x = .ok a ∧ f a = .ok r := by
  cases x with
  | error e => cases h
  | ok a => exact ⟨a, rfl, h⟩

end Exceptions

/-- The size of a field that is inside. -/
theorem length_take_drop {p : List Byte} {off n : ℕ} (h : off + n ≤ p.length) :
    ((p.drop off).take n).length = n := by
  rw [List.length_take, List.length_drop]
  omega

/-! ## `buffer_in` -/

structure BufferIn where
  p : List Byte
  o : ℕ
  o_le : o ≤ p.length
  deriving DecidableEq

namespace BufferIn

/-- `buffer_in(p, size)` -/
def ofBytes (p : List Byte) : BufferIn := ⟨p, 0, Nat.zero_le _⟩

/-- The copy constructor. -/
def copy (b : BufferIn) : BufferIn := ofBytes b.p

def getSize (b : BufferIn) : ℕ := b.p.length

def getNBytesLeft (b : BufferIn) : ℕ := b.getSize - b.o

def endReached (b : BufferIn) : Bool := b.o == b.getSize

/-- What has not been read. -/
def left (b : BufferIn) : List Byte := b.p.drop b.o

/-- `peek` -/
def peek (b : BufferIn) : List Byte := b.left

/-- The next `len` bytes, or the exception of the reader `what`. -/
def read (what : String) (len : ℕ) (b : BufferIn) : Except String (List Byte × BufferIn) :=
  if h : b.o + len ≤ b.p.length then .ok (b.left.take len, ⟨b.p, b.o + len, h⟩) else .error what

def getNetByte (b : BufferIn) : Except String (Byte × BufferIn) := do
  let (bs, b) ← b.read "buffer_in::get_net_byte" 1
  return (bs.getD 0 0, b)

def getNetShort (b : BufferIn) : Except String (BitVec 16 × BufferIn) := do
  let (bs, b) ← b.read "buffer_in::get_net_short" 2
  return (be16 (bs.getD 0 0) (bs.getD 1 0), b)

def getNetLong (b : BufferIn) : Except String (BitVec 32 × BufferIn) := do
  let (bs, b) ← b.read "buffer_in::get_net_long" 4
  return (be32 (bs.getD 0 0) (bs.getD 1 0) (bs.getD 2 0) (bs.getD 3 0), b)

def getBytes (len : ℕ) (b : BufferIn) : Except String (List Byte × BufferIn) :=
  b.read "buffer_in::get_bytes" len

def getSegment (len : ℕ) (b : BufferIn) : Except String (BufferIn × BufferIn) := do
  let (bs, b) ← b.read "buffer_in::get_segment" len
  return (ofBytes bs, b)

def seek (len : ℕ) (b : BufferIn) : Except String BufferIn := do
  let (_, b) ← b.read "buffer_in::seek" len
  return b

@[simp] theorem ofBytes_left (p : List Byte) : (ofBytes p).left = p := by
  simp [ofBytes, left]

@[simp] theorem left_length (b : BufferIn) : b.left.length = b.p.length - b.o := by
  simp [left]

theorem getNBytesLeft_eq (b : BufferIn) : b.getNBytesLeft = b.left.length := by
  rw [left_length, getNBytesLeft, getSize]

theorem endReached_iff (b : BufferIn) : b.endReached = true ↔ b.left = [] := by
  have := b.o_le
  rw [endReached, beq_iff_eq, getSize, ← List.length_eq_zero_iff, left_length]
  omega

theorem left_mk (b : BufferIn) (len : ℕ) (h : b.o + len ≤ b.p.length) :
    (⟨b.p, b.o + len, h⟩ : BufferIn).left = b.left.drop len := by
  simp [left, List.drop_drop]

theorem read_append (what : String) {b : BufferIn} {bs rest : List Byte}
    (h : b.left = bs ++ rest) :
    ∃ b', b.read what bs.length = .ok (bs, b') ∧ b'.left = rest := by
  have hlen : bs.length + rest.length = b.p.length - b.o := by
    rw [← left_length, h, List.length_append]
  have hfits : b.o + bs.length ≤ b.p.length := by
    have := b.o_le
    omega
  refine ⟨⟨b.p, b.o + bs.length, hfits⟩, ?_, ?_⟩
  · rw [read, dif_pos hfits, h, List.take_left]
  · rw [left_mk, h, List.drop_left]

theorem read_ok {what : String} {len : ℕ} {b b' : BufferIn} {bs : List Byte}
    (h : b.read what len = .ok (bs, b')) : b.left = bs ++ b'.left ∧ bs.length = len := by
  rw [read] at h
  split at h
  · rename_i hfits
    obtain ⟨rfl, rfl⟩ := Prod.mk.inj (Except.ok.inj h)
    constructor
    · rw [left_mk, List.take_append_drop]
    · rw [List.length_take, left_length]
      omega
  · exact absurd h (by simp)

theorem getNetByte_append {b : BufferIn} {c : Byte} {rest : List Byte} (h : b.left = c :: rest) :
    ∃ b', b.getNetByte = .ok (c, b') ∧ b'.left = rest := by
  obtain ⟨b', hread, hleft⟩ := read_append "buffer_in::get_net_byte"
    (show b.left = [c] ++ rest from h)
  refine ⟨b', ?_, hleft⟩
  rw [List.length_singleton] at hread
  simp [getNetByte, hread]

theorem getNetShort_append {b : BufferIn} {v : BitVec 16} {rest : List Byte}
    (h : b.left = be16Bytes v ++ rest) : ∃ b', b.getNetShort = .ok (v, b') ∧ b'.left = rest := by
  obtain ⟨b', hread, hleft⟩ := read_append "buffer_in::get_net_short" h
  refine ⟨b', ?_, hleft⟩
  rw [be16Bytes_length] at hread
  simp [getNetShort, hread, be16Bytes, be16_be16Bytes]

theorem getNetLong_append {b : BufferIn} {v : BitVec 32} {rest : List Byte}
    (h : b.left = be32Bytes v ++ rest) : ∃ b', b.getNetLong = .ok (v, b') ∧ b'.left = rest := by
  obtain ⟨b', hread, hleft⟩ := read_append "buffer_in::get_net_long" h
  refine ⟨b', ?_, hleft⟩
  rw [be32Bytes_length] at hread
  simp [getNetLong, hread, be32Bytes, be32_be32Bytes]

theorem getSegment_append {b : BufferIn} {bs rest : List Byte} (h : b.left = bs ++ rest) :
    ∃ b', b.getSegment bs.length = .ok (ofBytes bs, b') ∧ b'.left = rest := by
  obtain ⟨b', hread, hleft⟩ := read_append "buffer_in::get_segment" h
  refine ⟨b', ?_, hleft⟩
  simp [getSegment, hread]

theorem seek_append {b : BufferIn} {bs rest : List Byte} (h : b.left = bs ++ rest) :
    ∃ b', b.seek bs.length = .ok b' ∧ b'.left = rest := by
  obtain ⟨b', hread, hleft⟩ := read_append "buffer_in::seek" h
  refine ⟨b', ?_, hleft⟩
  simp [seek, hread]

/-! What a read that was successful has found. -/

theorem getNetByte_ok {b b' : BufferIn} {c : Byte} (h : b.getNetByte = .ok (c, b')) :
    b.left = c :: b'.left := by
  obtain ⟨⟨bs, b₁⟩, hread, h⟩ := exists_of_bind_eq_ok h
  obtain ⟨hleft, hlen⟩ := read_ok hread
  obtain ⟨c₁, rfl⟩ := List.length_eq_one_iff.mp hlen
  obtain ⟨rfl, rfl⟩ := Prod.mk.inj (Except.ok.inj h)
  exact hleft

theorem getNetShort_ok {b b' : BufferIn} {v : BitVec 16} (h : b.getNetShort = .ok (v, b')) :
    b.left = be16Bytes v ++ b'.left := by
  obtain ⟨⟨bs, b₁⟩, hread, h⟩ := exists_of_bind_eq_ok h
  obtain ⟨hleft, hlen⟩ := read_ok hread
  obtain ⟨c₁, c₂, rfl⟩ := List.length_eq_two.mp hlen
  obtain ⟨rfl, rfl⟩ := Prod.mk.inj (Except.ok.inj h)
  rw [hleft]
  simp [be16Bytes_be16]

theorem getSegment_ok {len : ℕ} {b b' seg : BufferIn} (h : b.getSegment len = .ok (seg, b')) :
    seg = ofBytes seg.left ∧ seg.left.length = len ∧ b.left = seg.left ++ b'.left := by
  obtain ⟨⟨bs, b₁⟩, hread, h⟩ := exists_of_bind_eq_ok h
  obtain ⟨hleft, hlen⟩ := read_ok hread
  obtain ⟨rfl, rfl⟩ := Prod.mk.inj (Except.ok.inj h)
  rw [ofBytes_left]
  exact ⟨rfl, hlen, hleft⟩

theorem seek_ok {len : ℕ} {b b' : BufferIn} (h : b.seek len = .ok b') :
    ∃ bs, bs.length = len ∧ b.left = bs ++ b'.left := by
  obtain ⟨⟨bs, b₁⟩, hread, h⟩ := exists_of_bind_eq_ok h
  obtain ⟨hleft, hlen⟩ := read_ok hread
  obtain rfl := Except.ok.inj h
  exact ⟨bs, hlen, hleft⟩

end BufferIn

/-! ## `buffer_out` -/

namespace BufferOut

/-- `add_net_short(s, offset)`, for an offset inside. -/
def addNetShortAt (buffer : List Byte) (s : BitVec 16) (offset : ℕ) : List Byte :=
  writeAt buffer offset (be16Bytes s)

/-- `add_net_long(l, offset)`, for an offset inside. -/
def addNetLongAt (buffer : List Byte) (l : BitVec 32) (offset : ℕ) : List Byte :=
  writeAt buffer offset (be32Bytes l)

/-- `add_padding` -/
def addPadding (buffer : List Byte) (m : ℕ) : List Byte :=
  let padding := m - buffer.length % m
  if padding ≠ m then buffer ++ List.replicate padding 0 else buffer

theorem addPadding_eq (buffer : List Byte) {m : ℕ} (hm : 0 < m) :
    addPadding buffer m = buffer ++ List.replicate ((m - buffer.length % m) % m) 0 := by
  have hlt := Nat.mod_lt buffer.length hm
  rw [addPadding]
  split
  · rename_i hne
    rw [Nat.mod_eq_of_lt (a := m - buffer.length % m) (by omega)]
  · rename_i heq
    rw [not_not.mp heq, Nat.mod_self, List.replicate_zero, List.append_nil]

end BufferOut

end MyIp
