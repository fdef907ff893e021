import MyIp.Net.Buffer
import MyIp.Vpn.Tunnel

/-! # The fields of a datagram

`vpn::input` (`vpn.cpp`) checks that the size of a datagram is a multiple of 8 and that the hash is
right. It follows the family and the length of two addresses and the size of the payload as they are
in the decrypted buffer, whatever they say. `decode` reads them by their places; what is read and
handed on is inside the buffer exactly if the buffer holds a packet as `transmit_packet` writes it,
or is not looked at. -/

namespace MyIp.Vpn
set_option autoImplicit false

open Bytes Phys

/-- What `vpn::input` reads behind the hash, and the place `o` of the payload. -/
structure Decoded where
  etherType : BitVec 16
  plSize : ℕ
  dstMac : AnyAddr
  dstLen : ℕ
  srcMac : AnyAddr
  srcLen : ℕ
  o : ℕ

/-- `any_addr(family, &temp[o])`, if the family is one and its bytes are inside. -/
def addrAt (temp : List Byte) (family : Byte) (o : ℕ) : Option AnyAddr :=
  match familyOf family with
  | none => none
  | some af =>
    if h : o + af.size ≤ temp.length then
      some ⟨af, (temp.drop o).take af.size, length_take_drop h⟩
    else none

/-- The part of `vpn::input` after the hash; there is no result if a read is not inside `temp`. -/
def decode (temp : List Byte) : Option Decoded := do
  let e0 ← temp[16]?
  let e1 ← temp[17]?
  let s0 ← temp[18]?
  let s1 ← temp[19]?
  let dstFamily ← temp[20]?
  let dstLen ← temp[21]?
  let dstMac ← addrAt temp dstFamily 22
  let o := 22 + dstLen.toNat
  let srcFamily ← temp[o]?
  let srcLen ← temp[o + 1]?
  let srcMac ← addrAt temp srcFamily (o + 2)
  return { etherType := be16 e0 e1, plSize := (be16 s0 s1).toNat
           dstMac := dstMac, dstLen := dstLen.toNat
           srcMac := srcMac, srcLen := srcLen.toNat, o := o + 2 + srcLen.toNat }

/-- The lengths are those of the addresses, and the payload is inside the buffer. -/
structure Decoded.Valid (d : Decoded) (size : ℕ) : Prop where
  dstLen : d.dstLen = d.dstMac.af.size
  srcLen : d.srcLen = d.srcMac.af.size
  payload : d.o + d.plSize ≤ size

/-- The size that `md5bin` is called with is not negative, and with a right hash all reads are
inside. -/
structure Checked (c : Crypto) (temp : List Byte) : Prop where
  hashed : (0 : ℤ) ≤ (temp.length : ℤ) - 16
  fields : c.md5bin (temp.drop 16) = temp.take 16 → ∃ d, decode temp = some d ∧ d.Valid temp.length

/-- `vpn::input` does not leave the buffer. -/
def InputInside (c : Crypto) (v : Endpoint) (pl : List Byte) : Prop :=
  pl.length % 8 = 0 → Checked c (decrypted c v pl)

/-- A packet as `transmit_packet` writes it, and anything behind it. -/
def IsWritten (rest : List Byte) : Prop :=
  ∃ (p : Outgoing) (padding : List Byte), p.payload.length ≤ 65535 ∧ rest = p.written ++ padding

/-! ## Reading what was written -/

theorem familyOf_eq_some {n : Byte} {af : AddrFamily} (h : familyOf n = some af) :
    n = familyNumber af := by
  rw [familyOf] at h
  split_ifs at h with h0 h1 h2 h3
  all_goals
    obtain rfl := Option.some.inj h
    assumption

theorem getElem?_of_drop {temp rest : List Byte} {o : ℕ} {b : Byte}
    (h : temp.drop o = b :: rest) : temp[o]? = some b ∧ temp.drop (o + 1) = rest := by
  constructor
  · rw [← List.head?_drop, h]
    rfl
  · rw [← List.drop_drop, h]
    rfl

theorem drop_of_getElem? {temp : List Byte} {o : ℕ} {b : Byte} (h : temp[o]? = some b) :
    temp.drop o = b :: temp.drop (o + 1) := by
  obtain ⟨hlt, rfl⟩ := List.getElem?_eq_some_iff.mp h
  exact List.drop_eq_getElem_cons hlt

theorem addrAt_of_drop {temp rest : List Byte} {o : ℕ} (a : AnyAddr)
    (h : temp.drop o = a.addr ++ rest) : addrAt temp (familyNumber a.af) o = some a := by
  have hlen := congrArg List.length h
  rw [List.length_drop, List.length_append, a.addr_size] at hlen
  have hsize : 0 < a.af.size := by cases a.af <;> decide
  rw [addrAt, familyOf_familyNumber]
  simp only
  rw [dif_pos (by omega)]
  simp only [h, List.take_left' a.addr_size]

theorem addrAt_eq_some {temp : List Byte} {family : Byte} {o : ℕ} {a : AnyAddr}
    (h : addrAt temp family o = some a) :
    family = familyNumber a.af ∧ temp.drop o = a.addr ++ temp.drop (o + a.af.size) := by
  rw [addrAt] at h
  cases hfamily : familyOf family with
  | none =>
    rw [hfamily] at h
    cases h
  | some af =>
    rw [hfamily] at h
    simp only at h
    split at h
    · obtain rfl := Option.some.inj h
      refine ⟨familyOf_eq_some hfamily, ?_⟩
      rw [← List.drop_drop, List.take_append_drop]
    · cases h

theorem addr_length_toNat (a : AnyAddr) : (BitVec.ofNat 8 a.addr.length).toNat = a.af.size := by
  rw [a.addr_size]
  cases a.af <;> rfl

/-- A written packet is decoded, and its fields are valid. -/
theorem decode_of_isWritten {temp : List Byte} (h : IsWritten (temp.drop 16)) :
    ∃ d, decode temp = some d ∧ d.Valid temp.length := by
  obtain ⟨p, padding, hpayload, hrest⟩ := h
  have hbytes : temp.drop 16 = (p.etherType >>> 8).setWidth 8 :: p.etherType.setWidth 8 ::
      (BitVec.ofNat 16 p.payload.length >>> 8).setWidth 8 ::
      (BitVec.ofNat 16 p.payload.length).setWidth 8 :: familyNumber p.dstMac.af ::
      BitVec.ofNat 8 p.dstMac.addr.length :: (p.dstMac.addr ++ (familyNumber p.srcMac.af ::
      BitVec.ofNat 8 p.srcMac.addr.length :: (p.srcMac.addr ++ (p.payload ++ padding)))) := by
    rw [hrest]
    simp [Outgoing.written, Outgoing.addrBytes, be16Bytes]
  have hplSize := be16_be16Bytes (BitVec.ofNat 16 p.payload.length)
  have hdstLen := addr_length_toNat p.dstMac
  have hsrcLen := addr_length_toNat p.srcMac
  generalize (BitVec.ofNat 16 p.payload.length >>> 8).setWidth 8 = s0 at hbytes hplSize
  generalize (BitVec.ofNat 16 p.payload.length).setWidth 8 = s1 at hbytes hplSize
  generalize BitVec.ofNat 8 p.dstMac.addr.length = dstLen at hbytes hdstLen
  generalize BitVec.ofNat 8 p.srcMac.addr.length = srcLen at hbytes hsrcLen
  obtain ⟨h16, d17⟩ := getElem?_of_drop hbytes
  obtain ⟨h17, d18⟩ := getElem?_of_drop (o := 17) d17
  obtain ⟨h18, d19⟩ := getElem?_of_drop (o := 18) d18
  obtain ⟨h19, d20⟩ := getElem?_of_drop (o := 19) d19
  obtain ⟨h20, d21⟩ := getElem?_of_drop (o := 20) d20
  obtain ⟨h21, d22⟩ := getElem?_of_drop (o := 21) d21
  have hdst := addrAt_of_drop (o := 22) p.dstMac d22
  have dsrc : temp.drop (22 + p.dstMac.af.size) = familyNumber p.srcMac.af :: srcLen ::
      (p.srcMac.addr ++ (p.payload ++ padding)) := by
    rw [← List.drop_drop, show temp.drop 22 = _ from d22, List.drop_left' p.dstMac.addr_size]
  obtain ⟨hfamily, dlen⟩ := getElem?_of_drop dsrc
  obtain ⟨hlen, daddr⟩ := getElem?_of_drop dlen
  have hsrc := addrAt_of_drop p.srcMac daddr
  have dpayload : temp.drop (22 + p.dstMac.af.size + 2 + p.srcMac.af.size) =
      p.payload ++ padding := by
    rw [← List.drop_drop, show temp.drop (22 + p.dstMac.af.size + 2) = _ from daddr,
      List.drop_left' p.srcMac.addr_size]
  have hsize : (BitVec.ofNat 16 p.payload.length).toNat = p.payload.length :=
    toNat_ofNat_of_lt (by omega)
  have hinside := congrArg List.length dpayload
  have hsrcInside := congrArg List.length daddr
  rw [List.length_drop, List.length_append] at hinside
  rw [List.length_drop, List.length_append, List.length_append, p.srcMac.addr_size] at hsrcInside
  have hpositive : 0 < p.srcMac.af.size := by cases p.srcMac.af <;> decide
  refine ⟨⟨p.etherType, p.payload.length, p.dstMac, p.dstMac.af.size, p.srcMac, p.srcMac.af.size,
    22 + p.dstMac.af.size + 2 + p.srcMac.af.size⟩, ?_, rfl, rfl, ?_⟩
  · simp [decode, h16, h17, h18, h19, h20, h21, hdst, hdstLen, hfamily, hlen, hsrc, hsrcLen,
      be16_be16Bytes, hplSize, hsize]
  · simp only
    omega

/-- What is decoded with valid fields was written. -/
theorem isWritten_of_decode {temp : List Byte} {d : Decoded} (h : decode temp = some d)
    (hvalid : d.Valid temp.length) : IsWritten (temp.drop 16) := by
  simp only [decode, Option.bind_eq_bind, Option.bind_eq_some_iff, Option.pure_def,
    Option.some.injEq] at h
  obtain ⟨e0, h16, e1, h17, s0, h18, s1, h19, dstFamily, h20, dstLen, h21, dstMac, hdst, srcFamily,
    hfamily, srcLen, hlen, srcMac, hsrc, rfl⟩ := h
  obtain ⟨hdstLen, hsrcLen, hpayload⟩ := hvalid
  simp only at hdstLen hsrcLen hpayload
  obtain ⟨rfl, d22⟩ := addrAt_eq_some hdst
  obtain ⟨rfl, daddr⟩ := addrAt_eq_some hsrc
  have hlength : ∀ {len : Byte} {a : AnyAddr}, len.toNat = a.af.size →
      len = BitVec.ofNat 8 a.addr.length := by
    intro len a hsize
    rw [a.addr_size, ← hsize, BitVec.ofNat_toNat, BitVec.setWidth_eq]
  have hplSize : BitVec.ofNat 16 (be16 s0 s1).toNat = be16 s0 s1 := by
    rw [BitVec.ofNat_toNat, BitVec.setWidth_eq]
  have hbound := (be16 s0 s1).isLt
  refine ⟨⟨dstMac, srcMac, be16 e0 e1,
    (temp.drop (22 + dstLen.toNat + 2 + srcLen.toNat)).take (be16 s0 s1).toNat⟩,
    temp.drop (22 + dstLen.toNat + 2 + srcLen.toNat + (be16 s0 s1).toNat), ?_, ?_⟩
  · rw [List.length_take]
    omega
  · have hsize : ((temp.drop (22 + dstLen.toNat + 2 + srcLen.toNat)).take
        (be16 s0 s1).toNat).length = (be16 s0 s1).toNat := by
      rw [List.length_take, List.length_drop]
      omega
    rw [Outgoing.written, hsize, hplSize, be16Bytes_be16, be16Bytes_be16, Outgoing.addrBytes,
      Outgoing.addrBytes, ← hlength hdstLen, ← hlength hsrcLen]
    simp only [List.append_assoc, List.cons_append, List.nil_append]
    rw [← List.drop_drop (l := temp) (i := (be16 s0 s1).toNat), List.take_append_drop]
    rw [drop_of_getElem? h16, drop_of_getElem? h17, drop_of_getElem? h18, drop_of_getElem? h19,
      drop_of_getElem? h20, drop_of_getElem? h21, d22, ← hdstLen, drop_of_getElem? hfamily,
      drop_of_getElem? hlen, daddr, ← hsrcLen]

theorem decode_valid_iff (temp : List Byte) :
    (∃ d, decode temp = some d ∧ d.Valid temp.length) ↔ IsWritten (temp.drop 16) := by
  constructor
  · rintro ⟨d, hd, hvalid⟩
    exact isWritten_of_decode hd hvalid
  · exact decode_of_isWritten

/-! ## The datagram -/

theorem decrypted_length (c : Crypto) (v : Endpoint) {pl : List Byte} (h : pl.length % 8 = 0) :
    (decrypted c v pl).length = pl.length := by
  have hblocks := (fromBlocks_toBlocks (l := pl) (n := pl.length / 8) (by omega)).2
  rw [decrypted, fromBlocks_length, Cbc.decrypt_length, hblocks]
  omega

/-- A datagram is handled inside its buffer exactly if its size is not a multiple of 8, or it has a
hash and then either another hash or a written packet behind it. -/
theorem inputInside_iff (c : Crypto) (v : Endpoint) (pl : List Byte) :
    InputInside c v pl ↔ pl.length % 8 ≠ 0 ∨ (16 ≤ pl.length ∧
      (c.md5bin ((decrypted c v pl).drop 16) ≠ (decrypted c v pl).take 16 ∨
        IsWritten ((decrypted c v pl).drop 16))) := by
  rw [InputInside]
  by_cases hsize : pl.length % 8 = 0
  · have hlength := decrypted_length c v hsize
    constructor
    · intro h
      obtain ⟨hhashed, hfields⟩ := h hsize
      refine .inr ⟨by omega, ?_⟩
      by_cases hhash : c.md5bin ((decrypted c v pl).drop 16) = (decrypted c v pl).take 16
      · exact .inr ((decode_valid_iff _).mp (hfields hhash))
      · exact .inl hhash
    · rintro (h | ⟨hlong, hrest⟩) _
      · exact absurd hsize h
      · refine ⟨by omega, fun hhash => (decode_valid_iff _).mpr ?_⟩
        exact hrest.resolve_left (not_not.mpr hhash)
  · exact iff_of_true (fun h => absurd h hsize) (.inl hsize)

/-- A datagram that is handled inside its buffer is taken apart without a fault. -/
theorem input_of_inputInside (c : Crypto) (dev : Device) (v : Endpoint) {pl : List Byte}
    (h : InputInside c v pl) : ∃ packets, (input c dev v pl).2 = .ok packets := by
  rw [input]
  split
  · exact ⟨[], rfl⟩
  · rename_i hsize
    have hsize : pl.length % 8 = 0 := not_not.mp hsize
    obtain ⟨hhashed, hfields⟩ := h hsize
    simp only
    rw [if_neg (by omega)]
    split
    · rename_i hhash
      obtain ⟨p, padding, hpayload, hrest⟩ := (decode_valid_iff _).mp (hfields hhash)
      exact ⟨_, by rw [hrest, takeApart_written dev hpayload]⟩
    · exact ⟨[], rfl⟩

/-- The size of the hashed part of an empty datagram is -16, of one with 8 bytes -8. -/
theorem not_inputInside :
    ¬InputInside Sample.crypto Sample.endpoint [] ∧
      ¬InputInside Sample.crypto Sample.endpoint (List.replicate 8 0) := by
  have hshort : ∀ pl : List Byte, pl.length % 8 = 0 → pl.length < 16 →
      ¬InputInside Sample.crypto Sample.endpoint pl := by
    intro pl hsize hlt h
    have hhashed := (h hsize).hashed
    rw [decrypted_length Sample.crypto Sample.endpoint hsize] at hhashed
    omega
  exact ⟨hshort [] (by decide) (by decide), hshort _ (by decide) (by decide)⟩

end MyIp.Vpn
