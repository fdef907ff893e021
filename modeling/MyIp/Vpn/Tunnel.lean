import MyIp.Foundations.Cbc
import MyIp.Phys.Device

/-! # The VPN

`vpn.cpp` and `phys_vpn_insertion_point.cpp`. `transmit_packet` puts a packet of a link into a
buffer, after an MD5 hash of it, and encrypts the buffer block by block with DES in CBC mode;
`input` of the peer takes it apart. The chaining values stay from one datagram to the next.

DES and MD5 are parameters (`Crypto`). The threads of the router and of UDP call the two functions
without a lock; here calls do not overlap. -/

namespace MyIp.Vpn
set_option autoImplicit false

open Bytes Phys

/-- `DES_cblock` -/
abbrev Block := Vector Byte 8

/-- The bytes of a buffer by blocks; it has a multiple of 8. -/
def toBlocks : List Byte → List Block
  | a :: b :: c :: d :: e :: f :: g :: h :: rest => #v[a, b, c, d, e, f, g, h] :: toBlocks rest
  | _ => []

def fromBlocks (blocks : List Block) : List Byte := blocks.flatMap Vector.toList

/-- The OpenSSL functions with the key of this VPN: what `DES_ncbc_encrypt` does to a block, and
`md5bin`. -/
structure Crypto where
  desEncrypt : Block → Block
  desDecrypt : Block → Block
  desDecrypt_desEncrypt : ∀ b, desDecrypt (desEncrypt b) = b
  md5bin : List Byte → List Byte
  md5bin_length : ∀ m, (md5bin m).length = 16

/-- `DES_ncbc_encrypt` as chaining: a block is XORed with `ivec`, which then is the ciphertext. -/
def Crypto.ncbc (c : Crypto) : Cbc.Cipher Block where
  enc := c.desEncrypt
  dec := c.desDecrypt
  xor := Vector.zipWith (fun a b => a ^^^ b)
  dec_enc := c.desDecrypt_desEncrypt
  xor_xor := by
    intro x v
    ext i hi
    simp

/-- The two chaining values of a `vpn`. -/
structure Endpoint where
  ivecEncrypt : Block
  ivecDecrypt : Block
  deriving DecidableEq

inductive Fault
  | readPastEnd
  | unknownFamily
  deriving DecidableEq, Repr

/-- `addr_family` as a number. -/
def familyNumber : AddrFamily → Byte
  | .ipv4 => 0
  | .mac => 1
  | .ax25 => 2
  | .ipv6 => 3

def familyOf (n : Byte) : Option AddrFamily :=
  if n = 0 then some .ipv4 else if n = 1 then some .mac
  else if n = 2 then some .ax25 else if n = 3 then some .ipv6 else none

theorem familyOf_familyNumber (af : AddrFamily) : familyOf (familyNumber af) = some af := by
  cases af <;> rfl

/-! ## Sending -/

/-- The arguments of `transmit_packet`. -/
structure Outgoing where
  dstMac : AnyAddr
  srcMac : AnyAddr
  etherType : BitVec 16
  payload : List Byte

namespace Outgoing

/-- `out_len` before it is rounded up. -/
def size (p : Outgoing) : ℕ :=
  16 + 2 + 2 + 1 + p.dstMac.addr.length + 1 + p.srcMac.addr.length + p.payload.length

def outLen (p : Outgoing) : ℕ := if p.size % 8 ≠ 0 then p.size + (8 - p.size % 8) else p.size

/-- An address with its family and its length. -/
def addrBytes (a : AnyAddr) : List Byte :=
  familyNumber a.af :: BitVec.ofNat 8 a.addr.length :: a.addr

/-- All that is written to the buffer from byte 16 on. -/
def written (p : Outgoing) : List Byte :=
  be16Bytes p.etherType ++ be16Bytes (BitVec.ofNat 16 p.payload.length) ++ addrBytes p.dstMac ++
    addrBytes p.srcMac ++ p.payload

/-- How many bytes are written behind the end of the buffer. -/
def writtenPastEnd (p : Outgoing) : ℕ := 16 + p.written.length - p.outLen

/-- The buffer before it is encrypted. -/
def plaintext (c : Crypto) (p : Outgoing) : List Byte :=
  let rest := resize p.written (p.outLen - 16)
  c.md5bin rest ++ rest

end Outgoing

/-- `vpn::transmit_packet`: the datagram that is given to `u->transmit_packet`. -/
def transmitPacket (c : Crypto) (v : Endpoint) (p : Outgoing) : Endpoint × List Byte :=
  let r := Cbc.encrypt c.ncbc v.ivecEncrypt (toBlocks (p.plaintext c))
  ({ v with ivecEncrypt := r.2 }, fromBlocks r.1)

/-! ## Receiving -/

/-- `any_addr(family, &temp[o])` and what comes after `len` bytes. -/
def readAddr (temp : List Byte) : Except Fault (AnyAddr × List Byte) :=
  match temp with
  | family :: len :: rest =>
    match familyOf family with
    | none => .error .unknownFamily
    | some af =>
      if h : af.size ≤ rest.length then
        .ok (⟨af, rest.take af.size, by rw [List.length_take]; omega⟩, rest.drop len.toNat)
      else .error .readPastEnd
  | _ => .error .readPastEnd

/-- `phys_vpn_insertion_point::insert_packet`: the first address of the `packet` it makes is the
source. -/
def insertPacket (dev : Device) (dstMac srcMac : AnyAddr) (etherType : BitVec 16)
    (payload : List Byte) : List (ℕ × Packet) :=
  dev.queueIncoming etherType ⟨dstMac, srcMac, payload⟩

/-- The decrypted datagram behind the hash. -/
def takeApart (dev : Device) (rest : List Byte) : Except Fault (List (ℕ × Packet)) :=
  match rest with
  | e0 :: e1 :: s0 :: s1 :: rest => do
    let (dstMac, rest) ← readAddr rest
    let (srcMac, rest) ← readAddr rest
    let plSize := (be16 s0 s1).toNat
    if rest.length < plSize then throw .readPastEnd
    return insertPacket dev dstMac srcMac (be16 e0 e1) (rest.take plSize)
  | _ => .error .readPastEnd

/-- `temp` of `vpn::input` -/
def decrypted (c : Crypto) (v : Endpoint) (pl : List Byte) : List Byte :=
  fromBlocks (Cbc.decrypt c.ncbc v.ivecDecrypt (toBlocks pl)).1

/-- `vpn::input`, with what it gives to the network layers. -/
def input (c : Crypto) (dev : Device) (v : Endpoint) (pl : List Byte) :
    Endpoint × Except Fault (List (ℕ × Packet)) :=
  -- must be multiple of 8 due to DES
  if pl.length % 8 ≠ 0 then (v, .ok [])
  else
    let temp := decrypted c v pl
    ({ v with ivecDecrypt := (Cbc.decrypt c.ncbc v.ivecDecrypt (toBlocks pl)).2 },
      if temp.length < 16 then .error .readPastEnd
      else if c.md5bin (temp.drop 16) = temp.take 16 then takeApart dev (temp.drop 16)
      else .ok [])

/-! ## Blocks -/

theorem exists_block (v : Block) : ∃ a b c d e f g h, v = #v[a, b, c, d, e, f, g, h] := by
  refine ⟨v[0], v[1], v[2], v[3], v[4], v[5], v[6], v[7], ?_⟩
  ext i hi
  interval_cases i <;> rfl

theorem toBlocks_fromBlocks (blocks : List Block) : toBlocks (fromBlocks blocks) = blocks := by
  induction blocks with
  | nil => rfl
  | cons v blocks ih =>
    obtain ⟨a, b, c, d, e, f, g, h, rfl⟩ := exists_block v
    have hcons : fromBlocks (#v[a, b, c, d, e, f, g, h] :: blocks) =
        a :: b :: c :: d :: e :: f :: g :: h :: fromBlocks blocks := rfl
    rw [hcons, toBlocks, ih]

theorem fromBlocks_toBlocks {l : List Byte} {n : ℕ} (h : l.length = 8 * n) :
    fromBlocks (toBlocks l) = l ∧ (toBlocks l).length = n := by
  induction n generalizing l with
  | zero =>
    obtain rfl := List.length_eq_zero_iff.mp h
    exact ⟨rfl, rfl⟩
  | succ n ih =>
    have hsplit : ∃ b0 b1 b2 b3 b4 b5 b6 b7 rest,
        l = b0 :: b1 :: b2 :: b3 :: b4 :: b5 :: b6 :: b7 :: rest := by
      rcases l with _ | ⟨b0, _ | ⟨b1, _ | ⟨b2, _ | ⟨b3, _ | ⟨b4, _ | ⟨b5, _ | ⟨b6, _ | ⟨b7, rest⟩⟩⟩⟩⟩⟩⟩⟩
      case cons.cons.cons.cons.cons.cons.cons.cons =>
        exact ⟨b0, b1, b2, b3, b4, b5, b6, b7, rest, rfl⟩
      all_goals
        simp only [List.length_cons, List.length_nil] at h
        exfalso
        omega
    obtain ⟨b0, b1, b2, b3, b4, b5, b6, b7, rest, rfl⟩ := hsplit
    obtain ⟨hfrom, hlen⟩ := ih (show rest.length = 8 * n by simp at h; omega)
    rw [toBlocks]
    refine ⟨?_, by rw [List.length_cons, hlen]⟩
    calc fromBlocks (#v[b0, b1, b2, b3, b4, b5, b6, b7] :: toBlocks rest)
        = b0 :: b1 :: b2 :: b3 :: b4 :: b5 :: b6 :: b7 :: fromBlocks (toBlocks rest) := rfl
      _ = b0 :: b1 :: b2 :: b3 :: b4 :: b5 :: b6 :: b7 :: rest := by rw [hfrom]

theorem fromBlocks_length (blocks : List Block) :
    (fromBlocks blocks).length = 8 * blocks.length := by
  induction blocks with
  | nil => rfl
  | cons v blocks ih =>
    have hcons : fromBlocks (v :: blocks) = v.toList ++ fromBlocks blocks := rfl
    rw [hcons, List.length_append, ih, Vector.length_toList, List.length_cons]
    omega

/-! ## The buffer -/

namespace Outgoing

theorem outLen_spec (p : Outgoing) : p.outLen % 8 = 0 ∧ p.size ≤ p.outLen ∧ 22 ≤ p.size := by
  have : 22 ≤ p.size := by rw [size]; omega
  rw [outLen]
  split <;> omega

theorem written_length (p : Outgoing) : 16 + p.written.length = p.size + 2 := by
  simp only [written, addrBytes, size, List.length_append, List.length_cons, be16Bytes_length]
  omega

/-- The family and the length of both addresses are two bytes each, but the size counts one. -/
theorem writtenPastEnd_eq_zero_iff (p : Outgoing) :
    p.writtenPastEnd = 0 ↔ 1 ≤ p.size % 8 ∧ p.size % 8 ≤ 6 := by
  rw [writtenPastEnd, written_length, outLen]
  split <;> omega

theorem plaintext_length (c : Crypto) (p : Outgoing) : (p.plaintext c).length = p.outLen := by
  obtain ⟨-, hle, hsize⟩ := p.outLen_spec
  simp only [plaintext, List.length_append, c.md5bin_length, resize_length]
  omega

theorem plaintext_blocks (c : Crypto) (p : Outgoing) :
    fromBlocks (toBlocks (p.plaintext c)) = p.plaintext c ∧ toBlocks (p.plaintext c) ≠ [] := by
  obtain ⟨hmod, hle, hsize⟩ := p.outLen_spec
  have hlen := p.plaintext_length c
  obtain ⟨hfrom, hcount⟩ :=
    fromBlocks_toBlocks (n := p.outLen / 8) (l := p.plaintext c) (by rw [hlen]; omega)
  refine ⟨hfrom, ?_⟩
  intro hnil
  rw [hnil, List.length_nil] at hcount
  omega

end Outgoing

/-- With equal chaining values the peer decrypts the buffer of the sender. -/
theorem decrypted_transmitPacket (c : Crypto) {sender peer : Endpoint} (p : Outgoing)
    (h : peer.ivecDecrypt = sender.ivecEncrypt) :
    decrypted c peer (transmitPacket c sender p).2 = p.plaintext c := by
  rw [decrypted, transmitPacket, toBlocks_fromBlocks, h, Cbc.decrypt_encrypt]
  exact (p.plaintext_blocks c).1

theorem transmitPacket_length (c : Crypto) (sender : Endpoint) (p : Outgoing) :
    (transmitPacket c sender p).2.length % 8 = 0 := by
  rw [transmitPacket, fromBlocks_length]
  omega

/-! ## Round trip -/

theorem readAddr_addrBytes (a : AnyAddr) (rest : List Byte) :
    readAddr (Outgoing.addrBytes a ++ rest) = .ok (a, rest) := by
  obtain ⟨af, addr, hsize⟩ := a
  have hlt : addr.length < 2 ^ 8 := by
    rw [hsize]
    cases af <;> decide
  have hle : af.size ≤ (addr ++ rest).length := by
    rw [List.length_append]
    omega
  simp only [Outgoing.addrBytes, List.cons_append, readAddr, familyOf_familyNumber, dif_pos hle,
    toNat_ofNat_of_lt hlt, List.drop_left, List.take_left' hsize]

theorem takeApart_written (dev : Device) {p : Outgoing} (h : p.payload.length ≤ 65535)
    (padding : List Byte) :
    takeApart dev (p.written ++ padding) =
      .ok (insertPacket dev p.dstMac p.srcMac p.etherType p.payload) := by
  have hsize : (BitVec.ofNat 16 p.payload.length).toNat = p.payload.length :=
    toNat_ofNat_of_lt (by omega)
  have hfits : ¬(p.payload ++ padding).length < p.payload.length := by
    rw [List.length_append]
    omega
  simp only [Outgoing.written, be16Bytes, List.cons_append, List.nil_append, List.append_assoc,
    takeApart, readAddr_addrBytes, be16_be16Bytes, hsize, bind, Except.bind, pure, Except.pure,
    if_neg hfits, List.take_left]

/-- What the peer makes of a datagram that was written inside the buffer: source and destination
have changed places. -/
theorem input_transmitPacket (c : Crypto) (dev : Device) {sender peer : Endpoint} {p : Outgoing}
    (hsync : peer.ivecDecrypt = sender.ivecEncrypt) (hlen : p.payload.length ≤ 65535)
    (hinside : p.writtenPastEnd = 0) :
    (input c dev peer (transmitPacket c sender p).2).2 =
      .ok (insertPacket dev p.dstMac p.srcMac p.etherType p.payload) := by
  have hresize : resize p.written (p.outLen - 16) = p.written ++
      List.replicate (p.outLen - 16 - p.written.length) 0 := by
    rw [resize, List.take_of_length_le]
    rw [Outgoing.writtenPastEnd] at hinside
    omega
  have hhash := c.md5bin_length (resize p.written (p.outLen - 16))
  have hlong : ¬(p.plaintext c).length < 16 := by
    obtain ⟨-, hle, hsize⟩ := p.outLen_spec
    rw [p.plaintext_length c]
    omega
  have hhead : (p.plaintext c).take 16 = c.md5bin (resize p.written (p.outLen - 16)) :=
    List.take_left' hhash
  have htail : (p.plaintext c).drop 16 = resize p.written (p.outLen - 16) := List.drop_left' hhash
  rw [input, if_neg (by rw [transmitPacket_length]; simp), decrypted_transmitPacket c p hsync]
  simp only [hlong, hhead, htail, if_false, if_true]
  rw [hresize, takeApart_written dev hlen]

/-- All bytes are written inside the buffer, and the peer queues the packet as it was given to
`transmit_packet`. -/
def Carried (c : Crypto) (dev : Device) (sender peer : Endpoint) (p : Outgoing) (layer : ℕ) :
    Prop :=
  p.writtenPastEnd = 0 ∧ (input c dev peer (transmitPacket c sender p).2).2 =
    .ok [(layer, ⟨p.srcMac, p.dstMac, p.payload⟩)]

/-- A packet comes through exactly if its size leaves room for the two bytes that were not counted,
and source and destination are the same. -/
theorem carried_iff (c : Crypto) (dev : Device) (sender peer : Endpoint) (p : Outgoing) (layer : ℕ)
    (hsync : peer.ivecDecrypt = sender.ivecEncrypt) (hlen : p.payload.length ≤ 65535)
    (hregistered : dev.protMap p.etherType = some layer) :
    Carried c dev sender peer p layer ↔
      (1 ≤ p.size % 8 ∧ p.size % 8 ≤ 6) ∧ p.srcMac = p.dstMac := by
  rw [Carried, p.writtenPastEnd_eq_zero_iff]
  apply and_congr_right
  intro hsize
  rw [input_transmitPacket c dev hsync hlen (p.writtenPastEnd_eq_zero_iff.mpr hsize), insertPacket,
    Device.queueIncoming_attached hregistered]
  simp only [Except.ok.injEq, List.cons.injEq, Prod.mk.injEq, Packet.mk.injEq, true_and, and_true]
  constructor
  · rintro ⟨hdst, -⟩
    exact hdst.symm
  · intro hsame
    exact ⟨hsame.symm, hsame⟩

namespace Sample

/-- The bytes of a number, the first one on top. -/
def bytesOf (n : ℕ) (bits : BitVec (8 * n)) : List Byte :=
  (List.range n).map fun i => (bits >>> (8 * (n - 1 - i))).setWidth 8

def block (bits : BitVec 64) : Block :=
  Vector.ofFn fun i : Fin 8 => (bits >>> (8 * (7 - i.val))).setWidth 8

/-- A packet of `size` bytes between two hosts, or from a host to itself. -/
def outgoing (toSelf : Bool) (size : ℕ) : Outgoing where
  dstMac := ⟨.mac, [2, 0, 0, 0, 0, if toSelf then 1 else 2], rfl⟩
  srcMac := Phys.Sample.device.myMac
  etherType := 0x800
  payload := List.replicate size 0x45

/-- What DES makes of the blocks of the packets below, with the key for the text "secret". -/
def desBlocks : List (BitVec 64 × BitVec 64) :=
  [ (0x0486691240676290, 0x80ac5f81f9601186), (0x1a65e64f63afdf93, 0xf3be6017d3dc6e9a),
    (0xfbbe6016d2da6c9a, 0x6d254c13691d7a95), (0x6d254c11681b7895, 0x3ea55b53467bbb89),
    (0x3ea55b52037bbb89, 0xef469a46dc0eef4a), (0xf6dfeab299bf312d, 0x65b7e18eb2b0f8dd),
    (0x98cd087728071e3a, 0x1e801fb5c3030327), (0x16801fb0c2050127, 0x5a7486a206c26e24),
    (0x5a7486a007c46c24, 0x5cd116ba6829d28e), (0x5cd116bb2d6c97cb, 0xc283b71bd7f0f3f2),
    (0x0e41bed49a5864df, 0xd80b1aa99e256478), (0x95e71db89e0877cf, 0x18166e42f8cb526a),
    (0x10166e46f9cd506a, 0xf448c91db1f40d18), (0xf448c91cb0f20f18, 0xb2786521b0c80a7e),
    (0xb2786520f58d4f3b, 0xc0ec1dca8f49a25d), (0xccc209cf4da8972d, 0x3f6e33fc62ed7dcd),
    (0x728234ed62c06e7a, 0xdaf732880966f2af), (0xd2f7328c0860f0af, 0x88dfe7ec7f69692a),
    (0x88dfe7ed7e6f6b2a, 0xa0a9a22e01c7f9c1), (0xa0a9a22f4482bc84, 0x7713e8a235ce8dcb),
    (0x199970f445b1de67, 0x1b9602d2c0255c76), (0xe6eceb2b5a92ba91, 0x14b3c7ac1efd2f2c),
    (0x1cb3c7a91ffb2d2c, 0xf73d6ea8e68aea22), (0xf73d6eaae78ce822, 0x5668e95427609671),
    (0x5668e9556225d334, 0x3416a6942d5d9a9e) ]

/-- DES on these blocks; it exchanges each with its ciphertext. -/
def des : Equiv.Perm Block := (desBlocks.map fun (x, y) => Equiv.swap (block x) (block y)).prod

def hashed (toSelf : Bool) (size : ℕ) : List Byte :=
  resize (outgoing toSelf size).written ((outgoing toSelf size).outLen - 16)

def crypto : Crypto where
  desEncrypt := des
  desDecrypt := des.symm
  desDecrypt_desEncrypt := des.symm_apply_apply
  md5bin := fun m =>
    if m = hashed false 1 then bytesOf 16 0x04866912406762909ac9b9ce9acfce15
    else if m = hashed false 5 then bytesOf 16 0x199970f445b1de67fd7ae9f99ab7e6e7
    else bytesOf 16 0xccc209cf4da8972d4dec0711002d13b7
  md5bin_length := fun m => by split_ifs <;> simp [bytesOf]

def endpoint : Endpoint := ⟨Vector.replicate 8 0, Vector.replicate 8 0⟩

end Sample

theorem carried_iff_toSelf :
    Carried Sample.crypto Phys.Sample.device Sample.endpoint Sample.endpoint
        (Sample.outgoing true 4) 4 ↔
      (1 ≤ (Sample.outgoing true 4).size % 8 ∧ (Sample.outgoing true 4).size % 8 ≤ 6) ∧
        (Sample.outgoing true 4).srcMac = (Sample.outgoing true 4).dstMac :=
  carried_iff Sample.crypto Phys.Sample.device Sample.endpoint Sample.endpoint
    (Sample.outgoing true 4) 4 rfl (by simp [Sample.outgoing]) rfl

example : (transmitPacket Sample.crypto Sample.endpoint (Sample.outgoing true 4)).2 =
    fromBlocks ([0x3f6e33fc62ed7dcd, 0xdaf732880966f2af, 0x88dfe7ec7f69692a, 0xa0a9a22e01c7f9c1,
      0x7713e8a235ce8dcb].map Sample.block) := by
  decide +kernel

/-- A payload of 1 byte fits, but comes from the wrong side; 5 bytes do not fit. -/
theorem not_carried :
    (input Sample.crypto Phys.Sample.device Sample.endpoint
        (transmitPacket Sample.crypto Sample.endpoint (Sample.outgoing false 1)).2).2 =
      .ok [(4, ⟨(Sample.outgoing false 1).dstMac, (Sample.outgoing false 1).srcMac,
        List.replicate 1 0x45⟩)] ∧
    ¬Carried Sample.crypto Phys.Sample.device Sample.endpoint Sample.endpoint
        (Sample.outgoing false 1) 4 ∧
    (Sample.outgoing false 5).writtenPastEnd = 1 ∧
    ¬Carried Sample.crypto Phys.Sample.device Sample.endpoint Sample.endpoint
        (Sample.outgoing false 5) 4 := by
  have hinside : (Sample.outgoing false 1).writtenPastEnd = 0 := rfl
  have hbehind : (Sample.outgoing false 5).writtenPastEnd = 1 := rfl
  have hqueued : (input Sample.crypto Phys.Sample.device Sample.endpoint
      (transmitPacket Sample.crypto Sample.endpoint (Sample.outgoing false 1)).2).2 =
      .ok [(4, ⟨(Sample.outgoing false 1).dstMac, (Sample.outgoing false 1).srcMac,
        List.replicate 1 0x45⟩)] :=
    input_transmitPacket Sample.crypto Phys.Sample.device rfl (by simp [Sample.outgoing]) hinside
  refine ⟨hqueued, ?_, hbehind, ?_⟩
  · rintro ⟨-, hcarried⟩
    rw [hqueued] at hcarried
    simp [Sample.outgoing, Phys.Sample.device] at hcarried
  · rintro ⟨hnone, -⟩
    rw [hbehind] at hnone
    exact absurd hnone (by simp)

/-! ## Datagrams that are lost, come twice or in another order -/

/-- An endpoint after it has sent `packets`. -/
def Endpoint.afterSending (c : Crypto) (v : Endpoint) (packets : List Outgoing) : Endpoint :=
  packets.foldl (fun v p => (transmitPacket c v p).1) v

/-- An endpoint after it has processed `datagrams`. -/
def Endpoint.afterReceiving (c : Crypto) (dev : Device) (v : Endpoint)
    (datagrams : List (List Byte)) : Endpoint :=
  datagrams.foldl (fun v pl => (input c dev v pl).1) v

/-- The datagram for `packets[k]`, sent after those before it. -/
def datagram (c : Crypto) (v : Endpoint) (packets : List Outgoing) (k : Fin packets.length) :
    List Byte :=
  (transmitPacket c (v.afterSending c (packets.take k)) packets[k]).2

/-- The plaintexts by blocks: the messages of the library. -/
def messages (c : Crypto) (packets : List Outgoing) : List (List Block) :=
  packets.map fun p => toBlocks (p.plaintext c)

theorem afterSending_ivecEncrypt (c : Crypto) (v : Endpoint) (packets : List Outgoing) (k : ℕ) :
    (v.afterSending c (packets.take k)).ivecEncrypt =
      Cbc.ivBefore c.ncbc v.ivecEncrypt (messages c packets) k := by
  have hfold : ∀ (ps : List Outgoing) (v : Endpoint), (v.afterSending c ps).ivecEncrypt =
      (messages c ps).foldl (fun iv xs => (Cbc.encrypt c.ncbc iv xs).2) v.ivecEncrypt := by
    intro ps
    induction ps with
    | nil => exact fun _ => rfl
    | cons p ps ih => exact fun v => ih (transmitPacket c v p).1
  rw [hfold, Cbc.ivBefore, messages, messages, List.map_take]

theorem messages_getD (c : Crypto) (packets : List Outgoing) (k : Fin packets.length) :
    (messages c packets).getD k [] = toBlocks (packets[k].plaintext c) := by
  rw [messages, List.getD_eq_getElem?_getD, List.getElem?_map, List.getElem?_eq_getElem k.isLt]
  rfl

theorem toBlocks_datagram (c : Crypto) (v : Endpoint) (packets : List Outgoing)
    (k : Fin packets.length) :
    toBlocks (datagram c v packets k) = Cbc.sent c.ncbc v.ivecEncrypt (messages c packets) k := by
  rw [datagram, transmitPacket, toBlocks_fromBlocks, afterSending_ivecEncrypt, Cbc.sent,
    messages_getD]

theorem input_ivecDecrypt (c : Crypto) (dev : Device) (v : Endpoint) {pl : List Byte}
    (h : pl.length % 8 = 0) :
    (input c dev v pl).1.ivecDecrypt = (Cbc.decrypt c.ncbc v.ivecDecrypt (toBlocks pl)).2 := by
  rw [input, if_neg (by simpa using h)]

theorem afterReceiving_ivecDecrypt (c : Crypto) (dev : Device) (sender : Endpoint)
    (packets : List Outgoing) (before : List (Fin packets.length)) (peer : Endpoint) :
    (peer.afterReceiving c dev (before.map (datagram c sender packets))).ivecDecrypt =
      Cbc.received c.ncbc peer.ivecDecrypt sender.ivecEncrypt (messages c packets)
        (before.map Fin.val) := by
  induction before generalizing peer with
  | nil => rfl
  | cons k before ih =>
    have hstep := input_ivecDecrypt c dev peer
      (transmitPacket_length c (sender.afterSending c (packets.take k)) packets[k])
    have htail := ih (input c dev peer (datagram c sender packets k)).1
    rw [datagram, hstep, ← datagram, toBlocks_datagram] at htail
    exact htail

/-- Whatever was lost, came twice or too early before: a datagram that is processed right after its
predecessor, or the first one if nothing was received, is decrypted to the buffer of the sender. -/
theorem decrypted_after_predecessor (c : Crypto) (dev : Device) (sender peer : Endpoint)
    (hiv : peer.ivecDecrypt = sender.ivecEncrypt) (packets : List Outgoing)
    (before : List (Fin packets.length)) (k : Fin packets.length)
    (hprev : (before = [] ∧ k.val = 0) ∨
      ∃ earlier j, before = earlier ++ [j] ∧ k.val = j.val + 1) :
    decrypted c (peer.afterReceiving c dev (before.map (datagram c sender packets)))
      (datagram c sender packets k) = packets[k].plaintext c := by
  have hmessages : ∀ xs ∈ messages c packets, xs ≠ [] := by
    intro xs hxs
    obtain ⟨p, -, rfl⟩ := List.mem_map.mp hxs
    exact (p.plaintext_blocks c).2
  have hlib := Cbc.received_resync c.ncbc sender.ivecEncrypt hmessages
    (show k.val < (messages c packets).length by rw [messages, List.length_map]; exact k.isLt)
    (before.map Fin.val) (by
      rcases hprev with ⟨rfl, hk⟩ | ⟨earlier, j, rfl, hk⟩
      · exact .inl ⟨rfl, hk⟩
      · exact .inr ⟨earlier.map Fin.val, j.val, by simp, hk⟩)
  rw [decrypted, afterReceiving_ivecDecrypt, hiv, toBlocks_datagram, hlib, messages_getD]
  exact (packets[k].plaintext_blocks c).1

/-- The third of three packets comes too early and the first one twice; after the second the third
is decrypted. -/
theorem decrypted_after_predecessor_third :
    decrypted Sample.crypto
        (Sample.endpoint.afterReceiving Sample.crypto Phys.Sample.device
          (([2, 0, 0, 1] : List (Fin 3)).map (datagram Sample.crypto Sample.endpoint
            [Sample.outgoing false 1, Sample.outgoing false 5, Sample.outgoing true 4])))
        (datagram Sample.crypto Sample.endpoint
          [Sample.outgoing false 1, Sample.outgoing false 5, Sample.outgoing true 4] 2) =
      (Sample.outgoing true 4).plaintext Sample.crypto :=
  decrypted_after_predecessor Sample.crypto Phys.Sample.device Sample.endpoint Sample.endpoint rfl
    [Sample.outgoing false 1, Sample.outgoing false 5, Sample.outgoing true 4] [2, 0, 0, 1] 2
    (.inr ⟨[2, 0, 0], 1, rfl, rfl⟩)

end MyIp.Vpn
