import MyIp.Net.AnyAddr

/-! # AX.25 addresses

`ax25_address` (`ax25.h`, `ax25.cpp`). Seven bytes stand for a callsign of six characters, each
shifted to the left by one, and an SSID with two marks. `Encodable` is what such bytes can express;
`ofBytes_generateAddress` says that they give the address back, `ofBytes_encodable` that nothing
else is ever read from them. -/

namespace MyIp.Ax25
set_option autoImplicit false

open Bytes

/-- `ax25_address` -/
structure Ax25Address where
  valid : Bool := false
  invalidReason : String := ""
  address : List Byte := []
  ssid : BitVec 32 := 0
  endMark : Bool := false
  repeated : Bool := false
  deriving DecidableEq

/-- `%02x` -/
def hexByte (b : Byte) : String :=
  String.ofList [Nat.digitChar (b.toNat / 16), Nat.digitChar (b.toNat % 16)]

/-- `bin_to_text` without `prefer_ascii` -/
def binToText (bs : List Byte) : String := " ".intercalate (bs.map hexByte)

namespace Ax25Address

/-- The loop over the characters of a callsign, from number `i` on. A byte that is not `allowed` to
have its lowest bit set ends it: its number comes with the characters found so far. -/
def callsignLoop (allowed : ℕ → Bool) : ℕ → Bool → List Byte → List Byte → List Byte × Option ℕ
  | _, _, address, [] => (address, none)
  | i, ended, address, b :: bs =>
    if b &&& 1 ≠ 0 ∧ allowed i = false then (address, some i)
    else if b >>> 1 = 0 ∨ b >>> 1 = 32 ∨ ended then callsignLoop allowed (i + 1) true address bs
    else callsignLoop allowed (i + 1) ended (address ++ [b >>> 1]) bs

/-- The SSID and the marks of a complete address. -/
def withSsid (address : List Byte) (b : Byte) : Ax25Address where
  valid := true
  address := address
  ssid := ((b >>> 1) &&& 0x0f).setWidth 32
  endMark := b &&& 1 ≠ 0
  repeated := b &&& 128 = 128

/-- `ax25_address(const std::vector<uint8_t> &)` -/
def ofBytes (bytes : List Byte) : Ax25Address :=
  if bytes.length < 7 then
    { invalidReason := "address too short " ++ toString bytes.length ++ " < 7 " }
  else
    -- why not in byte 5?
    match callsignLoop (fun i => i == 5) 0 false [] (bytes.take 6) with
    | (address, some i) =>
      { invalidReason := "byte " ++ toString i ++ " has lsb set (" ++ binToText (bytes.take 6) ++ ")"
        address := address }
    | (address, none) => withSsid address (bytes.getD 6 0)

/-- `ax25_address(const any_addr &)`, for an address of seven bytes. -/
def ofAnyAddr (addr : AnyAddr) : Ax25Address :=
  match callsignLoop (fun _ => false) 0 false [] (addr.addr.take 6) with
  | (address, some _) => { address := address }
  | (address, none) => withSsid address (addr.addr.getD 6 0)

/-- `ax25_address(a, ssid, end_mark, repeated)` -/
def ofCallsign (a : List Byte) (ssid : BitVec 32) (endMark repeated : Bool) : Ax25Address where
  valid := true
  address := a
  ssid := ssid
  endMark := endMark
  repeated := repeated

/-- `operator==` -/
def same (a b : Ax25Address) : Bool :=
  b.valid == a.valid && b.address == a.address && b.ssid == a.ssid

/-- What an address says of a station: callsign, SSID and whether it has repeated the frame. -/
def station (a : Ax25Address) : List Byte × BitVec 32 × Bool := (a.address, a.ssid, a.repeated)

/-- A character in its place, `address[i] << 1`. -/
def shifted (c : Byte) : Byte := c <<< 1

/-- `out[6]` of `generate_address` -/
def ssidByte (ssid : BitVec 32) (endMark repeated : Bool) : Byte :=
  ((ssid <<< 1) ||| (if endMark then 1 else 0) ||| (if repeated then 128 else 0)).setWidth 8

/-- `generate_address` -/
def generateAddress (a : Ax25Address) : List Byte :=
  (a.address.take 6).map shifted ++ List.replicate (6 - min 6 a.address.length) (shifted 32) ++
    [ssidByte a.ssid a.endMark a.repeated]

@[simp] theorem generateAddress_length (a : Ax25Address) : a.generateAddress.length = 7 := by
  simp [generateAddress]
  omega

/-- `get_any_addr` -/
def getAnyAddr (a : Ax25Address) : AnyAddr := ⟨.ax25, a.generateAddress, a.generateAddress_length⟩

/-! ## What seven bytes can express -/

/-- Up to six characters of seven bits, none of them NUL or a space, and an SSID of four bits. -/
structure Encodable (a : Ax25Address) : Prop where
  length_le : a.address.length ≤ 6
  character : ∀ c ∈ a.address, c < 128 ∧ c ≠ 0 ∧ c ≠ 32
  ssid_lt : a.ssid < 16

theorem and_one_eq_zero {b : Byte} (h : b.toNat % 2 = 0) : b &&& 1 = 0 := by
  apply BitVec.eq_of_toNat_eq
  rw [BitVec.toNat_and]
  exact (Nat.and_one_is_mod _).trans h

theorem shifted_toNat (c : Byte) : (shifted c).toNat = c.toNat * 2 % 256 := by
  rw [shifted, BitVec.toNat_shiftLeft, Nat.shiftLeft_eq]

theorem shifted_and_one (c : Byte) : shifted c &&& 1 = 0 :=
  and_one_eq_zero (by rw [shifted_toNat]; omega)

theorem shifted_shiftRight {c : Byte} (h : c < 128) : shifted c >>> 1 = c := by
  apply BitVec.eq_of_toNat_eq
  have hc : c.toNat < 128 := h
  rw [BitVec.toNat_ushiftRight, shifted_toNat, Nat.shiftRight_eq_div_pow]
  omega

/-- Shifted characters are read back and added to what was found before. -/
theorem callsignLoop_characters {allowed : ℕ → Bool} {cs : List Byte} {i : ℕ} {address : List Byte}
    (h : ∀ c ∈ cs, c < 128 ∧ c ≠ 0 ∧ c ≠ 32) (rest : List Byte) :
    callsignLoop allowed i false address (cs.map shifted ++ rest) =
      callsignLoop allowed (i + cs.length) false (address ++ cs) rest := by
  induction cs generalizing i address with
  | nil => simp
  | cons c cs ih =>
    obtain ⟨hlt, hzero, hspace⟩ := h c (by simp)
    rw [List.map_cons, List.cons_append, callsignLoop, shifted_and_one, shifted_shiftRight hlt,
      if_neg (by simp), if_neg (by tauto), ih fun d hd => h d (by simp [hd])]
    simp [Nat.add_assoc, Nat.add_comm 1]

/-- The spaces behind a callsign add nothing. -/
theorem callsignLoop_spaces (allowed : ℕ → Bool) (n i : ℕ) (ended : Bool) (address : List Byte) :
    callsignLoop allowed i ended address (List.replicate n (shifted 32)) = (address, none) := by
  induction n generalizing i ended with
  | zero => rfl
  | succ n ih =>
    rw [List.replicate_succ, callsignLoop, shifted_and_one, shifted_shiftRight (by decide),
      if_neg (by simp), if_pos (by simp), ih]

theorem generateAddress_take {a : Ax25Address} (h : a.Encodable) : a.generateAddress.take 6 =
    a.address.map shifted ++ List.replicate (6 - a.address.length) (shifted 32) := by
  have hlen := h.length_le
  rw [generateAddress, List.take_append_of_le_length (by simp), List.take_of_length_le (by simp),
    List.take_of_length_le hlen, Nat.min_eq_right hlen]

theorem generateAddress_last (a : Ax25Address) :
    a.generateAddress.getD 6 0 = ssidByte a.ssid a.endMark a.repeated := by
  have hlen : ((a.address.take 6).map shifted ++
      List.replicate (6 - min 6 a.address.length) (shifted 32)).length = 6 := by
    simp
  rw [generateAddress, List.getD_eq_getElem?_getD, List.getElem?_append_right (by rw [hlen]), hlen]
  rfl

theorem ssidByte_bits : ∀ (k : Fin 16) (e r : Bool),
    ((ssidByte (BitVec.ofNat 32 k) e r >>> 1) &&& 0x0f).setWidth 32 = BitVec.ofNat 32 k ∧
      decide (ssidByte (BitVec.ofNat 32 k) e r &&& 1 ≠ 0) = e ∧
      decide (ssidByte (BitVec.ofNat 32 k) e r &&& 128 = 128) = r := by
  decide +kernel

/-- SSID and marks, put into a byte and read back. -/
theorem withSsid_ssidByte (address : List Byte) {ssid : BitVec 32} (h : ssid < 16)
    (endMark repeated : Bool) :
    withSsid address (ssidByte ssid endMark repeated) =
      ofCallsign address ssid endMark repeated := by
  have hk : ssid.toNat < 16 := h
  obtain ⟨hssid, hend, hrep⟩ := ssidByte_bits ⟨ssid.toNat, hk⟩ endMark repeated
  have hof : BitVec.ofNat 32 ssid.toNat = ssid := by simp
  simp only [hof] at hssid hend hrep
  simp only [withSsid, ofCallsign, hssid, hend, hrep]

/-- The bytes of an address give back all that they can express. -/
theorem ofBytes_generateAddress {a : Ax25Address} (h : a.Encodable) :
    ofBytes a.generateAddress = ofCallsign a.address a.ssid a.endMark a.repeated := by
  rw [ofBytes, if_neg (by simp), generateAddress_take h, callsignLoop_characters h.character,
    callsignLoop_spaces]
  simp only [generateAddress_last]
  exact withSsid_ssidByte _ h.ssid_lt _ _

theorem ofAnyAddr_getAnyAddr {a : Ax25Address} (h : a.Encodable) :
    ofAnyAddr a.getAnyAddr = ofCallsign a.address a.ssid a.endMark a.repeated := by
  rw [ofAnyAddr, getAnyAddr, generateAddress_take h, callsignLoop_characters h.character,
    callsignLoop_spaces]
  simp only [generateAddress_last]
  exact withSsid_ssidByte _ h.ssid_lt _ _

/-! ## Addresses that were read -/

theorem shiftRight_lt (b : Byte) : b >>> 1 < 128 := by
  have := b.isLt
  rw [BitVec.lt_def, BitVec.toNat_ushiftRight, Nat.shiftRight_eq_div_pow]
  exact Nat.div_lt_of_lt_mul this

/-- The loop adds characters of a callsign only, at most one for each byte. -/
theorem callsignLoop_spec (allowed : ℕ → Bool) (bs : List Byte) (i : ℕ) (ended : Bool)
    (address : List Byte) (h : ∀ c ∈ address, c < 128 ∧ c ≠ 0 ∧ c ≠ 32) :
    (callsignLoop allowed i ended address bs).1.length ≤ address.length + bs.length ∧
      ∀ c ∈ (callsignLoop allowed i ended address bs).1, c < 128 ∧ c ≠ 0 ∧ c ≠ 32 := by
  induction bs generalizing i ended address with
  | nil => exact ⟨Nat.le_refl _, h⟩
  | cons b bs ih =>
    rw [callsignLoop]
    split_ifs with hlsb hend
    · exact ⟨Nat.le_add_right _ _, h⟩
    · obtain ⟨hlen, hchar⟩ := ih (i + 1) true address h
      exact ⟨by rw [List.length_cons]; omega, hchar⟩
    · push Not at hend
      obtain ⟨hlen, hchar⟩ := ih (i + 1) ended (address ++ [b >>> 1]) (fun c hc => by
        rcases List.mem_append.mp hc with hc | hc
        · exact h c hc
        · rw [List.mem_singleton.mp hc]
          exact ⟨shiftRight_lt b, hend.1, hend.2.1⟩)
      refine ⟨?_, hchar⟩
      rw [List.length_append, List.length_singleton] at hlen
      rw [List.length_cons]
      omega

theorem withSsid_encodable {address : List Byte} {b : Byte} (hlen : address.length ≤ 6)
    (h : ∀ c ∈ address, c < 128 ∧ c ≠ 0 ∧ c ≠ 32) : (withSsid address b).Encodable := by
  refine ⟨hlen, h, ?_⟩
  have hle : (b >>> 1 &&& 0x0f).toNat ≤ 15 := by
    rw [BitVec.toNat_and]
    exact Nat.and_le_right
  rw [withSsid, BitVec.lt_def, BitVec.toNat_setWidth]
  exact lt_of_le_of_lt (Nat.mod_le _ _) (Nat.lt_succ_of_le hle)

theorem ofBytes_valid {bytes : List Byte} (h : (ofBytes bytes).valid = true) :
    ∃ address, callsignLoop (fun i => i == 5) 0 false [] (bytes.take 6) = (address, none) ∧
      ofBytes bytes = withSsid address (bytes.getD 6 0) := by
  rw [ofBytes] at h ⊢
  split at h
  · exact absurd h (by simp)
  · rename_i hsize
    rw [if_neg hsize]
    split at h
    · exact absurd h (by simp)
    · rename_i address hloop
      exact ⟨address, hloop, rfl⟩

theorem ofBytes_encodable {bytes : List Byte} (h : (ofBytes bytes).valid = true) :
    (ofBytes bytes).Encodable := by
  obtain ⟨address, hloop, heq⟩ := ofBytes_valid h
  obtain ⟨hlen, hchar⟩ := callsignLoop_spec (fun i => i == 5) (bytes.take 6) 0 false [] (by simp)
  rw [hloop] at hlen hchar
  rw [heq]
  exact withSsid_encodable (le_trans hlen (by simp)) hchar

/-- A valid address that was read is its callsign, its SSID and its marks. -/
theorem ofBytes_eq_ofCallsign {bytes : List Byte} (h : (ofBytes bytes).valid = true) :
    ofBytes bytes = ofCallsign (ofBytes bytes).address (ofBytes bytes).ssid
      (ofBytes bytes).endMark (ofBytes bytes).repeated := by
  obtain ⟨address, -, heq⟩ := ofBytes_valid h
  rw [heq]
  rfl

theorem callsignLoop_complete (allowed : ℕ → Bool) (bs : List Byte) (i : ℕ) (ended : Bool)
    (address : List Byte) (h : ∀ b ∈ bs, b &&& 1 = 0) :
    (callsignLoop allowed i ended address bs).2 = none := by
  induction bs generalizing i ended address with
  | nil => rfl
  | cons b bs ih =>
    have hb : b &&& 1 = 0 := h b (by simp)
    rw [callsignLoop, if_neg fun hlsb => hlsb.1 hb]
    split_ifs
    · exact ih _ _ _ fun c hc => h c (by simp [hc])
    · exact ih _ _ _ fun c hc => h c (by simp [hc])

/-- Whatever text a callsign was made from, its seven bytes are read as an address. -/
theorem ofAnyAddr_valid (a : Ax25Address) :
    (ofAnyAddr a.getAnyAddr).valid = true ∧ (ofAnyAddr a.getAnyAddr).Encodable ∧
      (ofAnyAddr a.getAnyAddr).invalidReason = "" := by
  have hlsb : ∀ b ∈ a.getAnyAddr.addr.take 6, b &&& 1 = 0 := by
    intro b hb
    have haddr : a.getAnyAddr.addr = a.generateAddress := rfl
    rw [haddr, generateAddress, List.take_append_of_le_length (by simp)] at hb
    rcases List.mem_append.mp (List.mem_of_mem_take hb) with hb | hb
    · obtain ⟨c, -, rfl⟩ := List.mem_map.mp hb
      exact shifted_and_one c
    · rw [List.eq_of_mem_replicate hb]
      exact shifted_and_one 32
  have hnone := callsignLoop_complete (fun _ => false) _ 0 false [] hlsb
  obtain ⟨hlen, hchar⟩ :=
    callsignLoop_spec (fun _ => false) (a.getAnyAddr.addr.take 6) 0 false [] (by simp)
  rw [ofAnyAddr]
  generalize callsignLoop (fun _ => false) 0 false [] (a.getAnyAddr.addr.take 6) = r at *
  obtain ⟨address, failed⟩ := r
  subst hnone
  exact ⟨rfl, withSsid_encodable (le_trans hlen (by simp)) hchar, rfl⟩

end Ax25Address

end MyIp.Ax25
