import MyIp.Foundations.OnesComplement
import MyIp.Net.Checksum

/-! # What a checksum says

`ip_checksum` (`network_layer.cpp`) sums words up in 32 bits, adds the carries to the low 16 bits
twice and takes the complement. As long as the 32 bits are enough, the sum over a message with the
result in it is all ones; a carry out of the 32 bits is lost (`dvd_add_ipChecksum_iff`). -/

namespace MyIp
open Bytes OnesComplement
set_option autoImplicit false

/-- The sum of the words of a block, without a last single byte. -/
def bytesSum (p : List Byte) : ℕ := wordSum (netWords p)

/-- The byte behind the last word, 0 if there is none. -/
def unpaired (p : List Byte) : Byte := if p.length % 2 = 1 then p.getLastD 0 else 0

/-- The one's complement sum over the message, padded with a zero byte when odd, is all ones. -/
def Verifies (p : List Byte) : Prop := onesSum (netWords (padEven p)) = 0xffff

instance (p : List Byte) : Decidable (Verifies p) :=
  inferInstanceAs (Decidable (onesSum (netWords (padEven p)) = 0xffff))

/-! ## Words of bytes -/

theorem netWords_append {p : List Byte} (h : p.length % 2 = 0) (q : List Byte) :
    netWords (p ++ q) = netWords p ++ netWords q := by
  induction p using netWords.induct with
  | case1 a b rest ih =>
    have hrest : rest.length % 2 = 0 := by
      rw [List.length_cons, List.length_cons] at h
      omega
    rw [List.cons_append, List.cons_append, netWords, netWords, List.cons_append, ih hrest]
  | case2 p hp =>
    match p, hp with
    | [], _ => rfl
    | [a], _ => simp at h
    | a :: b :: rest, hp => exact absurd rfl (hp a b rest)

theorem netWords_length (p : List Byte) : (netWords p).length = p.length / 2 := by
  induction p using netWords.induct with
  | case1 a b rest ih =>
    rw [netWords, List.length_cons, ih, List.length_cons, List.length_cons]
    omega
  | case2 p hp =>
    match p, hp with
    | [], _ => rfl
    | [a], _ => simp [netWords]
    | a :: b :: rest, hp => exact absurd rfl (hp a b rest)

theorem bytesSum_append {p : List Byte} (h : p.length % 2 = 0) (q : List Byte) :
    bytesSum (p ++ q) = bytesSum p + bytesSum q := by
  rw [bytesSum, netWords_append h, wordSum_append, bytesSum, bytesSum]

theorem bytesSum_be16Bytes (v : BitVec 16) (q : List Byte) :
    bytesSum (be16Bytes v ++ q) = v.toNat + bytesSum q := by
  rw [bytesSum_append (by rw [be16Bytes_length]), bytesSum, be16Bytes, netWords, be16_be16Bytes]
  simp [netWords]

theorem be32Bytes_eq_be16Bytes (v : BitVec 32) :
    be32Bytes v = be16Bytes ((v >>> 16).setWidth 16) ++ be16Bytes (v.setWidth 16) := by
  have hlt := v.isLt
  have byte : ∀ x y : Byte, x.toNat = y.toNat → x = y := fun _ _ => BitVec.eq_of_toNat_eq
  rw [be32Bytes, be16Bytes, be16Bytes, byte ((v >>> 24).setWidth 8)
    (((v >>> 16).setWidth 16 >>> 8).setWidth 8), byte ((v >>> 16).setWidth 8)
    (((v >>> 16).setWidth 16).setWidth 8), byte ((v >>> 8).setWidth 8)
    ((v.setWidth 16 >>> 8).setWidth 8), byte (v.setWidth 8) ((v.setWidth 16).setWidth 8)]
  · rfl
  all_goals
    simp only [BitVec.toNat_setWidth, BitVec.toNat_ushiftRight, Nat.shiftRight_eq_div_pow]
    omega

theorem bytesSum_be32Bytes (v : BitVec 32) (q : List Byte) :
    bytesSum (be32Bytes v ++ q) = v.toNat / 65536 + v.toNat % 65536 + bytesSum q := by
  have hlt := v.isLt
  have hhigh : ((v >>> 16).setWidth 16).toNat = v.toNat / 65536 := by
    rw [BitVec.toNat_setWidth, BitVec.toNat_ushiftRight, Nat.shiftRight_eq_div_pow]
    omega
  have hlow : (v.setWidth 16).toNat = v.toNat % 65536 := BitVec.toNat_setWidth 16 v
  rw [be32Bytes_eq_be16Bytes, List.append_assoc, bytesSum_be16Bytes, bytesSum_be16Bytes, hhigh, hlow]
  omega

theorem padEven_length (p : List Byte) : (padEven p).length = p.length + p.length % 2 := by
  rw [padEven, List.length_append, List.length_replicate]

theorem padEven_of_even {p : List Byte} (h : p.length % 2 = 0) : padEven p = p := by
  rw [padEven, h, List.replicate_zero, List.append_nil]

theorem padEven_append {p : List Byte} (h : p.length % 2 = 0) (q : List Byte) :
    padEven (p ++ q) = p ++ padEven q := by
  have hmod : (p.length + q.length) % 2 = q.length % 2 := by omega
  rw [padEven, padEven, List.length_append, hmod, List.append_assoc]

theorem unpaired_append {p : List Byte} (h : p.length % 2 = 0) (q : List Byte) :
    unpaired (p ++ q) = unpaired q := by
  rw [unpaired, unpaired, List.length_append]
  by_cases hq : q.length % 2 = 1
  · have hne : q ≠ [] := by
      rintro rfl
      cases hq
    rw [if_pos (by omega), if_pos hq, List.getLastD_eq_getLast?, List.getLastD_eq_getLast?,
      List.getLast?_append_of_ne_nil _ hne]
  · rw [if_neg (by omega), if_neg hq]

theorem bytesSum_padEven (p : List Byte) :
    bytesSum (padEven p) = bytesSum p + (unpaired p).toNat * 256 := by
  by_cases h : p.length % 2 = 1
  · have hne : p ≠ [] := by
      rintro rfl
      cases h
    obtain ⟨q, b, rfl⟩ := List.eq_nil_or_concat p |>.resolve_left hne
    have hq : q.length % 2 = 0 := by
      rw [List.concat_eq_append, List.length_append, List.length_singleton] at h
      omega
    have hlast : unpaired (q.concat b) = b := by
      rw [unpaired, if_pos h, List.concat_eq_append]
      simp
    rw [hlast, List.concat_eq_append, padEven_append hq, bytesSum_append hq, bytesSum_append hq]
    simp [bytesSum, padEven, netWords, be16_toNat]
  · have hp : p.length % 2 = 0 := by omega
    rw [padEven_of_even hp, unpaired, if_neg h]
    simp

/-! ## `ip_checksum` -/

theorem foldl_add_toNat (ws : List (BitVec 16)) (c : BitVec 32) :
    (ws.foldl (fun (c : BitVec 32) w => c + w.setWidth 32) c).toNat =
      (c.toNat + wordSum ws) % 2 ^ 32 := by
  induction ws generalizing c with
  | nil => exact (Nat.mod_eq_of_lt c.isLt).symm
  | cons w ws ih =>
    have hw : (w.setWidth 32).toNat = w.toNat := by
      rw [BitVec.toNat_setWidth, Nat.mod_eq_of_lt (by have := w.isLt; omega)]
    rw [List.foldl_cons, ih, BitVec.toNat_add, hw, wordSum_cons, Nat.mod_add_mod, Nat.add_assoc]

/-- The two additions of the carries leave a number of 16 bits. -/
theorem twice_carried {c : ℕ} (h : c < 2 ^ 32) :
    ∃ m, (c / 2 ^ 16 + c % 2 ^ 16 + (c / 2 ^ 16 + c % 2 ^ 16) / 2 ^ 16) % 2 ^ 16 = m ∧ m ≤ 65535 ∧
      Folds 65535 c m := by
  have hfirst := Folds.carry 65535 c
  have hsecond := Folds.carry 65535 (c / (65535 + 1) + c % (65535 + 1))
  refine ⟨_, rfl, by omega, ?_⟩
  have hvalue : (c / 2 ^ 16 + c % 2 ^ 16 + (c / 2 ^ 16 + c % 2 ^ 16) / 2 ^ 16) % 2 ^ 16 =
      (c / (65535 + 1) + c % (65535 + 1)) / (65535 + 1) +
        (c / (65535 + 1) + c % (65535 + 1)) % (65535 + 1) := by
    omega
  rw [hvalue]
  exact hfirst.trans hsecond

/-- The checksum is the complement of what is left of the sum in 32 bits. -/
theorem ipChecksum_folds (ws : List (BitVec 16)) :
    ∃ m ≤ 65535, Folds 65535 (wordSum ws % 2 ^ 32) m ∧ (ipChecksum ws).toNat = 65535 - m := by
  obtain ⟨m, hm, hle, hfolds⟩ := twice_carried (Nat.mod_lt (wordSum ws) (Nat.two_pow_pos 32))
  refine ⟨m, hle, hfolds, ?_⟩
  have hsum := foldl_add_toNat ws 0
  simp only [ipChecksum]
  generalize ws.foldl (fun (c : BitVec 32) w => c + w.setWidth 32) 0 = c at hsum
  have hc : c.toNat = wordSum ws % 2 ^ 32 := by simpa using hsum
  have hlow : (c &&& 0xffff).toNat = c.toNat % 2 ^ 16 := by
    rw [BitVec.toNat_and]
    exact Nat.and_two_pow_sub_one_eq_mod c.toNat 16
  have hlt := c.isLt
  have hfirst : ((c >>> 16) + (c &&& 0xffff)).toNat = c.toNat / 2 ^ 16 + c.toNat % 2 ^ 16 := by
    rw [BitVec.toNat_add, BitVec.toNat_ushiftRight, Nat.shiftRight_eq_div_pow, hlow]
    omega
  generalize (c >>> 16) + (c &&& 0xffff) = d at hfirst
  have hsecond : (d + (d >>> 16)).toNat = d.toNat + d.toNat / 2 ^ 16 := by
    rw [BitVec.toNat_add, BitVec.toNat_ushiftRight, Nat.shiftRight_eq_div_pow]
    omega
  rw [BitVec.toNat_setWidth, BitVec.toNat_not, hsecond, hfirst, hc]
  omega

/-- With the checksum added a sum is a multiple of all ones, up to what was lost of it. -/
theorem dvd_add_ipChecksum_iff (ws : List (BitVec 16)) (e : ℕ) :
    65535 ∣ wordSum ws + e + (ipChecksum ws).toNat ↔ 65535 ∣ wordSum ws / 2 ^ 32 + e := by
  obtain ⟨m, hle, hfolds, hvalue⟩ := ipChecksum_folds ws
  obtain ⟨-, hdvd⟩ := hfolds.add_complement hle (by omega)
  rw [hvalue]
  omega

theorem add_ipChecksum_pos (ws : List (BitVec 16)) : 0 < wordSum ws + (ipChecksum ws).toNat := by
  obtain ⟨m, hle, hfolds, hvalue⟩ := ipChecksum_folds ws
  obtain ⟨hpos, -⟩ := hfolds.add_complement hle (by omega)
  rw [hvalue]
  omega

/-- 65537 words do not carry out of 32 bits. -/
theorem wordSum_lt {ws : List (BitVec 16)} (h : ws.length ≤ 65537) : wordSum ws < 2 ^ 32 := by
  have hle := wordSum_le ws
  omega

theorem ipChecksum_eq_zero_iff {ws : List (BitVec 16)} (h : wordSum ws < 2 ^ 32) :
    ipChecksum ws = 0 ↔ 0 < wordSum ws ∧ 65535 ∣ wordSum ws := by
  obtain ⟨m, hle, hfolds, hvalue⟩ := ipChecksum_folds ws
  rw [Nat.mod_eq_of_lt h] at hfolds
  have htop := hfolds.eq_top_iff hle (by omega)
  rw [← htop, BitVec.toNat_eq, hvalue]
  have hzero : (0 : BitVec 16).toNat = 0 := rfl
  omega

/-- Two additions of the carries are as good as adding each one back in at once. -/
theorem ipChecksum_eq_not_onesSum {ws : List (BitVec 16)} (h : ws.length ≤ 65537) :
    ipChecksum ws = ~~~onesSum ws := by
  obtain ⟨m, hle, hfolds, hvalue⟩ := ipChecksum_folds ws
  rw [Nat.mod_eq_of_lt (wordSum_lt h)] at hfolds
  have hlt := (onesSum ws).isLt
  have hsame : m = (onesSum ws).toNat := hfolds.unique (onesSum_folds ws) hle (by omega)
  apply BitVec.eq_of_toNat_eq
  rw [hvalue, hsame, BitVec.toNat_not]

theorem ipChecksum_store {before rest : List (BitVec 16)} (h : (before ++ 0 :: rest).length ≤ 65537) :
    ipChecksum (before ++ ipChecksum (before ++ 0 :: rest) :: rest) = 0 := by
  have hsum : wordSum (before ++ ipChecksum (before ++ 0 :: rest) :: rest) =
      wordSum (before ++ 0 :: rest) + (ipChecksum (before ++ 0 :: rest)).toNat := by
    have hzero : (0 : BitVec 16).toNat = 0 := rfl
    rw [wordSum_append, wordSum_cons, wordSum_append, wordSum_cons, hzero]
    omega
  have hstored : (before ++ ipChecksum (before ++ 0 :: rest) :: rest).length ≤ 65537 := by
    rwa [List.length_append, List.length_cons] at h ⊢
  have hdvd := dvd_add_ipChecksum_iff (before ++ 0 :: rest) 0
  rw [Nat.div_eq_of_lt (wordSum_lt h)] at hdvd
  rw [ipChecksum_eq_zero_iff (wordSum_lt hstored), hsum]
  exact ⟨add_ipChecksum_pos _, hdvd.mpr (dvd_zero _)⟩

/-! ## Messages -/

theorem verifies_iff (p : List Byte) :
    Verifies p ↔ 0 < bytesSum (padEven p) ∧ 65535 ∣ bytesSum (padEven p) :=
  onesSum_eq_allOnes_iff (w := 16) (by decide) (netWords (padEven p))

/-- A word of a message that was zero. -/
theorem bytesSum_padEven_store {a : List Byte} (ha : a.length % 2 = 0) (v : BitVec 16)
    (b : List Byte) : bytesSum (padEven (a ++ (be16Bytes v ++ b))) =
      bytesSum (padEven (a ++ (be16Bytes 0 ++ b))) + v.toNat := by
  have hpad : ∀ u : BitVec 16, padEven (a ++ (be16Bytes u ++ b)) =
      a ++ (be16Bytes u ++ padEven b) := by
    intro u
    rw [padEven_append ha, padEven_append (by rw [be16Bytes_length])]
  have hzero : (0 : BitVec 16).toNat = 0 := rfl
  rw [hpad, hpad, bytesSum_append ha, bytesSum_append ha, bytesSum_be16Bytes, bytesSum_be16Bytes,
    hzero]
  omega

/-- The pseudo header has an even number of bytes, and its sum does not depend on the order of the
addresses. -/
theorem exists_pseudoHeader {src dst : AnyAddr} (same : src.af = dst.af)
    (ip : dst.af = .ipv4 ∨ dst.af = .ipv6) (tcp : Bool) {len : ℕ} (hlen : len < 65536) :
    ∃ header, pseudoHeader src dst tcp len = some header ∧ header.length % 2 = 0 ∧
      header.length ≤ 40 ∧
      bytesSum header = bytesSum src.addr + bytesSum dst.addr + (if tcp then 6 else 17) + len := by
  have hsrc := src.addr_size
  have hdst := dst.addr_size
  rw [same] at hsrc
  have hlen16 : bytesSum (be16Bytes (BitVec.ofNat 16 len)) = len := by
    have hsum := bytesSum_be16Bytes (BitVec.ofNat 16 len) []
    rw [List.append_nil] at hsum
    rw [hsum, toNat_ofNat_of_lt hlen]
    rfl
  have hprotocol : bytesSum [0, if tcp then (0x06 : Byte) else 0x11] = if tcp then 6 else 17 := by
    cases tcp <;> decide
  obtain haf | haf := ip
  · rw [haf, AddrFamily.size] at hsrc hdst
    refine ⟨_, by rw [pseudoHeader, haf], ?_, ?_, ?_⟩
    · simp [hsrc, hdst]
    · simp [hsrc, hdst]
    · rw [bytesSum_append (by simp [hsrc, hdst]), bytesSum_append (by simp [hsrc, hdst]),
        bytesSum_append (by rw [hsrc]), hprotocol, hlen16]
  · rw [haf, AddrFamily.size] at hsrc hdst
    refine ⟨_, by rw [pseudoHeader, haf], ?_, ?_, ?_⟩
    · simp [hsrc, hdst]
    · simp [hsrc, hdst]
    · have hlast : bytesSum [0, 0, 0, if tcp then (0x06 : Byte) else 0x11] =
          if tcp then 6 else 17 := by
        cases tcp <;> decide
      rw [List.append_assoc, bytesSum_append (by simp [hsrc, hdst]), bytesSum_append (by rw [hsrc]),
        bytesSum_be32Bytes, toNat_ofNat_of_lt (by omega), hlast]
      omega

/-- A checksum that was computed over another header with the same sum. -/
theorem verifies_store {header header' a : List Byte} (heven : header.length % 2 = 0)
    (heven' : header'.length % 2 = 0) (hsame : bytesSum header' = bytesSum header)
    (ha : a.length % 2 = 0) (b : List Byte) {v : BitVec 16}
    (hv : v = ipChecksum (netWords (header' ++ padEven (a ++ (be16Bytes 0 ++ b)))))
    (hlen : header'.length + (padEven (a ++ (be16Bytes 0 ++ b))).length ≤ 131074) :
    Verifies (header ++ (a ++ (be16Bytes v ++ b))) := by
  have hwords : wordSum (netWords (header' ++ padEven (a ++ (be16Bytes 0 ++ b)))) =
      bytesSum header + bytesSum (padEven (a ++ (be16Bytes 0 ++ b))) := by
    rw [← bytesSum, bytesSum_append heven', hsame]
  have hlt : wordSum (netWords (header' ++ padEven (a ++ (be16Bytes 0 ++ b)))) < 2 ^ 32 := by
    apply wordSum_lt
    rw [netWords_length, List.length_append]
    omega
  have hsum : bytesSum (padEven (header ++ (a ++ (be16Bytes v ++ b)))) =
      wordSum (netWords (header' ++ padEven (a ++ (be16Bytes 0 ++ b)))) + v.toNat := by
    rw [padEven_append heven, bytesSum_append heven, bytesSum_padEven_store ha, hwords]
    omega
  have hdvd := dvd_add_ipChecksum_iff (netWords (header' ++ padEven (a ++ (be16Bytes 0 ++ b)))) 0
  rw [Nat.div_eq_of_lt hlt] at hdvd
  rw [verifies_iff, hsum, hv]
  exact ⟨add_ipChecksum_pos _, hdvd.mpr (dvd_zero _)⟩

end MyIp
