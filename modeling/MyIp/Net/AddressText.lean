import MyIp.Ax25.Address
import MyIp.Foundations.Radix
import MyIp.Net.Str

/-! # Addresses as text

`any_addr::to_str` and `parse_address` (`any_addr.cpp`). -/

namespace MyIp.Net
set_option autoImplicit false

open Bytes CText Ax25

/-- `ax25_address::to_str` -/
def ax25Text (a : Ax25Address) : Text :=
  a.address.map (fun b => Char.ofNat b.toNat) ++ '-' :: formatD a.ssid

/-- `get_word` -/
def getWord (a : AnyAddr) (nr : ℕ) : BitVec 16 := be16 (a.addr.getD nr 0) (a.addr.getD (nr + 1) 0)

/-- `any_addr::to_str`, with the sizes of its buffers. -/
def toStr (a : AnyAddr) : Text :=
  match a.af with
  | .ipv4 => snprintf 16 (['.'].intercalate (a.addr.map fun b => formatD (b.setWidth 32)))
  | .mac => snprintf 18 ([':'].intercalate (a.addr.map fun b => numberText 16 2 b.toNat))
  | .ax25 => ax25Text (Ax25Address.ofBytes a.addr)
  | .ipv6 => snprintf 40 ([':'].intercalate ([0, 2, 4, 6, 8, 10, 12, 14].map fun nr =>
      numberText 16 0 (getWord a nr).toNat))

/-- `any_addr(af, src)`; there is no result where `src` has fewer bytes than are copied. -/
def anyAddr (af : AddrFamily) (src : List Byte) : Option AnyAddr :=
  if h : (src.take af.size).length = af.size then some ⟨af, src.take af.size, h⟩ else none

/-- `parse_address`; there is no result where the program ends. -/
def parseAddress (str : Text) (expSize : ℕ) (seperator : Text) (base : ℕ) : Option AnyAddr :=
  let parts := splitBy str seperator
  if parts.length ≠ expSize ∧ ¬(expSize = 16 ∧ parts.length = 8) then none
  else if expSize = 16 then
    anyAddr .ipv6 ((parts.take 8).flatMap fun p => be16Bytes (BitVec.ofInt 16 (strtol base p)))
  else
    anyAddr (if expSize = 4 then .ipv4 else .mac)
      (parts.map fun p => BitVec.ofInt 8 (strtol base p))

/-- The separator of the numbers of an address, and their base. -/
def separator : AddrFamily → Text
  | .ipv4 => ['.']
  | _ => [':']

def base : AddrFamily → ℕ
  | .ipv4 => 10
  | _ => 16

/-! ## Numbers between separators -/

theorem length_intercalate_le {c : Char} {k : ℕ} {ts : List Text} (h : ∀ t ∈ ts, t.length ≤ k) :
    ([c].intercalate ts).length ≤ ts.length * (k + 1) - 1 := by
  induction ts with
  | nil => exact Nat.zero_le _
  | cons t ts ih =>
    have ht := h t List.mem_cons_self
    cases ts with
    | nil =>
      rw [List.intercalate_singleton, List.length_singleton]
      omega
    | cons t' ts =>
      have hrest := ih fun s hs => h s (List.mem_cons_of_mem _ hs)
      rw [List.intercalate_cons_cons]
      simp only [List.length_append, List.length_cons, List.length_nil, Nat.add_mul] at hrest ⊢
      omega

/-- Numbers that were printed with a separator between them, and no more of them than fit, are split
into the same numbers. -/
theorem splitBy_numbers {base width digits size : ℕ} (hbase : 1 < base) (hbase' : base ≤ 16) {c : Char}
    (hc : c ∈ ['.', ':']) (hdigits : 0 < digits) (hwidth : width ≤ digits) {ns : List ℕ}
    (hns : ∀ n ∈ ns, n < base ^ digits) (hsize : ns.length * (digits + 1) - 1 < size) :
    splitBy (snprintf size ([c].intercalate (ns.map (numberText base width)))) [c] =
      ns.map (numberText base width) := by
  have hlen : ([c].intercalate (ns.map (numberText base width))).length < size := by
    have hle := @length_intercalate_le c digits (ns.map (numberText base width)) (by
      intro t ht
      obtain ⟨n, hn, rfl⟩ := List.mem_map.mp ht
      exact numberText_length_le hdigits hwidth (hns n hn))
    rw [List.length_map] at hle
    exact hle.trans_lt hsize
  rw [snprintf_of_lt hlen, splitBy_singleton]
  apply split_intercalate
  intro t ht
  obtain ⟨n, -, rfl⟩ := List.mem_map.mp ht
  refine ⟨numberText_ne_nil _ _ _, notMem_numberText hbase hbase' ?_⟩
  obtain rfl | hc' := List.mem_cons.mp hc
  · simp
  · obtain rfl := List.mem_singleton.mp hc'
    simp

theorem map_strtol {α : Type} {base width : ℕ} (hbase : 1 < base) (hbase' : base ≤ 16) (f : ℤ → α)
    {ns : List ℕ} (hns : ∀ n ∈ ns, n < 2 ^ 63) :
    (ns.map (numberText base width)).map (fun p => f (strtol base p)) = ns.map fun n : ℕ => f (n : ℤ) := by
  rw [List.map_map]
  apply List.map_congr_left
  intro n hn
  exact congrArg f (strtol_numberText hbase hbase' width (hns n hn))

theorem map_ofInt_toNat (bs : List Byte) :
    (bs.map BitVec.toNat).map (fun n : ℕ => BitVec.ofInt 8 (n : ℤ)) = bs := by
  rw [List.map_map]
  convert List.map_id bs using 2
  funext b
  rw [Function.comp_apply, BitVec.ofInt_natCast, BitVec.ofNat_toNat, BitVec.setWidth_eq, id]

theorem anyAddr_addr (a : AnyAddr) : anyAddr a.af a.addr = some a := by
  have htake : a.addr.take a.af.size = a.addr := by
    rw [← a.addr_size, List.take_length]
  rw [anyAddr, dif_pos (by rw [htake, a.addr_size])]
  congr

/-! ## The three families -/

theorem formatD_byte (b : Byte) : formatD (b.setWidth 32) = numberText 10 0 b.toNat := by
  have hb := b.isLt
  have hwide : b.setWidth 32 = BitVec.ofNat 32 b.toNat := by
    apply BitVec.eq_of_toNat_eq
    rw [BitVec.toNat_setWidth, BitVec.toNat_ofNat]
  rw [hwide, formatD_ofNat (by omega), numberText, List.leftpad, Nat.zero_sub]
  rfl

/-- Bytes between separators. -/
theorem parse_bytes {base width digits size : ℕ} (hbase : 1 < base) (hbase' : base ≤ 16) {c : Char}
    (hc : c ∈ ['.', ':']) (hdigits : 0 < digits) (hwidth : width ≤ digits) (hbyte : 256 ≤ base ^ digits)
    {a : AnyAddr} (h16 : a.addr.length ≠ 16)
    (haf : (if a.addr.length = 4 then AddrFamily.ipv4 else .mac) = a.af)
    (hsize : a.addr.length * (digits + 1) - 1 < size) :
    parseAddress (snprintf size ([c].intercalate ((a.addr.map BitVec.toNat).map
      (numberText base width)))) a.addr.length [c] base = some a := by
  have hbytes : ∀ n ∈ a.addr.map BitVec.toNat, n < 256 := by
    intro n hn
    obtain ⟨b, -, rfl⟩ := List.mem_map.mp hn
    exact b.isLt
  have hsplit := splitBy_numbers hbase hbase' hc hdigits hwidth
    (fun n hn => (hbytes n hn).trans_le hbyte) (by rwa [List.length_map])
  rw [parseAddress, hsplit, if_neg (by simp), if_neg h16, haf,
    map_strtol hbase hbase' (BitVec.ofInt 8) fun n hn => (hbytes n hn).trans (by decide),
    map_ofInt_toNat]
  exact anyAddr_addr a

theorem parse_ipv4 {a : AnyAddr} (h : a.af = .ipv4) : parseAddress (toStr a) 4 ['.'] 10 = some a := by
  have hlen : a.addr.length = 4 := by rw [a.addr_size, h, AddrFamily.size]
  have hbytes := @parse_bytes 10 0 3 16 (by decide) (by decide) '.' (by simp) (by decide) (by decide)
    (by decide) a (by omega) (by rw [hlen, h, if_pos rfl]) (by omega)
  have hstr : toStr a = snprintf 16 (['.'].intercalate ((a.addr.map BitVec.toNat).map
      (numberText 10 0))) := by
    rw [toStr, h, List.map_map]
    dsimp only
    congr 2
    apply List.map_congr_left
    exact fun b _ => formatD_byte b
  rw [hstr]
  rwa [hlen] at hbytes

theorem parse_mac {a : AnyAddr} (h : a.af = .mac) : parseAddress (toStr a) 6 [':'] 16 = some a := by
  have hlen : a.addr.length = 6 := by rw [a.addr_size, h, AddrFamily.size]
  have hbytes := @parse_bytes 16 2 2 18 (by decide) (by decide) ':' (by simp) (by decide) (by decide)
    (by decide) a (by omega) (by rw [hlen, h, if_neg (by decide)]) (by omega)
  have hstr : toStr a = snprintf 18 ([':'].intercalate ((a.addr.map BitVec.toNat).map
      (numberText 16 2))) := by
    rw [toStr, h, List.map_map]
    rfl
  rw [hstr]
  rwa [hlen] at hbytes

/-- The words of an address of 16 bytes are its bytes. -/
theorem flatMap_getWord {a : AnyAddr} (h : a.addr.length = 16) :
    ([0, 2, 4, 6, 8, 10, 12, 14].flatMap fun nr => be16Bytes (getWord a nr)) = a.addr := by
  match haddr : a.addr, h with
  | [b₀, b₁, b₂, b₃, b₄, b₅, b₆, b₇, b₈, b₉, b₁₀, b₁₁, b₁₂, b₁₃, b₁₄, b₁₅], _ =>
    simp only [List.flatMap_cons, List.flatMap_nil, getWord, haddr, List.getD_cons_zero,
      List.getD_cons_succ, be16Bytes_be16, List.cons_append, List.nil_append]

theorem parse_ipv6 {a : AnyAddr} (h : a.af = .ipv6) : parseAddress (toStr a) 16 [':'] 16 = some a := by
  have hlen : a.addr.length = 16 := AnyAddr.length_ipv6 h
  have hwords : ∀ n ∈ [0, 2, 4, 6, 8, 10, 12, 14].map fun nr => (getWord a nr).toNat, n < 65536 := by
    intro n hn
    obtain ⟨nr, -, rfl⟩ := List.mem_map.mp hn
    exact (getWord a nr).isLt
  have hstr : toStr a = snprintf 40 ([':'].intercalate (([0, 2, 4, 6, 8, 10, 12, 14].map fun nr =>
      (getWord a nr).toNat).map (numberText 16 0))) := by
    rw [toStr, h, List.map_map]
    rfl
  have hsplit := @splitBy_numbers 16 0 4 40 (by decide) (by decide) ':' (by simp) (by decide)
    (by decide) _ hwords (by simp)
  have hflat : ∀ ps : List Text, (ps.take 8).flatMap (fun p => be16Bytes (BitVec.ofInt 16 (strtol 16 p))) =
      ((ps.take 8).map fun p => BitVec.ofInt 16 (strtol 16 p)).flatMap be16Bytes := by
    intro ps
    rw [List.flatMap_map]
  have hword : ∀ nr, BitVec.ofInt 16 ((getWord a nr).toNat : ℤ) = getWord a nr := by
    intro nr
    rw [BitVec.ofInt_natCast, BitVec.ofNat_toNat, BitVec.setWidth_eq]
  rw [parseAddress, hstr, hsplit, if_neg (by simp), if_pos rfl, hflat, List.take_of_length_le (by simp),
    map_strtol (by decide) (by decide) (BitVec.ofInt 16) fun n hn => (hwords n hn).trans (by decide),
    List.map_map, List.flatMap_map]
  simp only [Function.comp_apply, hword, flatMap_getWord hlen]
  rw [← h]
  exact anyAddr_addr a

/-- What `to_str` prints for an address, `parse_address` reads back: "4 `.` 10" for IPv4, "6 `:` 16" for
MAC and "16 `:` 16" for IPv6. -/
theorem parseAddress_toStr {a : AnyAddr} (h : a.af ≠ .ax25) :
    parseAddress (toStr a) a.af.size (separator a.af) (base a.af) = some a := by
  cases haf : a.af with
  | ipv4 => exact parse_ipv4 haf
  | mac => exact parse_mac haf
  | ax25 => exact absurd haf h
  | ipv6 => exact parse_ipv6 haf

/-- Zeros and single digits among the groups. -/
theorem parseAddress_toStr_ipv4 :
    parseAddress (toStr (.ipv4 10 0 251 7)) 4 ['.'] 10 = some (.ipv4 10 0 251 7) :=
  parseAddress_toStr (a := .ipv4 10 0 251 7) AddrFamily.noConfusion

end MyIp.Net
