import MyIp.Foundations.Base128
import MyIp.Snmp.Data

/-! # Object identifiers as texts and as bytes

`snmp::get_OID` turns the body of an object identifier into a text, the constructor of `snmp_oid`
turns a text into such a body. Between them every arc goes through a 32 bit accumulator that is
printed with `%d` and read back with `atoll`: `reread` is what becomes of it.

`getOidFrom_text`, `getOid_eq` and `oidBytes_13`, `oidBytes_dots` say what the two compute in terms
of arcs, for all bodies and all texts that `%d` can give. From them follows the round trip of texts
(`oid_text_round_trip`). -/

namespace MyIp.Snmp
set_option autoImplicit false

open Bytes CText Net

/-- The loop of `get_OID` at the index `i`. -/
def getOidFrom : ℕ → BitVec 32 → Text → List Byte → BitVec 32 × Text
  | _, v, oidOut, [] => (v, oidOut)
  | i, v, oidOut, b :: bs =>
    if b.toNat < 128 then
      let v := (v <<< 7) ||| b.setWidth 32
      if i = 0 ∧ v = 43 then getOidFrom (i + 1) 0 (oidOut ++ ['1', '.', '3']) bs
      else getOidFrom (i + 1) 0 (oidOut ++ '.' :: formatD v) bs
    else getOidFrom (i + 1) ((v <<< 7) ||| (b &&& 127).setWidth 32) oidOut bs

/-- `get_OID`: whether the last arc was complete, and the text. -/
def getOid (p : List Byte) : Bool × Text :=
  let (v, oidOut) := getOidFrom 0 0 [] p
  (v = 0, oidOut)

/-- The bytes that `get_payload` returns: as many as the length it gives. -/
def payloadBytes (e : Elem) : List Byte := (getPayload e).1.take (getPayload e).2.toNat

theorem payloadBytes_eq {e : Elem} (h : size e ≤ 255) : payloadBytes e = ber e := by
  have hs : (BitVec.ofNat 8 (size e)).toNat = size e := toNat_ofNat_of_lt (by omega)
  rw [payloadBytes, getPayload_eq e h]
  simp only [hs]
  exact List.take_of_length_le (le_of_eq (ber_length e))

/-! ## From bytes to text -/

/-- The text that an arc is printed as. -/
def dotArc (a : ℕ) : Text := '.' :: formatD (BitVec.ofNat 32 a)

/-- The text of any bytes: their complete arcs, unless the first byte stands for `1.3`. -/
theorem getOidFrom_text {i : ℕ} (acc : ℕ) (out : Text) {bs : List Byte}
    (hi : i = 0 → acc = 0 ∧ bs.head? ≠ some 43) :
    (getOidFrom i (BitVec.ofNat 32 acc) out bs).2 =
      out ++ (Base128.arcs acc bs).flatMap dotArc := by
  induction bs generalizing i acc out with
  | nil => simp [getOidFrom, Base128.arcs]
  | cons b bs ih =>
    rw [getOidFrom, Base128.arcs]
    by_cases hb : b.toNat < 128
    · have hnot : ¬ (i = 0 ∧ BitVec.ofNat 32 (acc * 128 + b.toNat) = 43) := by
        rintro ⟨hzero, hv⟩
        obtain ⟨rfl, hhead⟩ := hi hzero
        have hv' := congrArg BitVec.toNat hv
        rw [BitVec.toNat_ofNat, show (43 : BitVec 32).toNat = 43 from rfl] at hv'
        refine hhead (congrArg some (BitVec.eq_of_toNat_eq ?_))
        change b.toNat = 43
        omega
      simp only [Base128.shift_or_low hb, if_neg hnot, if_pos hb]
      have h := ih (i := i + 1) 0 (out ++ dotArc (acc * 128 + b.toNat)) (by omega)
      rw [List.flatMap_cons, ← List.append_assoc]
      exact h
    · simp only [Base128.shift_or_high hb, if_neg hb]
      exact ih _ out (by omega)

/-- Well-formed bytes end with a complete arc. -/
theorem getOidFrom_complete {i : ℕ} (acc : ℕ) (out : Text) {bs : List Byte}
    (hw : Base128.WellFormedFrom (decide (acc = 0)) bs) :
    (getOidFrom i (BitVec.ofNat 32 acc) out bs).1 = 0 := by
  induction bs generalizing i acc out with
  | nil =>
    have hacc : acc = 0 := of_decide_eq_true hw
    simp [getOidFrom, hacc]
  | cons b bs ih =>
    rw [Base128.WellFormedFrom] at hw
    rw [getOidFrom]
    by_cases hb : b.toNat < 128
    · rw [if_pos hb] at hw
      have hw' : Base128.WellFormedFrom (decide (0 = 0)) bs := hw
      rw [if_pos hb]
      dsimp only
      split
      · exact ih 0 _ hw'
      · exact ih 0 _ hw'
    · rw [if_neg hb] at hw
      have hlt := b.isLt
      have hpos : acc * 128 + (b.toNat - 128) ≠ 0 := by
        by_cases hacc : acc = 0
        · have := hw.1 (decide_eq_true hacc)
          omega
        · omega
      rw [if_neg hb, Base128.shift_or_high hb]
      exact ih _ out (by rw [decide_eq_false hpos]; exact hw.2)

theorem getOid_text {bs : List Byte} (h43 : bs.head? ≠ some 43) :
    (getOid bs).2 = (Base128.arcs 0 bs).flatMap dotArc :=
  getOidFrom_text (i := 0) 0 [] fun _ => ⟨rfl, h43⟩

theorem getOid_text_43 (bs : List Byte) :
    (getOid (43 :: bs)).2 = ['1', '.', '3'] ++ (Base128.arcs 0 bs).flatMap dotArc :=
  getOidFrom_text (i := 1) 0 ['1', '.', '3'] (by omega)

theorem getOid_eq {bs : List Byte} (hw : Base128.WellFormed bs) (h43 : bs.head? ≠ some 43) :
    getOid bs = (true, (Base128.arcs 0 bs).flatMap dotArc) := by
  have hzero : (getOidFrom 0 0 [] bs).1 = 0 := getOidFrom_complete 0 [] hw
  exact Prod.ext (decide_eq_true hzero) (getOid_text h43)

theorem getOid_cons_43 {bs : List Byte} (hw : Base128.WellFormed bs) :
    getOid (43 :: bs) = (true, ['1', '.', '3'] ++ (Base128.arcs 0 bs).flatMap dotArc) := by
  have hzero : (getOidFrom 1 0 ['1', '.', '3'] bs).1 = 0 := getOidFrom_complete 0 _ hw
  exact Prod.ext (decide_eq_true hzero) (getOid_text_43 bs)

/-! ## From text to bytes -/

theorem lowGroups_eq {room : ℕ} {v : BitVec 64} (h : v.toNat < 128 ^ room) :
    lowGroups room v = (Nat.digits 128 v.toNat).map (BitVec.ofNat 8) := by
  induction room generalizing v with
  | zero =>
    have hv : v.toNat = 0 := by simpa using h
    simp [lowGroups, hv]
  | succ room ih =>
    rw [lowGroups]
    by_cases hv : v = 0
    · subst hv
      rfl
    · have hpos : 0 < v.toNat := Nat.pos_of_ne_zero fun h0 => hv (BitVec.eq_of_toNat_eq h0)
      have hlow : (v &&& 127).setWidth 8 = BitVec.ofNat 8 (v.toNat % 128) := by
        have h127 : (127 : BitVec 64).toNat = 2 ^ 7 - 1 := rfl
        rw [← BitVec.ofNat_toNat, BitVec.toNat_and, h127, Nat.and_two_pow_sub_one_eq_mod]
      have hshift : (v >>> 7).toNat = v.toNat / 128 := by
        rw [BitVec.toNat_ushiftRight, Nat.shiftRight_eq_div_pow]
      have hrest : v.toNat / 128 < 128 ^ room :=
        (Nat.div_lt_iff_lt_mul (by decide)).mpr (by rwa [pow_succ] at h)
      rw [if_neg hv, hlow, ih (by rw [hshift]; exact hrest), hshift,
        Nat.digits_def' (by decide) hpos, List.map_cons]

theorem flushTemp_temp (v : BitVec 64) : flushTemp (temp v) = Base128.encode v.toNat := by
  by_cases hv : v = 0
  · subst hv
    rfl
  · have hpos : 0 < v.toNat := Nat.pos_of_ne_zero fun h0 => hv (BitVec.eq_of_toNat_eq h0)
    have hlt : v.toNat < 128 ^ 10 := lt_of_lt_of_le v.isLt (by norm_num)
    have hhigh : (Nat.digits 128 (v.toNat / 128)).map ((· ||| 128) ∘ BitVec.ofNat 8) =
        (Nat.digits 128 (v.toNat / 128)).map fun d => BitVec.ofNat 8 (128 + d) := by
      refine List.map_congr_left fun d hd => ?_
      have hd' : d < 2 ^ 7 := Nat.digits_lt_base (by decide) hd
      apply BitVec.eq_of_toNat_eq
      have h128 : (128 : Byte).toNat = 2 ^ 7 * 1 := rfl
      rw [Function.comp_apply, BitVec.toNat_or, BitVec.toNat_ofNat, BitVec.toNat_ofNat, h128,
        Nat.or_comm, show d % 2 ^ 8 = d by omega, ← Nat.two_pow_add_eq_or_of_lt hd']
      omega
    rw [temp, if_neg hv, lowGroups_eq hlt, Nat.digits_def' (by decide) hpos, List.map_cons,
      flushTemp, List.map_map, hhigh]
    rfl

theorem afterDots_append {t : Text} (h : '.' ∉ t) (rest : Text) :
    afterDots (t ++ rest) = afterDots rest := by
  induction t with
  | nil => rfl
  | cons c t ih =>
    have hc : c ≠ '.' := by
      rintro rfl
      exact h List.mem_cons_self
    rw [List.cons_append, afterDots, if_neg hc, ih fun hm => h (List.mem_cons_of_mem _ hm)]

/-- One turn of the loop over `work`. -/
theorem oidGroups_dot {t : Text} (h : '.' ∉ t) (rest : Text) :
    oidGroups (t ++ '.' :: rest) =
      Base128.encode (atoll (t ++ '.' :: rest)).toNat ++ oidGroups rest := by
  have hne : (t ++ '.' :: rest).isEmpty = false := by simp
  rw [oidGroups, afterDots_append h, afterDots, if_pos rfl, List.filter_cons, hne,
    if_pos (by rfl), List.flatMap_cons, flushTemp_temp]
  rfl

theorem oidGroups_last {t : Text} (hne : t ≠ []) (h : '.' ∉ t) :
    oidGroups t = Base128.encode (atoll t).toNat := by
  have hdots : afterDots t = [] := by
    have := afterDots_append h []
    rwa [List.append_nil] at this
  simp [oidGroups, hdots, hne, flushTemp_temp]

theorem formatD_ne_nil (v : BitVec 32) : formatD v ≠ [] := by
  rw [formatD]
  split
  · simp
  · exact decimal_ne_nil _

/-- What an arc is after it was printed and read again. -/
def reread (a : ℕ) : ℕ := ((BitVec.ofNat 32 a).signExtend 64).toNat

def printArcs (as : List ℕ) : Text := dotted (as.map fun a => formatD (BitVec.ofNat 32 a))

theorem oidGroups_printArcs {as : List ℕ} (h : as ≠ []) :
    oidGroups (printArcs as) = (as.map reread).flatMap Base128.encode := by
  induction as with
  | nil => exact absurd rfl h
  | cons a as ih =>
    cases as with
    | nil =>
      have hval := atoll_formatD (BitVec.ofNat 32 a) stops_nil
      rw [List.append_nil] at hval
      have hlast := oidGroups_last (formatD_ne_nil _) (dot_not_mem_formatD (BitVec.ofNat 32 a))
      rw [hval] at hlast
      simpa [printArcs, dotted, reread] using hlast
    | cons a' as =>
      have hturn := oidGroups_dot (dot_not_mem_formatD (BitVec.ofNat 32 a))
        (printArcs (a' :: as))
      rw [atoll_formatD _ (stops_dot _), ih (by simp)] at hturn
      simpa [printArcs, dotted, reread] using hturn

theorem flatMap_dotArc {as : List ℕ} (h : as ≠ []) :
    as.flatMap dotArc = '.' :: printArcs as := by
  induction as with
  | nil => exact absurd rfl h
  | cons a as ih =>
    cases as with
    | nil => simp [dotArc, printArcs, dotted]
    | cons a' as =>
      rw [List.flatMap_cons, ih (by simp)]
      simp [dotArc, printArcs, dotted]

theorem oidBytes_13 {as : List ℕ} (h : as ≠ []) :
    oidBytes (['1', '.', '3'] ++ as.flatMap dotArc) =
      43 :: (as.map reread).flatMap Base128.encode := by
  rw [flatMap_dotArc h, ← oidGroups_printArcs h]
  rfl

theorem oidBytes_dots {as : List ℕ} (h : as ≠ []) :
    oidBytes (as.flatMap dotArc) = (0 :: as.map reread).flatMap Base128.encode := by
  have hdot : ('.' :: printArcs as).take 4 ≠ ['1', '.', '3', '.'] := by simp
  have hturn := oidGroups_dot (t := []) (by simp) (printArcs as)
  have hzero : (atoll ('.' :: printArcs as)).toNat = 0 := by
    rw [atoll, strtoll_dot]
    rfl
  rw [List.nil_append, hzero, oidGroups_printArcs h] at hturn
  rw [flatMap_dotArc h, oidBytes, if_neg hdot, hturn, List.flatMap_cons]

/-! ## Arcs that survive -/

theorem reread_lt (a : ℕ) : reread a < 2 ^ 64 := BitVec.isLt _

theorem reread_eq (a : ℕ) :
    reread a = if a % 2 ^ 32 < 2 ^ 31 then a % 2 ^ 32 else 2 ^ 64 - 2 ^ 32 + a % 2 ^ 32 := by
  have hval : (reread a : ℤ) = (BitVec.ofNat 32 a).toInt % 2 ^ 64 := by
    rw [reread, BitVec.signExtend, BitVec.toNat_ofInt]
    exact Int.toNat_of_nonneg (Int.emod_nonneg _ (by norm_num))
  rw [BitVec.toInt_eq_toNat_cond, BitVec.toNat_ofNat] at hval
  split at hval <;> split <;> omega

theorem reread_eq_iff (a : ℕ) :
    reread a = a ↔ a < 2 ^ 31 ∨ 2 ^ 64 - 2 ^ 31 ≤ a ∧ a < 2 ^ 64 := by
  rw [reread_eq]
  split <;> omega

/-- Printing and reading again at most doubles the length of an arc. -/
theorem encode_reread_length (a : ℕ) :
    (Base128.encode (reread a)).length ≤ 2 * (Base128.encode a).length := by
  by_cases ha : a < 2 ^ 31
  · rw [(reread_eq_iff a).mpr (Or.inl ha)]
    omega
  · have hlong : ¬ (Base128.encode a).length ≤ 3 + 1 := by
      rw [Base128.encode_length_le_iff]
      norm_num
      omega
    have hshort : (Base128.encode (reread a)).length ≤ 9 + 1 :=
      Base128.encode_length_le_iff.mpr (lt_of_lt_of_le (reread_lt a) (by norm_num))
    omega

theorem flatMap_reread_length (as : List ℕ) :
    ((as.map reread).flatMap Base128.encode).length ≤ 2 * (as.flatMap Base128.encode).length := by
  induction as with
  | nil => exact Nat.zero_le _
  | cons a as ih =>
    have ha := encode_reread_length a
    simp only [List.map_cons, List.flatMap_cons, List.length_append]
    omega

/-! ## Round trips -/

theorem map_reread_eq {as : List ℕ} (h : ∀ a ∈ as, a < 2 ^ 31) : as.map reread = as := by
  conv_rhs => rw [← List.map_id as]
  exact List.map_congr_left fun a ha => (reread_eq_iff a).mpr (Or.inl (h a ha))

theorem render_13 {as : List ℕ} (hne : as ≠ []) (h : ∀ a ∈ as, a < 2 ^ 31) :
    render (1 :: 3 :: as) = ['1', '.', '3'] ++ as.flatMap dotArc := by
  have hprint : as.map decimal = as.map fun a => formatD (BitVec.ofNat 32 a) :=
    List.map_congr_left fun a ha => (formatD_ofNat (h a ha)).symm
  obtain ⟨a, rest, rfl⟩ := List.exists_cons_of_ne_nil hne
  rw [flatMap_dotArc hne, printArcs, ← hprint]
  rfl

/-- A text `1.3.a₁…aₙ` with arcs below `2 ^ 31` that is encoded in at most 253 bytes is read back
from them. -/
theorem oid_text_round_trip (as : List ℕ) (hne : as ≠ []) (harcs : ∀ a ∈ as, a < 2 ^ 31)
    (hlen : (oidBytes (render (1 :: 3 :: as))).length ≤ 253) :
    getOid ((payloadBytes (snmpOid (render (1 :: 3 :: as)))).drop 2) =
      (true, render (1 :: 3 :: as)) := by
  have hsize : size (snmpOid (render (1 :: 3 :: as))) ≤ 255 := by
    rw [snmpOid, size]
    omega
  have hbody : (payloadBytes (snmpOid (render (1 :: 3 :: as)))).drop 2 =
      43 :: as.flatMap Base128.encode := by
    rw [payloadBytes_eq hsize, ber, render_13 hne harcs, snmpOid, content, oidBytes_13 hne,
      map_reread_eq harcs]
    rfl
  rw [hbody, getOid_cons_43 (Base128.wellFormed_flatMap_encode as), Base128.arcs_flatMap_encode,
    render_13 hne harcs]

theorem oid_text_round_trip_enterprise :
    getOid ((payloadBytes (snmpOid (render [1, 3, 6, 1, 4, 1, 57850, 0]))).drop 2) =
      (true, render [1, 3, 6, 1, 4, 1, 57850, 0]) :=
  oid_text_round_trip [6, 1, 4, 1, 57850, 0] (by decide) (by decide) (by decide)

end MyIp.Snmp
