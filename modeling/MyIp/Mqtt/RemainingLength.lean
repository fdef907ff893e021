import MyIp.Foundations.Base128

/-! # The Remaining Length of MQTT packets

Three loops handle this field: `mqtt_client::put_variable_length` writes it,
`mqtt_client::get_variable_length` and the loop at the top of `mqtt_recv_thread` read it.
`readLength` is the rule of the protocol, seven bits a byte with the lowest first, in at most four
bytes.

The encoder writes the base 128 digits of its argument with the lowest first
(`putVariableLength_eq`), as the rule has it (`readLength_marked`); both decoders take the first
group for the highest (`getLength_marked`, `recvLength_eq`). -/

namespace MyIp.Mqtt
set_option autoImplicit false

open Bytes

/-! ## The source -/

/-- The loop of `determine_value_size`; 32 bits take at most 32 turns. -/
def valueSize : ℕ → BitVec 32 → ℕ
  | 0, _ => 0
  | turns + 1, n => if n = 0 then 0 else valueSize turns (n >>> 1) + 1

def determineValueSize (n : BitVec 32) : ℕ := valueSize 32 n

/-- The loop of `put_variable_length`; 32 bits take at most 5 turns. -/
def putGroups : ℕ → ℕ → BitVec 32 → List Byte
  | 0, _, _ => []
  | turns + 1, bits, v =>
    let cur : Byte := (v &&& 127).setWidth 8
    if bits = 0 then []
    else if bits > 7 then (cur ||| 128) :: putGroups turns (bits - 7) (v >>> 7)
    else [cur]

/-- `put_variable_length`: the bytes it adds. -/
def putVariableLength (v : BitVec 32) : List Byte := putGroups 5 (determineValueSize v) v

/-- The loop of `get_variable_length`: the length and the bytes not yet read, or nothing if there
are not enough. -/
def getLength (v : BitVec 32) : List Byte → Option (BitVec 32 × List Byte)
  | [] => none
  | byte :: rest =>
    if byte &&& 128 = 0 then some (v <<< 7 ||| byte.setWidth 32, rest)
    else getLength (v <<< 7 ||| (byte &&& 127).setWidth 32) rest

def getVariableLength (bytes : List Byte) : Option (BitVec 32 × List Byte) := getLength 0 bytes

/-- The loop of `mqtt_recv_thread` that reads the remaining length. -/
def recvLength (len : BitVec 32) : List Byte → Option (BitVec 32 × List Byte)
  | [] => none
  | b :: rest =>
    let len := len <<< 7 ||| (b &&& 127).setWidth 32
    if b &&& 128 = 0 then some (len, rest) else recvLength len rest

/-! ## The rule -/

/-- The value of the field, which takes at most so many bytes, and what follows it. -/
def readLength : ℕ → List Byte → Option (ℕ × List Byte)
  | 0, _ => none
  | _ + 1, [] => none
  | n + 1, b :: rest =>
    if b.toNat < 128 then some (b.toNat, rest)
    else (readLength n rest).map fun r => (b.toNat - 128 + 128 * r.1, r.2)

/-- The bytes are one field of 1 to 4 bytes. -/
def IsRemainingLength (bytes : List Byte) : Prop := ∃ v, readLength 4 bytes = some (v, [])

theorem readLength_marked {n : ℕ} {ds : List ℕ} (hne : ds ≠ []) (hlen : ds.length ≤ n)
    (hd : ∀ d ∈ ds, d < 128) (rest : List Byte) :
    readLength n (Base128.marked ds ++ rest) = some (Nat.ofDigits 128 ds, rest) := by
  induction ds generalizing n with
  | nil => exact absurd rfl hne
  | cons d ds ih =>
    have hd0 := hd d List.mem_cons_self
    obtain ⟨n, rfl⟩ : ∃ k, n = k + 1 := Nat.exists_eq_succ_of_ne_zero (by simp at hlen; omega)
    by_cases hnil : ds = []
    · subst hnil
      have hb := Base128.toNat_ofNat_low hd0
      rw [Base128.marked, List.singleton_append, readLength, hb, if_pos hd0]
      simp
    · have hb := Base128.toNat_ofNat_high hd0
      have hrest := ih hnil (Nat.le_of_succ_le_succ hlen)
        fun e he => hd e (List.mem_cons_of_mem _ he)
      rw [Base128.marked_cons d hnil, List.cons_append, readLength, hb, if_neg (by omega), hrest,
        Nat.ofDigits_cons]
      simp

/-! ## The decoders -/

/-- The value of groups with the highest first. -/
def highFirst (acc : ℕ) (ds : List ℕ) : ℕ := ds.foldl (fun a d => a * 128 + d) acc

theorem highFirst_eq (ds : List ℕ) (acc : ℕ) :
    highFirst acc ds = acc * 128 ^ ds.length + Nat.ofDigits 128 ds.reverse := by
  induction ds generalizing acc with
  | nil => simp [highFirst]
  | cons d ds ih =>
    have h := ih (acc * 128 + d)
    rw [highFirst] at h
    rw [highFirst, List.foldl_cons, h, List.reverse_cons, Nat.ofDigits_append,
      Nat.ofDigits_singleton, List.length_reverse, List.length_cons, pow_succ]
    ring

theorem getLength_marked {ds : List ℕ} (hne : ds ≠ []) (hd : ∀ d ∈ ds, d < 128) (acc : ℕ)
    (rest : List Byte) :
    getLength (BitVec.ofNat 32 acc) (Base128.marked ds ++ rest) =
      some (BitVec.ofNat 32 (highFirst acc ds), rest) := by
  induction ds generalizing acc with
  | nil => exact absurd rfl hne
  | cons d ds ih =>
    have hd0 := hd d List.mem_cons_self
    by_cases hnil : ds = []
    · subst hnil
      have hb := Base128.toNat_ofNat_low hd0
      have hlow : (BitVec.ofNat 8 d).toNat < 128 := by omega
      rw [Base128.marked, List.singleton_append, getLength,
        if_pos ((Base128.and_128_eq_zero_iff _).mpr hlow), Base128.shift_or_low hlow, hb]
      rfl
    · have hb := Base128.toNat_ofNat_high hd0
      have hhigh : ¬(BitVec.ofNat 8 (128 + d)).toNat < 128 := by omega
      rw [Base128.marked_cons d hnil, List.cons_append, getLength,
        if_neg (mt (Base128.and_128_eq_zero_iff _).mp hhigh), Base128.shift_or_high hhigh, hb,
        Nat.add_sub_cancel_left, ih hnil (fun e he => hd e (List.mem_cons_of_mem _ he))]
      rfl

/-- The two decoders are the same function. -/
theorem recvLength_eq (len : BitVec 32) (bytes : List Byte) :
    recvLength len bytes = getLength len bytes := by
  induction bytes generalizing len with
  | nil => rfl
  | cons b rest ih =>
    rw [recvLength, getLength]
    split
    · rename_i hb
      rw [Base128.and_127_of_lt ((Base128.and_128_eq_zero_iff b).mp hb)]
    · exact ih _

/-! ## The encoder -/

theorem valueSize_le_iff {turns : ℕ} {n : BitVec 32} (h : n.toNat < 2 ^ turns) (k : ℕ) :
    valueSize turns n ≤ k ↔ n.toNat < 2 ^ k := by
  induction turns generalizing n k with
  | zero =>
    have hn : n.toNat = 0 := by simpa using h
    rw [valueSize, hn]
    exact iff_of_true (Nat.zero_le k) (by positivity)
  | succ turns ih =>
    rw [valueSize]
    by_cases hn : n = 0
    · subst hn
      rw [if_pos rfl]
      exact iff_of_true (Nat.zero_le k) (by simp)
    · have hpos : n.toNat ≠ 0 := fun h0 => hn (BitVec.eq_of_toNat_eq h0)
      have hhalf : (n >>> 1).toNat = n.toNat / 2 := by
        rw [BitVec.toNat_ushiftRight, Nat.shiftRight_eq_div_pow, pow_one]
      rw [if_neg hn]
      cases k with
      | zero => simp [hpos]
      | succ k =>
        rw [Nat.add_le_add_iff_right, ih (by rw [hhalf]; omega) k, hhalf, pow_succ]
        omega

theorem low_group (v : BitVec 32) : (v &&& 127).setWidth 8 = BitVec.ofNat 8 (v.toNat % 128) := by
  have h127 : (127 : BitVec 32).toNat = 2 ^ 7 - 1 := rfl
  rw [← BitVec.ofNat_toNat, BitVec.toNat_and, h127, Nat.and_two_pow_sub_one_eq_mod]

theorem high_group {d : ℕ} (hd : d < 128) :
    BitVec.ofNat 8 d ||| 128 = BitVec.ofNat 8 (128 + d) := by
  apply BitVec.eq_of_toNat_eq
  have h128 : (128 : Byte).toNat = 2 ^ 7 * 1 := rfl
  rw [BitVec.toNat_or, Base128.toNat_ofNat_low hd, Base128.toNat_ofNat_high hd, h128, Nat.or_comm,
    ← Nat.two_pow_add_eq_or_of_lt hd]

/-- `bits` is the number of bits of `v` throughout. -/
theorem putGroups_eq {turns bits : ℕ} {v : BitVec 32} (hbits : ∀ k, bits ≤ k ↔ v.toNat < 2 ^ k)
    (hv : v.toNat < 128 ^ turns) :
    putGroups turns bits v = Base128.marked (Nat.digits 128 v.toNat) := by
  induction turns generalizing bits v with
  | zero =>
    have h0 : v.toNat = 0 := by simpa using hv
    rw [putGroups, h0, Nat.digits_zero]
    rfl
  | succ turns ih =>
    have hzero := hbits 0
    have hseven := hbits 7
    rw [putGroups]
    by_cases hb : bits = 0
    · have h0 : v.toNat = 0 := by
        have := hzero.mp (by omega)
        omega
      rw [if_pos hb, h0, Nat.digits_zero]
      rfl
    · have hpos : 0 < v.toNat := by
        by_contra h
        exact hb (Nat.le_zero.mp (hzero.mpr (by omega)))
      have hshift : (v >>> 7).toNat = v.toNat / 128 := by
        rw [BitVec.toNat_ushiftRight, Nat.shiftRight_eq_div_pow]
      rw [if_neg hb, low_group, Nat.digits_def' (by decide) hpos]
      by_cases hmore : bits > 7
      · have hbig : 128 ≤ v.toNat := by
          by_contra h
          exact absurd (hseven.mpr (by omega)) (by omega)
        have hne : Nat.digits 128 (v.toNat / 128) ≠ [] := by
          rw [Nat.digits_ne_nil_iff_ne_zero]
          omega
        have hrest : putGroups turns (bits - 7) (v >>> 7) =
            Base128.marked (Nat.digits 128 (v >>> 7).toNat) := by
          refine ih (fun k => ?_) ?_
          · have hk := hbits (k + 7)
            rw [pow_add] at hk
            rw [hshift]
            omega
          · rw [hshift]
            rw [pow_succ] at hv
            omega
        rw [if_pos hmore, high_group (Nat.mod_lt _ (by decide)), hrest, hshift,
          Base128.marked_cons _ hne]
      · have hsmall : v.toNat < 2 ^ 7 := hseven.mp (by omega)
        have hquot : v.toNat / 128 = 0 := by omega
        rw [if_neg hmore, hquot, Nat.digits_zero]
        rfl

theorem putVariableLength_eq (v : BitVec 32) :
    putVariableLength v = Base128.marked (Nat.digits 128 v.toNat) := by
  have hlt := v.isLt
  exact putGroups_eq (fun k => valueSize_le_iff hlt k) (by norm_num; omega)

/-! ## All three together -/

theorem digits_lt (n : ℕ) : ∀ d ∈ Nat.digits 128 n, d < 128 :=
  fun _ hd => Nat.digits_lt_base (by decide) hd

theorem readLength_put {v : BitVec 32} (hpos : v ≠ 0) (hv : v.toNat < 2 ^ 28) (rest : List Byte) :
    readLength 4 (putVariableLength v ++ rest) = some (v.toNat, rest) := by
  have hne : Nat.digits 128 v.toNat ≠ [] :=
    Nat.digits_ne_nil_iff_ne_zero.mpr fun h0 => hpos (BitVec.eq_of_toNat_eq h0)
  have hlen : (Nat.digits 128 v.toNat).length ≤ 4 :=
    (Nat.digits_length_le_iff (by decide) _).mpr (by norm_num; omega)
  rw [putVariableLength_eq, readLength_marked hne hlen (digits_lt _), Nat.ofDigits_digits]

/-- The decoders read the digits in the wrong order. -/
theorem getVariableLength_put {v : BitVec 32} (hpos : v ≠ 0) (rest : List Byte) :
    getVariableLength (putVariableLength v ++ rest) =
      some (BitVec.ofNat 32 (Nat.ofDigits 128 (Nat.digits 128 v.toNat).reverse), rest) := by
  have hne : Nat.digits 128 v.toNat ≠ [] :=
    Nat.digits_ne_nil_iff_ne_zero.mpr fun h0 => hpos (BitVec.eq_of_toNat_eq h0)
  have h := getLength_marked hne (digits_lt _) 0 rest
  rw [highFirst_eq, Nat.zero_mul, Nat.zero_add] at h
  rw [putVariableLength_eq]
  exact h

theorem ofDigits_reverse_eq_iff {v : BitVec 32} (hv : v.toNat < 2 ^ 28) :
    BitVec.ofNat 32 (Nat.ofDigits 128 (Nat.digits 128 v.toNat).reverse) = v ↔
      (Nat.digits 128 v.toNat).reverse = Nat.digits 128 v.toNat := by
  have hlen : (Nat.digits 128 v.toNat).length ≤ 4 :=
    (Nat.digits_length_le_iff (by decide) _).mpr (by norm_num; omega)
  have hrev : ∀ d ∈ (Nat.digits 128 v.toNat).reverse, d < 128 :=
    fun d hd => digits_lt _ d (List.mem_reverse.mp hd)
  have hlt : Nat.ofDigits 128 (Nat.digits 128 v.toNat).reverse < 2 ^ 32 := by
    have hbound := Nat.ofDigits_lt_base_pow_length (b := 128) (by decide) hrev
    rw [List.length_reverse] at hbound
    have hpow : 128 ^ (Nat.digits 128 v.toNat).length ≤ 128 ^ 4 :=
      Nat.pow_le_pow_right (by decide) hlen
    exact hbound.trans_le (hpow.trans (by norm_num))
  constructor
  · intro h
    have hval := congrArg BitVec.toNat h
    rw [BitVec.toNat_ofNat, Nat.mod_eq_of_lt hlt] at hval
    refine Nat.ofDigits_inj_of_len_eq (b := 128) (by decide) (List.length_reverse) hrev
      (digits_lt _) ?_
    rw [hval, Nat.ofDigits_digits]
  · intro h
    rw [h, Nat.ofDigits_digits, BitVec.ofNat_toNat]
    exact BitVec.setWidth_eq v

/-- The field that is written for `n` is valid and both decoders read `n` from it. -/
def CodecsAgree (n : BitVec 32) : Prop :=
  IsRemainingLength (putVariableLength n) ∧
    ∀ rest, getVariableLength (putVariableLength n ++ rest) = some (n, rest) ∧
      recvLength 0 (putVariableLength n ++ rest) = some (n, rest)

/-- The three loops agree exactly on the lengths other than 0 whose base 128 digits read the same in
both directions. -/
theorem remaining_length_codecs_agree_iff (n : BitVec 32) (hn : n.toNat < 2 ^ 28) :
    CodecsAgree n ↔
      n ≠ 0 ∧ (Nat.digits 128 n.toNat).reverse = Nat.digits 128 n.toNat := by
  constructor
  · rintro ⟨⟨v, hvalid⟩, hread⟩
    have hpos : n ≠ 0 := by
      rintro rfl
      cases hvalid
    have h := (hread []).1
    rw [getVariableLength_put hpos, Option.some.injEq, Prod.mk.injEq] at h
    exact ⟨hpos, (ofDigits_reverse_eq_iff hn).mp h.1⟩
  · rintro ⟨hpos, hpal⟩
    have hget : ∀ rest, getVariableLength (putVariableLength n ++ rest) = some (n, rest) := by
      intro rest
      rw [getVariableLength_put hpos, (ofDigits_reverse_eq_iff hn).mpr hpal]
    have hvalid := readLength_put hpos hn []
    rw [List.append_nil] at hvalid
    refine ⟨⟨_, hvalid⟩, fun rest => ⟨hget rest, ?_⟩⟩
    rw [recvLength_eq]
    exact hget rest

theorem remaining_length_codecs_agree_129 : CodecsAgree 129 :=
  (remaining_length_codecs_agree_iff 129 (by decide)).mpr ⟨by decide, by decide⟩

/-- 128 is written as 0x80 0x01, and read as 1. -/
theorem remaining_length_codecs_disagree_128 : ¬CodecsAgree 128 := by
  rintro ⟨-, h⟩
  exact absurd (h []).1 (by decide)

end MyIp.Mqtt
