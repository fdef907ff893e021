import MyIp.Snmp.Oid

/-! # The stores of the object identifier constructor

The constructor of `snmp_oid` allocates as many bytes as its text has characters and puts the groups
of each arc into an array of ten bytes first. `oidStores` is every byte it stores with its place;
`mem_oidStores_out` says that those behind the allocated pointer are `oidBytes`, one after another,
and `mem_oidStores_temp` that ten bytes are enough for an arc.

What a text has to spare for an arc follows from the number alone, `spare`: it is positive below
`2 ^ 31`, but a larger arc is printed with a minus sign, read back as a number of 64 bits and stored
in ten bytes. `oid_stores_inside_iff` adds this up over the arcs of any body, and
`oid_bytes_round_trip_iff` says when a body comes back unchanged from a constructor that stayed
inside its bytes. -/

namespace MyIp.Snmp
set_option autoImplicit false

open Bytes CText

/-! ## What is stored where -/

theorem shiftRight_lt {v : BitVec 64} (h : ¬ v = 0) : (v >>> 7).toNat < v.toNat := by
  have hpos : v.toNat ≠ 0 := fun h0 => h (BitVec.eq_of_toNat_eq h0)
  rw [BitVec.toNat_ushiftRight, Nat.shiftRight_eq_div_pow]
  omega

/-- `while(v)`: the groups are put into `temp` as long as there are any. -/
def putGroups (v : BitVec 64) : List Byte :=
  if v = 0 then [] else (v &&& 127).setWidth 8 :: putGroups (v >>> 7)
termination_by v.toNat
decreasing_by exact shiftRight_lt ‹_›

/-- What `temp` holds from its start on when it is emptied. -/
def putArc (v : BitVec 64) : List Byte := if v = 0 then [0] else putGroups v

/-- A byte of the array `temp`, or one behind the pointer `v` that `malloc` returned. -/
inductive Place where
  | temp (idx : ℕ)
  | out (idx : ℕ)
  deriving DecidableEq

/-- The turns of the loop over `work`, from the offset `p - v` on. -/
def storeArcs : ℕ → List Text → List (Place × Byte)
  | _, [] => []
  | offset, work :: works =>
    let temp := putArc (atoll work)
    temp.mapIdx (fun i b => (.temp i, b)) ++
      (flushTemp temp).mapIdx (fun i b => (.out (offset + i), b)) ++
      storeArcs (offset + temp.length) works

/-- The values of `work` that the loop comes to. -/
def works (work : Text) : List Text := (work :: afterDots work).filter fun work => !work.isEmpty

/-- All stores of the constructor. -/
def oidStores (oid : Text) : List (Place × Byte) :=
  if oid.take 4 = ['1', '.', '3', '.'] then (.out 0, 43) :: storeArcs 1 (works (oid.drop 4))
  else storeArcs 0 (works oid)

/-- `temp` has `8 * 9 / 7` bytes, `size` is what was allocated. -/
def Place.Inside (size : ℕ) : Place → Prop
  | .temp idx => idx < 8 * 9 / 7
  | .out idx => idx < size

instance (size : ℕ) : (place : Place) → Decidable (place.Inside size)
  | .temp idx => inferInstanceAs (Decidable (idx < 8 * 9 / 7))
  | .out idx => inferInstanceAs (Decidable (idx < size))

/-! ## The places -/

theorem putGroups_eq (v : BitVec 64) : putGroups v = lowGroups 10 v := by
  have hten : ∀ {room : ℕ} {v : BitVec 64}, v.toNat < 128 ^ room →
      putGroups v = lowGroups room v := by
    intro room
    induction room with
    | zero =>
      intro v h
      have hv : v = 0 := BitVec.eq_of_toNat_eq (by simpa using h)
      rw [putGroups, if_pos hv, lowGroups]
    | succ room ih =>
      intro v h
      rw [putGroups, lowGroups]
      split
      · rfl
      · rw [ih]
        rw [BitVec.toNat_ushiftRight, Nat.shiftRight_eq_div_pow]
        exact (Nat.div_lt_iff_lt_mul (by decide)).mpr (by rwa [pow_succ] at h)
  exact hten (lt_of_lt_of_le v.isLt (by norm_num))

theorem putArc_eq (v : BitVec 64) : putArc v = temp v := by
  rw [putArc, temp, putGroups_eq]

theorem lowGroups_length_le (room : ℕ) (v : BitVec 64) : (lowGroups room v).length ≤ room := by
  induction room generalizing v with
  | zero => exact le_refl 0
  | succ room ih =>
    rw [lowGroups]
    split
    · exact Nat.zero_le _
    · exact Nat.succ_le_succ (ih _)

/-- Ten bytes are enough for the groups of any arc. -/
theorem putArc_length_le (v : BitVec 64) : (putArc v).length ≤ 10 := by
  rw [putArc]
  split
  · exact Nat.succ_le_succ (Nat.zero_le 9)
  · rw [putGroups_eq]
    exact lowGroups_length_le 10 v

theorem flushTemp_length (bs : List Byte) : (flushTemp bs).length = bs.length := by
  cases bs with
  | nil => rfl
  | cons low high => simp [flushTemp]

theorem mem_mapIdx_out {offset n : ℕ} {bs : List Byte} {b : Byte} :
    (Place.out n, b) ∈ bs.mapIdx (fun i b => (Place.out (offset + i), b)) ↔
      offset ≤ n ∧ bs[n - offset]? = some b := by
  rw [List.mem_mapIdx]
  constructor
  · rintro ⟨i, hi, he⟩
    obtain ⟨hn, rfl⟩ := Prod.mk.inj he
    obtain rfl : offset + i = n := Place.out.inj hn
    rw [Nat.add_sub_cancel_left]
    exact ⟨Nat.le_add_right _ _, List.getElem?_eq_getElem hi⟩
  · rintro ⟨hle, hget⟩
    obtain ⟨hi, rfl⟩ := List.getElem?_eq_some_iff.mp hget
    refine ⟨n - offset, hi, ?_⟩
    rw [Nat.add_sub_cancel' hle]

theorem out_not_mem_temp {n : ℕ} {bs : List Byte} {b : Byte} :
    (Place.out n, b) ∉ bs.mapIdx (fun i b => (Place.temp i, b)) := by
  rw [List.mem_mapIdx]
  rintro ⟨i, hi, he⟩
  cases he

/-- Behind the pointer the turns store their bytes one after the other. -/
theorem mem_storeArcs_out {offset n : ℕ} {ws : List Text} {b : Byte} :
    (.out n, b) ∈ storeArcs offset ws ↔
      offset ≤ n ∧ (ws.flatMap fun w => flushTemp (temp (atoll w)))[n - offset]? = some b := by
  induction ws generalizing offset with
  | nil => simp [storeArcs]
  | cons w ws ih =>
    have hlen := flushTemp_length (temp (atoll w))
    simp only [storeArcs, putArc_eq, List.mem_append, mem_mapIdx_out, ih, List.flatMap_cons,
      out_not_mem_temp, false_or]
    generalize flushTemp (temp (atoll w)) = bs at hlen
    generalize (ws.flatMap fun w => flushTemp (temp (atoll w))) = rest
    rw [← hlen, Nat.sub_add_eq]
    by_cases hin : n - offset < bs.length
    · rw [List.getElem?_append_left hin]
      constructor
      · rintro (h | ⟨hle, -⟩)
        · exact h
        · omega
      · exact Or.inl
    · rw [List.getElem?_append_right (by omega), List.getElem?_eq_none (by omega)]
      constructor
      · rintro (⟨-, h⟩ | ⟨hle, h⟩)
        · cases h
        · exact ⟨by omega, h⟩
      · rintro ⟨hle, h⟩
        exact Or.inr ⟨by omega, h⟩

theorem mem_storeArcs_temp {offset i : ℕ} {ws : List Text} {b : Byte}
    (h : (.temp i, b) ∈ storeArcs offset ws) : i < 10 := by
  induction ws generalizing offset with
  | nil => cases h
  | cons w ws ih =>
    simp only [storeArcs, List.mem_append, List.mem_mapIdx] at h
    rcases h with (⟨j, hj, he⟩ | ⟨j, hj, he⟩) | h
    · obtain rfl : j = i := Place.temp.inj (Prod.mk.inj he).1
      exact lt_of_lt_of_le hj (putArc_length_le _)
    · cases he
    · exact ih h

/-- The bytes of the object identifier are stored one after the other. -/
theorem mem_oidStores_out {oid : Text} {n : ℕ} {b : Byte} :
    (.out n, b) ∈ oidStores oid ↔ (oidBytes oid)[n]? = some b := by
  rw [oidStores, oidBytes]
  split
  · rw [List.mem_cons, mem_storeArcs_out, Prod.mk.injEq, Place.out.injEq]
    cases n with
    | zero => simp [eq_comm]
    | succ n =>
      rw [List.getElem?_cons_succ, Nat.add_sub_cancel]
      simp [oidGroups, works]
  · rw [mem_storeArcs_out]
    simp [oidGroups, works]

theorem mem_oidStores_temp {oid : Text} {i : ℕ} {b : Byte} (h : (.temp i, b) ∈ oidStores oid) :
    i < 10 := by
  rw [oidStores] at h
  split at h
  · rw [List.mem_cons] at h
    rcases h with h | h
    · cases h
    · exact mem_storeArcs_temp h
  · exact mem_storeArcs_temp h

/-- The stores stay inside exactly if the bytes are not more than what was allocated. -/
theorem stores_inside_iff (oid : Text) (size : ℕ) :
    (∀ s ∈ oidStores oid, s.1.Inside size) ↔ (oidBytes oid).length ≤ size := by
  constructor
  · intro h
    by_contra hlt
    have hget := List.getElem?_eq_getElem (not_le.mp hlt)
    exact lt_irrefl size (h _ (mem_oidStores_out.mpr hget))
  · rintro hle ⟨place, b⟩ hs
    cases place with
    | temp i => exact mem_oidStores_temp hs
    | out n =>
      obtain ⟨hn, -⟩ := List.getElem?_eq_some_iff.mp (mem_oidStores_out.mp hs)
      exact lt_of_lt_of_le hn hle

/-- The constructor, or nothing where it stores outside the bytes that it allocates, one for each
character, or outside `temp`. -/
def constructOid (oid : Text) : Option Elem :=
  if ∀ s ∈ oidStores oid, s.1.Inside oid.length then some (snmpOid oid) else none

theorem constructOid_eq_some_iff (oid : Text) :
    constructOid oid = some (snmpOid oid) ↔ (oidBytes oid).length ≤ oid.length := by
  rw [constructOid, ← stores_inside_iff]
  split
  · rename_i h
    exact ⟨fun _ => h, fun _ => rfl⟩
  · rename_i h
    exact ⟨fun he => (Option.some_ne_none _ he.symm).elim, fun hin => absurd hin h⟩

/-! ## What the characters leave over -/

/-- The characters of an arc `v`, its dot included, less the bytes it is stored in. From `2 ^ 31` on
`%d` prints the distance to `2 ^ 32` with a minus sign, and there are ten bytes. -/
def spare (v : ℕ) : ℤ :=
  if v < 2 ^ 31 then 1 + Nat.log 10 v - Nat.log 128 v else Nat.log 10 (2 ^ 32 - v) - 7

theorem spare_pos {v : ℕ} (h : v < 2 ^ 31) : 0 < spare v := by
  have hlog : Nat.log 128 v ≤ Nat.log 10 v := Nat.log_anti_left (by decide) (by decide)
  rw [spare, if_pos h]
  omega

theorem formatD_length (a : ℕ) :
    (formatD (BitVec.ofNat 32 a)).length =
      if a % 2 ^ 32 < 2 ^ 31 then Nat.log 10 (a % 2 ^ 32) + 1
      else Nat.log 10 (2 ^ 32 - a % 2 ^ 32) + 2 := by
  have hint := BitVec.toInt_eq_toNat_cond (BitVec.ofNat 32 a)
  rw [BitVec.toNat_ofNat] at hint
  by_cases ha : a % 2 ^ 32 < 2 ^ 31
  · have hval : (BitVec.ofNat 32 a).toInt = (a % 2 ^ 32 : ℕ) := by
      rw [hint, if_pos (by omega)]
    rw [formatD, hval, if_neg (by omega), if_pos ha, Int.natAbs_natCast, decimal_length]
  · have hval : (BitVec.ofNat 32 a).toInt = -((2 ^ 32 - a % 2 ^ 32 : ℕ) : ℤ) := by
      rw [hint, if_neg (by omega)]
      omega
    rw [formatD, hval, if_pos (by omega), if_neg ha, Int.natAbs_neg, Int.natAbs_natCast,
      List.length_cons, decimal_length]

theorem encode_reread (a : ℕ) :
    (Base128.encode (reread a)).length =
      if a % 2 ^ 32 < 2 ^ 31 then Nat.log 128 (a % 2 ^ 32) + 1 else 10 := by
  rw [Base128.encode_length, reread_eq]
  split
  · rfl
  · have hlog : Nat.log 128 (2 ^ 64 - 2 ^ 32 + a % 2 ^ 32) = 9 := by
      apply Nat.log_eq_of_pow_le_of_lt_pow
      · norm_num
        omega
      · norm_num
        omega
    rw [hlog]

theorem spare_eq (a : ℕ) :
    ((dotArc a).length : ℤ) = (Base128.encode (reread a)).length + spare (a % 2 ^ 32) := by
  rw [dotArc, List.length_cons, formatD_length, encode_reread, spare]
  split
  · push_cast
    ring
  · push_cast
    ring

/-- What the arcs of a body, as far as the 32 bit register holds them, leave over together. -/
def totalSpare (as : List ℕ) : ℤ := (as.map fun a => spare (a % 2 ^ 32)).sum

theorem totalSpare_cons (a : ℕ) (as : List ℕ) :
    totalSpare (a :: as) = spare (a % 2 ^ 32) + totalSpare as := by
  rw [totalSpare, List.map_cons, List.sum_cons, totalSpare]

theorem totalSpare_eq (as : List ℕ) :
    ((as.flatMap dotArc).length : ℤ) =
      ((as.map reread).flatMap Base128.encode).length + totalSpare as := by
  induction as with
  | nil => rfl
  | cons a as ih =>
    rw [List.flatMap_cons, List.map_cons, List.flatMap_cons, List.length_append,
      List.length_append, Nat.cast_add, Nat.cast_add, totalSpare_cons, spare_eq, ih]
    ring

/-- The arcs leave something over where the body does not start with the octet of `1.3`, since a
zero is stored in front of it then, and do not lack anything where it does. -/
def EnoughSpare (body : List Byte) : Prop :=
  if body.head? = some 43 ∨ Base128.arcs 0 body = [] then 0 ≤ totalSpare (Base128.arcs 0 body)
  else 0 < totalSpare (Base128.arcs 0 body)

instance (body : List Byte) : Decidable (EnoughSpare body) :=
  inferInstanceAs (Decidable (if body.head? = some 43 ∨ Base128.arcs 0 body = [] then
    0 ≤ totalSpare (Base128.arcs 0 body) else 0 < totalSpare (Base128.arcs 0 body)))

/-- Arcs below `2 ^ 31` lack nothing, however many there are. -/
theorem enoughSpare_of_small {body : List Byte}
    (h : ∀ a ∈ Base128.arcs 0 body, a % 2 ^ 32 < 2 ^ 31) : EnoughSpare body := by
  have hnonneg : ∀ as : List ℕ, (∀ a ∈ as, a % 2 ^ 32 < 2 ^ 31) → 0 ≤ totalSpare as := by
    intro as has
    refine List.sum_nonneg ?_
    intro x hx
    obtain ⟨a, ha, rfl⟩ := List.mem_map.mp hx
    exact le_of_lt (spare_pos (has a ha))
  rw [EnoughSpare]
  split
  · exact hnonneg _ h
  · rename_i hsome
    obtain ⟨a, as, he⟩ := List.exists_cons_of_ne_nil fun hnil => hsome (Or.inr hnil)
    rw [he, List.forall_mem_cons] at h
    have hrest := hnonneg as h.2
    have hfirst := spare_pos h.1
    rw [he, totalSpare_cons]
    exact add_pos_of_pos_of_nonneg hfirst hrest

/-! ## The constructor on what `get_OID` returns -/

theorem oidBytes_le_43 (rest : List Byte) :
    (oidBytes (getOid (43 :: rest)).2).length ≤ (getOid (43 :: rest)).2.length ↔
      EnoughSpare (43 :: rest) := by
  have harcs : Base128.arcs 0 (43 :: rest) = 43 :: Base128.arcs 0 rest := rfl
  have hhead : (43 :: rest).head? = some 43 := rfl
  have hfirst : spare (43 % 2 ^ 32) = 2 := by decide +kernel
  have htotal := totalSpare_eq (Base128.arcs 0 rest)
  rw [getOid_text_43, EnoughSpare, if_pos (Or.inl hhead), harcs, totalSpare_cons, hfirst]
  by_cases hnil : Base128.arcs 0 rest = []
  · rw [hnil]
    decide +kernel
  · rw [oidBytes_13 hnil, List.length_append, List.length_cons]
    simp only [List.length_cons, List.length_nil]
    omega

theorem oidBytes_le_other {body : List Byte} (h43 : body.head? ≠ some 43) :
    (oidBytes (getOid body).2).length ≤ (getOid body).2.length ↔ EnoughSpare body := by
  have htotal := totalSpare_eq (Base128.arcs 0 body)
  rw [getOid_text h43, EnoughSpare]
  by_cases hnil : Base128.arcs 0 body = []
  · rw [if_pos (Or.inr hnil), hnil]
    decide +kernel
  · have hzero : (Base128.encode 0).length = 1 := rfl
    rw [if_neg (not_or.mpr ⟨h43, hnil⟩), oidBytes_dots hnil, List.flatMap_cons, List.length_append]
    omega

theorem oidBytes_le_iff (body : List Byte) :
    (oidBytes (getOid body).2).length ≤ (getOid body).2.length ↔ EnoughSpare body := by
  by_cases h43 : body.head? = some 43
  · obtain ⟨rest, rfl⟩ := List.head?_eq_some_iff.mp h43
    exact oidBytes_le_43 rest
  · exact oidBytes_le_other h43

/-- For the text of any body the constructor of `snmp_oid` stays inside the bytes it allocates, one
for each character, and inside `temp`, exactly if the arcs leave enough over. -/
theorem oid_stores_inside_iff (body : List Byte) :
    (∀ s ∈ oidStores (getOid body).2, s.1.Inside (getOid body).2.length) ↔ EnoughSpare body := by
  rw [stores_inside_iff]
  exact oidBytes_le_iff body

/-- The arc `2 ^ 32 - 1` is printed in two characters and stored in ten bytes. -/
theorem oid_stores_outside :
    getOid [43, 0x8f, 0xff, 0xff, 0xff, 0x7f] = (true, ['1', '.', '3', '.', '-', '1']) ∧
      (.out 10, 0x7f) ∈ oidStores ['1', '.', '3', '.', '-', '1'] ∧
      ¬ ∀ s ∈ oidStores (getOid [43, 0x8f, 0xff, 0xff, 0xff, 0x7f]).2,
        s.1.Inside (getOid [43, 0x8f, 0xff, 0xff, 0xff, 0x7f]).2.length := by
  have htext : getOid [43, 0x8f, 0xff, 0xff, 0xff, 0x7f] =
      (true, ['1', '.', '3', '.', '-', '1']) := by decide +kernel
  have hlast : (.out 10, 0x7f) ∈ oidStores ['1', '.', '3', '.', '-', '1'] :=
    mem_oidStores_out.mpr (by decide +kernel)
  refine ⟨htext, hlast, ?_⟩
  rw [htext]
  intro h
  exact absurd (h _ hlast) (by simp [Place.Inside])

/-! ## Bodies that come back -/

/-- The arc is below `2 ^ 31`, or its 64 bits are the sign extension of its lower 32. -/
def Survives (a : ℕ) : Prop := a < 2 ^ 31 ∨ 2 ^ 64 - 2 ^ 31 ≤ a ∧ a < 2 ^ 64

/-- The body starts with the octet of `1.3`, more follows, every arc of the rest survives, and the
arcs leave enough over. -/
def SurvivesAsText (body : List Byte) : Prop :=
  (∃ rest, body = 43 :: rest ∧ rest ≠ [] ∧ ∀ a ∈ Base128.arcs 0 rest, Survives a) ∧
    EnoughSpare body

theorem map_reread_eq_iff (as : List ℕ) : as.map reread = as ↔ ∀ a ∈ as, Survives a := by
  induction as with
  | nil => simp
  | cons a as ih =>
    simp only [List.map_cons, List.cons.injEq, ih, reread_eq_iff, List.forall_mem_cons]
    rfl

theorem arcs_ne_nil {bs : List Byte} (hw : Base128.WellFormed bs) (hne : bs ≠ []) :
    Base128.arcs 0 bs ≠ [] := by
  intro he
  have h := Base128.flatMap_encode_arcs hw
  rw [he] at h
  exact hne h.symm

theorem payloadBytes_oid_eq_iff {v body : List Byte} (hv : v.length ≤ 253) :
    payloadBytes (.oid v) = 0x06 :: BitVec.ofNat 8 body.length :: body ↔ v = body := by
  have hsize : size (.oid v) ≤ 255 := by
    rw [size]
    omega
  rw [payloadBytes_eq hsize, ber, content, Elem.type]
  constructor
  · intro h
    exact (List.cons.inj (List.cons.inj h).2).2
  · rintro rfl
    rfl

/-- After the octet of `1.3`, a body comes back exactly if its arcs survive. -/
theorem oidBytes_getOid_43 {rest : List Byte} (hw : Base128.WellFormed rest) (hne : rest ≠ []) :
    oidBytes (getOid (43 :: rest)).2 = 43 :: rest ↔ ∀ a ∈ Base128.arcs 0 rest, Survives a := by
  have harcs := Base128.flatMap_encode_arcs hw
  rw [getOid_cons_43 hw, oidBytes_13 (arcs_ne_nil hw hne), ← map_reread_eq_iff]
  constructor
  · intro h
    have htail := (List.cons.inj h).2
    refine Base128.flatMap_encode_injective ?_
    rw [htail, harcs]
  · intro h
    rw [h, harcs]

/-- Any other body comes back with one arc more. -/
theorem oidBytes_getOid_other {body : List Byte} (hw : Base128.WellFormed body) (hne : body ≠ [])
    (h43 : body.head? ≠ some 43) : oidBytes (getOid body).2 ≠ body := by
  rw [getOid_eq hw h43, oidBytes_dots (arcs_ne_nil hw hne)]
  intro h
  have harcs := Base128.flatMap_encode_arcs hw
  have he := Base128.flatMap_encode_injective (h.trans harcs.symm)
  simpa using congrArg List.length he

theorem oidBytes_getOid_length {body : List Byte} (hw : Base128.WellFormed body)
    (hlen : body.length ≤ 125) : (oidBytes (getOid body).2).length ≤ 253 := by
  by_cases h43 : body.head? = some 43
  · obtain ⟨rest, rfl⟩ := List.head?_eq_some_iff.mp h43
    have hw' : Base128.WellFormed rest := hw
    by_cases hne : rest = []
    · subst hne
      decide
    · have hdouble := flatMap_reread_length (Base128.arcs 0 rest)
      rw [Base128.flatMap_encode_arcs hw'] at hdouble
      rw [List.length_cons] at hlen
      rw [getOid_cons_43 hw', oidBytes_13 (arcs_ne_nil hw' hne), List.length_cons]
      omega
  · by_cases hne : body = []
    · subst hne
      decide
    · have hdouble := flatMap_reread_length (Base128.arcs 0 body)
      have hzero : (Base128.encode 0).length = 1 := rfl
      rw [Base128.flatMap_encode_arcs hw] at hdouble
      rw [getOid_eq hw h43, oidBytes_dots (arcs_ne_nil hw hne), List.flatMap_cons,
        List.length_append]
      omega

/-- The object identifier has the bytes that were received exactly if they start with the octet of
`1.3`, more follows, and every arc of the rest survives. -/
theorem oidBytes_getOid_iff {body : List Byte} (hpos : 1 ≤ body.length)
    (hw : Base128.WellFormed body) :
    oidBytes (getOid body).2 = body ↔
      ∃ rest, body = 43 :: rest ∧ rest ≠ [] ∧ ∀ a ∈ Base128.arcs 0 rest, Survives a := by
  by_cases h43 : body.head? = some 43
  · obtain ⟨rest, rfl⟩ := List.head?_eq_some_iff.mp h43
    have hw' : Base128.WellFormed rest := hw
    by_cases hne : rest = []
    · subst hne
      refine ⟨fun h => absurd h (by decide), ?_⟩
      rintro ⟨rest, he, hrest, -⟩
      exact absurd (List.cons.inj he).2.symm hrest
    · rw [oidBytes_getOid_43 hw' hne]
      constructor
      · exact fun h => ⟨rest, rfl, hne, h⟩
      · rintro ⟨rest', he, -, h⟩
        obtain rfl := (List.cons.inj he).2
        exact h
  · refine ⟨fun h => absurd h (oidBytes_getOid_other hw (List.ne_nil_of_length_pos hpos) h43), ?_⟩
    rintro ⟨rest, rfl, -, -⟩
    exact absurd rfl h43

/-- For a valid body of 1 to 125 bytes: the constructor of the object identifier in the reply stays
inside its bytes and leaves those that were received exactly if they start with the octet of `1.3`,
more follows, every arc of the rest is below `2 ^ 31` or within `2 ^ 31` below `2 ^ 64`, and the
arcs leave enough over. -/
theorem oid_bytes_round_trip_iff (body : List Byte) (hpos : 1 ≤ body.length)
    (hlen : body.length ≤ 125) (hw : Base128.WellFormed body) :
    constructOid (getOid body).2 = some (snmpOid (getOid body).2) ∧
        payloadBytes (snmpOid (getOid body).2) =
          0x06 :: BitVec.ofNat 8 body.length :: body ↔
      SurvivesAsText body := by
  rw [constructOid_eq_some_iff, oidBytes_le_iff, snmpOid,
    payloadBytes_oid_eq_iff (oidBytes_getOid_length hw hlen), oidBytes_getOid_iff hpos hw, and_comm]
  rfl

theorem oid_bytes_round_trip_mib2 :
    constructOid (getOid [43, 6, 1, 2, 1]).2 = some (snmpOid (getOid [43, 6, 1, 2, 1]).2) ∧
      payloadBytes (snmpOid (getOid [43, 6, 1, 2, 1]).2) = [0x06, 5, 43, 6, 1, 2, 1] := by
  refine (oid_bytes_round_trip_iff [43, 6, 1, 2, 1] (by decide) (by decide) (by decide)).mpr
    ⟨⟨[6, 1, 2, 1], rfl, by decide, fun a ha => Or.inl ?_⟩, enoughSpare_of_small ?_⟩
  · revert a
    decide
  · decide

/-- The object identifier `2.5.4` comes back with a zero in front. -/
theorem oid_bytes_round_trip_254 :
    Base128.WellFormed [85, 4] ∧
      payloadBytes (snmpOid (getOid [85, 4]).2) ≠ [0x06, 2, 85, 4] := by
  decide

end MyIp.Snmp
