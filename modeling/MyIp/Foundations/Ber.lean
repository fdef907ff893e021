import Mathlib.Data.Nat.Size
import MyIp.Foundations.Base128

/-! # The basic encoding rules

An element is a tag, the length of its content and the content. A length below 128 is one octet; a
longer one is an octet `128 + k` and the `k` octets of the length, the highest first. Integers are
in two's complement in as few octets as possible. An object identifier is its arcs in base 128, the
first two of them combined to one number. -/

namespace Ber
set_option autoImplicit false

open Bytes

def lengthOctets (n : ℕ) : List Byte :=
  if n < 128 then [BitVec.ofNat 8 n]
  else BitVec.ofNat 8 (128 + (Nat.digits 256 n).length) ::
    (Nat.digits 256 n).reverse.map (BitVec.ofNat 8)

def tlv (tag : Byte) (content : List Byte) : List Byte :=
  tag :: (lengthOctets content.length ++ content)

theorem tlv_short {content : List Byte} (h : content.length < 128) (tag : Byte) :
    tlv tag content = tag :: BitVec.ofNat 8 content.length :: content := by
  rw [tlv, lengthOctets, if_pos h]
  rfl

theorem tlv_long {content : List Byte} (h : 128 ≤ content.length) (h' : content.length < 256)
    (tag : Byte) : tlv tag content = tag :: 0x81 :: BitVec.ofNat 8 content.length :: content := by
  rw [tlv, lengthOctets, if_neg (by omega), Nat.digits_of_lt 256 _ (by omega) h']
  rfl

theorem tlv_length_short {content : List Byte} (h : content.length < 128) (tag : Byte) :
    (tlv tag content).length = content.length + 2 := by
  rw [tlv_short h, List.length_cons, List.length_cons]

/-- An element is longer than its content. -/
theorem content_length_lt_tlv (tag : Byte) (content : List Byte) :
    content.length + 2 ≤ (tlv tag content).length := by
  have hpos : 1 ≤ (lengthOctets content.length).length := by
    rw [lengthOctets]
    split <;> simp
  rw [tlv, List.length_cons, List.length_append]
  omega

/-! ## Integers -/

/-- An integer that is not negative, or the complement of one that is. -/
def magnitude : ℤ → ℕ
  | .ofNat n => n
  | .negSucc n => n

/-- How many octets an integer takes, its sign bit included. -/
def octetCount (v : ℤ) : ℕ := (magnitude v).size / 8 + 1

def twosComplement : ℕ → ℤ → List Byte
  | 0, _ => []
  | k + 1, v => twosComplement k (v / 256) ++ [BitVec.ofInt 8 v]

def integerOctets (v : ℤ) : List Byte := twosComplement (octetCount v) v

@[simp] theorem twosComplement_length (k : ℕ) (v : ℤ) : (twosComplement k v).length = k := by
  induction k generalizing v with
  | zero => rfl
  | succ k ih => rw [twosComplement, List.length_append, ih, List.length_singleton]

@[simp] theorem integerOctets_length (v : ℤ) : (integerOctets v).length = octetCount v :=
  twosComplement_length _ v

theorem magnitude_lt_pow (v : ℤ) : magnitude v < 2 ^ (8 * octetCount v) := by
  rw [← Nat.size_le, octetCount]
  omega

theorem le_octetCount_iff {v : ℤ} {k : ℕ} :
    k + 2 ≤ octetCount v ↔ 2 ^ (8 * k + 7) ≤ magnitude v := by
  rw [← Nat.lt_size, octetCount]
  omega

theorem magnitude_of_nonneg {v : ℤ} (h : 0 ≤ v) : (magnitude v : ℤ) = v := by
  obtain ⟨n, rfl⟩ := Int.eq_ofNat_of_zero_le h
  rfl

theorem magnitude_of_neg {v : ℤ} (h : v < 0) : (magnitude v : ℤ) = -v - 1 := by
  obtain ⟨n, rfl⟩ := Int.eq_negSucc_of_lt_zero h
  rw [magnitude, Int.negSucc_eq]
  omega

/-- The octets of a number that is not negative are those of its value. -/
theorem emod_octets_of_nonneg {v : ℤ} (h : 0 ≤ v) : v % 256 ^ octetCount v = v := by
  have hlt : (magnitude v : ℤ) < (2 ^ (8 * octetCount v) : ℕ) := by
    exact_mod_cast magnitude_lt_pow v
  rw [magnitude_of_nonneg h, pow_mul] at hlt
  exact Int.emod_eq_of_lt h (by exact_mod_cast hlt)

/-! ## Object identifiers -/

/-- The first arc is 0, 1 or 2, and the second is below 40 unless the first is 2. -/
structure ObjectId where
  first : ℕ
  second : ℕ
  rest : List ℕ
  valid : first < 2 ∧ second < 40 ∨ first = 2

def ObjectId.arcs (o : ObjectId) : List ℕ := o.first :: o.second :: o.rest

def ObjectId.octets (o : ObjectId) : List Byte :=
  ((40 * o.first + o.second) :: o.rest).flatMap Base128.encode

end Ber
