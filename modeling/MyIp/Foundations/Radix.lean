import MyIp.Foundations.CText
import Mathlib.Data.Nat.Digits.Defs
import Mathlib.Data.List.TakeWhile

/-! # Numbers in a base

`strtol` for a base from 2 to 36 and the conversions `%x`, with or without a width that is filled with
zeros. In the bases up to 16 a number is read back from the text that was printed for it
(`strtol_numberText`). -/

namespace CText
set_option autoImplicit false

/-- The value of a digit; other characters have one that is no digit in any base. -/
def digitValue (c : Char) : ℕ :=
  if '0' ≤ c ∧ c ≤ '9' then c.toNat - '0'.toNat
  else if 'a' ≤ c ∧ c ≤ 'z' then c.toNat - 'a'.toNat + 10
  else if 'A' ≤ c ∧ c ≤ 'Z' then c.toNat - 'A'.toNat + 10
  else 36

def ofDigits (base : ℕ) (t : Text) : ℕ := t.foldl (fun n c => n * base + digitValue c) 0

/-- In base 16 there may be `0x` before the digits. -/
def withoutPrefix (base : ℕ) : Text → Text
  | '0' :: x :: t => if base = 16 ∧ (x = 'x' ∨ x = 'X') then t else '0' :: x :: t
  | t => t

def magnitude (base : ℕ) (t : Text) : ℕ :=
  ofDigits base ((withoutPrefix base t).takeWhile fun c => digitValue c < base)

def strtol (base : ℕ) (t : Text) : ℤ :=
  match t.dropWhile isSpace with
  | '-' :: t => max (-(magnitude base t : ℤ)) (-2 ^ 63)
  | '+' :: t => min (magnitude base t : ℤ) (2 ^ 63 - 1)
  | t => min (magnitude base t : ℤ) (2 ^ 63 - 1)

/-- A number with at least `width` digits: `%x` in base 16 with width 0, `%02x` with width 2. -/
def numberText (base width n : ℕ) : Text := (Nat.toDigits base n).leftpad width '0'

/-- `snprintf` into a buffer of that size: what does not fit before the 0 at the end is cut off. -/
def snprintf (size : ℕ) (t : Text) : Text := t.take (size - 1)

theorem snprintf_of_lt {size : ℕ} {t : Text} (h : t.length < size) : snprintf size t = t := by
  apply List.take_of_length_le
  omega

/-! ## Digits -/

theorem digitValue_digitChar : ∀ d < 16, digitValue (Nat.digitChar d) = d := by
  decide

/-- No digit starts with a space, a sign or the prefix, and none is a separator of addresses. -/
theorem digitChar_ne : ∀ d < 16, isSpace (Nat.digitChar d) = false ∧
    ∀ c ∈ ['-', '+', 'x', 'X', '.', ':'], Nat.digitChar d ≠ c := by
  intro d hd
  constructor
  · interval_cases d <;> rfl
  · interval_cases d <;> simp [Nat.digitChar]

theorem exists_digit_of_mem {base n : ℕ} (hbase : 1 < base) {c : Char} (h : c ∈ Nat.toDigits base n) :
    ∃ d < base, c = Nat.digitChar d := by
  induction n using Nat.strong_induction_on with
  | _ n ih =>
    rw [Nat.toDigits_eq_if hbase] at h
    split at h
    case isTrue hn => exact ⟨n, hn, List.mem_singleton.mp h⟩
    case isFalse hn =>
      obtain hlead | hlast := List.mem_append.mp h
      · exact ih (n / base) (Nat.div_lt_self (by omega) hbase) hlead
      · exact ⟨n % base, Nat.mod_lt _ (by omega), List.mem_singleton.mp hlast⟩

theorem exists_digit_of_mem_numberText {base width n : ℕ} (hbase : 1 < base) {c : Char}
    (h : c ∈ numberText base width n) : ∃ d < base, c = Nat.digitChar d := by
  obtain hpad | hdigit := List.mem_append.mp h
  · exact ⟨0, by omega, List.eq_of_mem_replicate hpad⟩
  · exact exists_digit_of_mem hbase hdigit

theorem ofDigits_concat (base : ℕ) (t : Text) (c : Char) :
    ofDigits base (t ++ [c]) = ofDigits base t * base + digitValue c := by
  rw [ofDigits, List.foldl_append]
  rfl

theorem ofDigits_toDigits {base : ℕ} (hbase : 1 < base) (hbase' : base ≤ 16) (n : ℕ) :
    ofDigits base (Nat.toDigits base n) = n := by
  induction n using Nat.strong_induction_on with
  | _ n ih =>
    rw [Nat.toDigits_eq_if hbase]
    split
    case isTrue hn =>
      have hvalue := digitValue_digitChar n (by omega)
      simp [ofDigits, hvalue]
    case isFalse hn =>
      have hlast : n % base < 16 := (Nat.mod_lt _ (by omega)).trans_le hbase'
      rw [ofDigits_concat, ih (n / base) (Nat.div_lt_self (by omega) hbase),
        digitValue_digitChar _ hlast]
      exact Nat.div_add_mod' n base

theorem ofDigits_zeros (base k : ℕ) (t : Text) :
    ofDigits base (List.replicate k '0' ++ t) = ofDigits base t := by
  induction k with
  | zero => rfl
  | succ k ih =>
    rw [← ih, ofDigits, List.replicate_succ, List.cons_append, List.foldl_cons, Nat.zero_mul]
    rfl

/-! ## Reading back -/

theorem numberText_ne_nil (base width n : ℕ) : numberText base width n ≠ [] :=
  List.append_ne_nil_of_right_ne_nil _ Nat.toDigits_ne_nil

theorem withoutPrefix_of_notMem {base : ℕ} {t : Text} (hx : 'x' ∉ t) (hX : 'X' ∉ t) :
    withoutPrefix base t = t := by
  unfold withoutPrefix
  split
  · next x t =>
    rw [if_neg]
    rintro ⟨-, rfl | rfl⟩
    · exact hx (by simp)
    · exact hX (by simp)
  · rfl

theorem notMem_numberText {base width n : ℕ} (hbase : 1 < base) (hbase' : base ≤ 16) {c : Char}
    (hc : c ∈ ['-', '+', 'x', 'X', '.', ':']) : c ∉ numberText base width n := by
  intro h
  obtain ⟨d, hd, rfl⟩ := exists_digit_of_mem_numberText hbase h
  exact (digitChar_ne d (by omega)).2 _ hc rfl

theorem magnitude_numberText {base : ℕ} (hbase : 1 < base) (hbase' : base ≤ 16) (width n : ℕ) :
    magnitude base (numberText base width n) = n := by
  have hall : (numberText base width n).takeWhile (fun c => digitValue c < base) =
      numberText base width n := by
    apply List.takeWhile_eq_self_iff.mpr
    intro c hc
    obtain ⟨d, hd, rfl⟩ := exists_digit_of_mem_numberText hbase hc
    rw [digitValue_digitChar d (by omega)]
    exact decide_eq_true hd
  rw [magnitude, withoutPrefix_of_notMem (notMem_numberText hbase hbase' (by simp))
    (notMem_numberText hbase hbase' (by simp)), hall, numberText, List.leftpad, ofDigits_zeros,
    ofDigits_toDigits hbase hbase']

theorem strtol_numberText {base : ℕ} (hbase : 1 < base) (hbase' : base ≤ 16) (width : ℕ) {n : ℕ}
    (hn : n < 2 ^ 63) : strtol base (numberText base width n) = n := by
  have hmagnitude := magnitude_numberText hbase hbase' width n
  obtain ⟨c, t, ht⟩ := List.exists_cons_of_ne_nil (numberText_ne_nil base width n)
  obtain ⟨d, hd, hc⟩ := exists_digit_of_mem_numberText hbase
    (show c ∈ numberText base width n by rw [ht]; exact List.mem_cons_self)
  obtain ⟨hspace, hsign⟩ := digitChar_ne d (by omega)
  rw [← hc] at hspace hsign
  have hdrop : (numberText base width n).dropWhile isSpace = numberText base width n := by
    rw [ht, List.dropWhile_cons, hspace, if_neg Bool.false_ne_true]
  rw [strtol, hdrop]
  split
  · next h => exact absurd (List.cons.inj (ht.symm.trans h)).1 (hsign _ (by simp))
  · next h => exact absurd (List.cons.inj (ht.symm.trans h)).1 (hsign _ (by simp))
  · rw [hmagnitude]
    omega

theorem numberText_length_le {base width n e : ℕ} (he : 0 < e) (hwidth : width ≤ e)
    (hn : n < base ^ e) : (numberText base width n).length ≤ e := by
  have hdigits := Nat.toDigits_length base n e he hn
  rw [numberText, List.length_leftpad]
  omega

end CText
