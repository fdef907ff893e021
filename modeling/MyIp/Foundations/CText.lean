import Mathlib.Tactic

/-! # C texts and decimal numbers

A text is the list of its characters. The functions here are those of the C and C++ libraries on a
Linux machine: `strtoll` in base 10 (leading white space, one sign, digits up to the first other
character, results outside 64 bits replaced by the nearest bound), `atoll`, `atoi` (its result cut
down to an `int`), the `%d` conversion and `rfind`. `dotted` puts dots between texts.

The results are that a decimal number is read back from the text that was printed for it
(`strtoll_decimal`, `strtoll_neg_decimal`, `atoi_decimal`), whatever follows it that is not a digit,
and where the last dot of a dotted text is (`rfind_dot`). -/

namespace CText
set_option autoImplicit false

abbrev Text := List Char

def isSpace (c : Char) : Bool :=
  c == ' ' || c == '\t' || c == '\n' || c == '\x0b' || c == '\x0c' || c == '\r'

/-- The digits a number starts with, as a number. -/
def leadingNat (t : Text) : ℕ := Nat.ofDigitChars 10 (t.takeWhile Char.isDigit) 0

def strtoll (t : Text) : ℤ :=
  match t.dropWhile isSpace with
  | '-' :: t => max (-(leadingNat t : ℤ)) (-2 ^ 63)
  | '+' :: t => min (leadingNat t : ℤ) (2 ^ 63 - 1)
  | t => min (leadingNat t : ℤ) (2 ^ 63 - 1)

/-- `atoll`, as the 64 bits of its result. -/
def atoll (t : Text) : BitVec 64 := BitVec.ofInt 64 (strtoll t)

def atoi (t : Text) : ℤ := (BitVec.ofInt 32 (strtoll t)).toInt

def decimal (n : ℕ) : Text := Nat.toDigits 10 n

/-- The `%d` conversion of a 32 bit argument. -/
def formatD (v : BitVec 32) : Text :=
  if v.toInt < 0 then '-' :: decimal v.toInt.natAbs else decimal v.toInt.natAbs

def rfind (c : Char) : Text → Option ℕ
  | [] => none
  | x :: t =>
    match rfind c t with
    | some i => some (i + 1)
    | none => if x = c then some 0 else none

/-- Where the text `needle` is found first. -/
def find (needle : Text) : Text → Option ℕ
  | [] => if needle.isEmpty then some 0 else none
  | x :: t => if needle.isPrefixOf (x :: t) then some 0 else (find needle t).map (· + 1)

/-- Where it is found last. -/
def rfindText (needle : Text) : Text → Option ℕ
  | [] => if needle.isEmpty then some 0 else none
  | x :: t =>
    match rfindText needle t with
    | some i => some (i + 1)
    | none => if needle.isPrefixOf (x :: t) then some 0 else none

/-- What a function gets that is given the `c_str` of a text. -/
def cStr (t : Text) : Text := t.takeWhile (· != '\x00')

def dotted : List Text → Text
  | [] => []
  | [t] => t
  | t :: t' :: ts => t ++ '.' :: dotted (t' :: ts)

/-! ## Decimal numbers -/

theorem decimal_ne_nil (n : ℕ) : decimal n ≠ [] := Nat.toDigits_ne_nil

theorem isDigit_of_mem_decimal {n : ℕ} {c : Char} (h : c ∈ decimal n) : c.isDigit = true :=
  Nat.isDigit_of_mem_toDigits (by decide) (by decide) h

theorem dot_not_mem_decimal (n : ℕ) : '.' ∉ decimal n :=
  fun h => absurd (isDigit_of_mem_decimal h) (by decide)

theorem decimal_injective : Function.Injective decimal := by
  intro a b h
  have ha : Nat.ofDigitChars 10 (decimal a) 0 = a := Nat.ofDigitChars_ten_toDigits
  rw [h] at ha
  exact ha.symm.trans Nat.ofDigitChars_ten_toDigits

theorem decimal_length (n : ℕ) : (decimal n).length = Nat.log 10 n + 1 := by
  induction n using Nat.strong_induction_on with
  | _ n ih =>
    rw [decimal, Nat.toDigits_eq_if (by decide)]
    split
    · rename_i hn
      rw [Nat.log_of_lt hn]
      rfl
    · rename_i hn
      have hlog : Nat.log 10 n = Nat.log 10 (n / 10) + 1 :=
        Nat.log_of_one_lt_of_le (by decide) (by omega)
      have hrest := ih (n / 10) (by omega)
      rw [decimal] at hrest
      rw [List.length_append, hrest, hlog]
      rfl

/-- The text goes on with something that is not a digit. -/
def Stops (t : Text) : Prop := ∀ c ∈ t.head?, c.isDigit = false

theorem leadingNat_decimal {n : ℕ} {t : Text} (ht : Stops t) : leadingNat (decimal n ++ t) = n := by
  have hw : (decimal n ++ t).takeWhile Char.isDigit = decimal n := by
    rw [List.takeWhile_append_of_pos fun c hc => isDigit_of_mem_decimal hc]
    cases t with
    | nil => simp
    | cons c t => simp [ht c (by simp)]
  rw [leadingNat, hw]
  exact Nat.ofDigitChars_ten_toDigits

theorem strtoll_of_digit {c : Char} {t : Text} (hc : c.isDigit = true) :
    strtoll (c :: t) = min (leadingNat (c :: t) : ℤ) (2 ^ 63 - 1) := by
  have hs : isSpace c = false := by
    cases h : isSpace c with
    | false => rfl
    | true =>
      simp only [isSpace, Bool.or_eq_true, beq_iff_eq] at h
      rcases h with ((((rfl | rfl) | rfl) | rfl) | rfl) | rfl <;> exact absurd hc (by decide)
  rw [strtoll, List.dropWhile_cons, hs]
  split
  · rename_i h
    obtain ⟨rfl, -⟩ := List.cons.inj h
    exact absurd hc (by decide)
  · rename_i h
    obtain ⟨rfl, -⟩ := List.cons.inj h
    exact absurd hc (by decide)
  · rfl

theorem strtoll_decimal {n : ℕ} {t : Text} (hn : n < 2 ^ 63) (ht : Stops t) :
    strtoll (decimal n ++ t) = n := by
  obtain ⟨c, s, hs⟩ := List.exists_cons_of_ne_nil (decimal_ne_nil n)
  have hc : c.isDigit = true := isDigit_of_mem_decimal (by rw [hs]; exact List.mem_cons_self)
  have hl := leadingNat_decimal (n := n) ht
  rw [hs, List.cons_append] at hl ⊢
  rw [strtoll_of_digit hc, hl]
  omega

theorem strtoll_neg_decimal {n : ℕ} {t : Text} (hn : n ≤ 2 ^ 63) (ht : Stops t) :
    strtoll ('-' :: decimal n ++ t) = -n := by
  have hd : ('-' :: decimal n ++ t).dropWhile isSpace = '-' :: (decimal n ++ t) := by
    rw [List.cons_append, List.dropWhile_cons]
    rfl
  rw [strtoll, hd]
  simp only [leadingNat_decimal ht]
  omega

theorem strtoll_dot (t : Text) : strtoll ('.' :: t) = 0 := by
  have hd : ('.' :: t).dropWhile isSpace = '.' :: t := by
    rw [List.dropWhile_cons]
    rfl
  have hl : leadingNat ('.' :: t) = 0 := by
    rw [leadingNat, List.takeWhile_cons]
    rfl
  rw [strtoll, hd]
  change min ((leadingNat ('.' :: t) : ℕ) : ℤ) (2 ^ 63 - 1) = 0
  rw [hl]
  rfl

theorem stops_nil : Stops [] := by
  simp [Stops]

theorem stops_dot (t : Text) : Stops ('.' :: t) := by
  intro c hc
  obtain rfl : '.' = c := by simpa using hc
  decide

theorem atoi_decimal {n : ℕ} (hn : n < 2 ^ 31) : atoi (decimal n) = n := by
  have h := strtoll_decimal (n := n) (by omega) stops_nil
  rw [List.append_nil] at h
  rw [atoi, h, BitVec.toInt_ofInt]
  exact Int.bmod_eq_of_le (by omega) (by omega)

/-- Below `2 ^ 32` different numbers stay different as an `int`. -/
theorem atoi_decimal_injective {n m : ℕ} (hn : n < 2 ^ 32) (hm : m < 2 ^ 32)
    (h : atoi (decimal n) = atoi (decimal m)) : n = m := by
  have hbits : ∀ k : ℕ, k < 2 ^ 32 → atoi (decimal k) = (BitVec.ofNat 32 k).toInt := by
    intro k hk
    have hs := strtoll_decimal (n := k) (by omega) stops_nil
    rw [List.append_nil] at hs
    rw [atoi, hs, BitVec.ofInt_natCast]
  rw [hbits n hn, hbits m hm, BitVec.toInt_inj] at h
  have he := congrArg BitVec.toNat h
  rw [BitVec.toNat_ofNat, BitVec.toNat_ofNat] at he
  omega

/-- A number that was printed with `%d` is read back as the sign extension of the argument. -/
theorem atoll_formatD (v : BitVec 32) {t : Text} (ht : Stops t) :
    atoll (formatD v ++ t) = v.signExtend 64 := by
  have hlo := BitVec.le_toInt v
  have hhi := BitVec.toInt_lt (x := v)
  rw [atoll, BitVec.signExtend, formatD]
  congr 1
  split
  · rename_i h
    rw [strtoll_neg_decimal (by omega) ht]
    omega
  · rename_i h
    rw [strtoll_decimal (by omega) ht]
    omega

theorem formatD_ofNat {n : ℕ} (hn : n < 2 ^ 31) : formatD (BitVec.ofNat 32 n) = decimal n := by
  have hv : (BitVec.ofNat 32 n).toInt = n := by
    rw [← BitVec.ofInt_natCast, BitVec.toInt_ofInt]
    exact Int.bmod_eq_of_le (by omega) (by omega)
  rw [formatD, hv, if_neg (by omega), Int.natAbs_natCast]

theorem dot_not_mem_formatD (v : BitVec 32) : '.' ∉ formatD v := by
  rw [formatD]
  split
  · simpa using dot_not_mem_decimal _
  · exact dot_not_mem_decimal _

/-! ## Dots -/

theorem rfind_eq_none {c : Char} {t : Text} (h : c ∉ t) : rfind c t = none := by
  induction t with
  | nil => rfl
  | cons x t ih =>
    have hx : x ≠ c ∧ c ∉ t := by
      constructor
      · rintro rfl
        exact h List.mem_cons_self
      · exact fun hm => h (List.mem_cons_of_mem _ hm)
    rw [rfind, ih hx.2, if_neg hx.1]

theorem rfind_append_cons {c : Char} {s t : Text} (h : c ∉ t) :
    rfind c (s ++ c :: t) = some s.length := by
  induction s with
  | nil => simp [rfind, rfind_eq_none h]
  | cons x s ih => simp [rfind, ih]

theorem dotted_snoc {ts : List Text} (h : ts ≠ []) (t : Text) :
    dotted (ts ++ [t]) = dotted ts ++ '.' :: t := by
  induction ts with
  | nil => exact absurd rfl h
  | cons s ts ih =>
    cases ts with
    | nil => rfl
    | cons s' ts => simpa [dotted] using ih (by simp)

/-! ## Finding texts and cutting them off -/

theorem find_some {needle text : Text} {i : ℕ} (h : find needle text = some i) :
    ∃ before rest, text = before ++ (needle ++ rest) ∧ before.length = i := by
  induction text generalizing i with
  | nil =>
    rw [find] at h
    split at h
    · next hn =>
      obtain rfl := List.isEmpty_iff.mp hn
      exact ⟨[], [], rfl, Option.some.inj h⟩
    · cases h
  | cons x t ih =>
    rw [find] at h
    split at h
    · next hp =>
      obtain ⟨rest, hr⟩ := List.isPrefixOf_iff_prefix.mp hp
      exact ⟨[], rest, hr.symm, Option.some.inj h⟩
    · obtain ⟨j, hj, rfl⟩ := Option.map_eq_some_iff.mp h
      obtain ⟨before, rest, hr, rfl⟩ := ih hj
      exact ⟨x :: before, rest, by rw [hr]; rfl, rfl⟩

/-- The first place of a character. -/
theorem find_char {c : Char} {text : Text} {i : ℕ} (h : find [c] text = some i) :
    c ∉ text.take i := by
  induction text generalizing i with
  | nil => simp
  | cons x t ih =>
    rw [find] at h
    split at h
    · obtain rfl := Option.some.inj h
      simp
    · next hp =>
      obtain ⟨j, hj, rfl⟩ := Option.map_eq_some_iff.mp h
      have hx : c ≠ x := by
        rintro rfl
        simp at hp
      rw [List.take_succ_cons, List.mem_cons, not_or]
      exact ⟨hx, ih hj⟩

theorem find_none_iff {needle text : Text} : find needle text = none ↔ ¬ needle <:+: text := by
  induction text with
  | nil =>
    rw [find, List.infix_nil]
    cases needle <;> simp
  | cons x t ih =>
    rw [find, List.infix_cons_iff]
    by_cases hp : needle <+: x :: t
    · simp [List.isPrefixOf_iff_prefix.mpr hp, hp]
    · have hp' : needle.isPrefixOf (x :: t) = false := by
        rw [← Bool.not_eq_true]
        exact fun h => hp (List.isPrefixOf_iff_prefix.mp h)
      simp [hp', hp, ih]

theorem cStr_isPrefix (t : Text) : cStr t <+: t := List.takeWhile_prefix _

theorem cStr_append {t : Text} (h : '\x00' ∉ t) (t' : Text) : cStr (t ++ t') = t ++ cStr t' := by
  refine List.takeWhile_append_of_pos ?_
  intro c hc
  simp only [bne_iff_ne, ne_eq]
  rintro rfl
  exact h hc

theorem cStr_eq_self {t : Text} (h : '\x00' ∉ t) : cStr t = t := by
  have hall := cStr_append h []
  rw [List.append_nil] at hall
  exact hall.trans (List.append_nil t)

/-- A text with a NUL hides what comes after it. -/
theorem cStr_append_of_mem {t : Text} (h : '\x00' ∈ t) (t' : Text) : cStr (t ++ t') = cStr t := by
  induction t with
  | nil => cases h
  | cons c t ih =>
    by_cases hc : c = '\x00'
    · simp [cStr, hc]
    · have ht : '\x00' ∈ t := by
        rcases List.mem_cons.mp h with he | ht
        · exact absurd he.symm hc
        · exact ht
      have hne : (c != '\x00') = true := by simpa using hc
      rw [List.cons_append, cStr, cStr, List.takeWhile_cons, List.takeWhile_cons, hne]
      exact congrArg (c :: ·) (ih ht)

end CText
