import MyIp.Foundations.CText

/-! # Splitting texts

`split` of `str.cpp` for a separator of one character. An empty text has no parts; a separator at
the end is followed by one more, empty part. `split_dotted` is its result on the texts that
`CText.dotted` builds. `splitBy` is the same function for any separator, and `findHeader` looks for
a header among the lines of a message. -/

namespace MyIp.Net
set_option autoImplicit false

open CText

section Split
variable {α : Type} [DecidableEq α]

/-- The loop of `split`: `before` is what was read since the last separator. -/
def splitFrom (splitter : α) : List α → List α → List (List α)
  | before, [] => if before.isEmpty then [] else [before]
  | before, c :: rest =>
    if c = splitter then
      before :: (if rest.isEmpty then [[]] else splitFrom splitter [] rest)
    else splitFrom splitter (before ++ [c]) rest

def split (text : List α) (splitter : α) : List (List α) := splitFrom splitter [] text

theorem splitFrom_append {c : α} {part : List α} (h : c ∉ part) (before rest : List α) :
    splitFrom c before (part ++ rest) = splitFrom c (before ++ part) rest := by
  induction part generalizing before with
  | nil => simp
  | cons x part ih =>
    have hx : x ≠ c := by
      rintro rfl
      exact h List.mem_cons_self
    rw [List.cons_append, splitFrom, if_neg hx, ih fun hm => h (List.mem_cons_of_mem _ hm),
      List.append_assoc, List.singleton_append]

theorem splitFrom_eq_splitOn {c : α} {before : List α} (rest : List α) (hc : c ∉ before)
    (hne : before ++ rest ≠ []) : splitFrom c before rest = (before ++ rest).splitOn c := by
  induction rest generalizing before with
  | nil =>
    rw [List.append_nil] at hne ⊢
    rw [splitFrom, if_neg (by simpa using hne), List.splitOn_eq_singleton hc]
  | cons x rest ih =>
    rw [splitFrom]
    by_cases hx : x = c
    · rw [if_pos hx, hx, List.splitOn_append_cons_self_of_not_mem hc]
      cases rest with
      | nil => rfl
      | cons x' rest =>
        have hrest := @ih [] List.not_mem_nil (List.cons_ne_nil _ _)
        exact congrArg (before :: ·) hrest
    · have hbefore : c ∉ before ++ [x] := by
        rw [List.mem_append, List.mem_singleton, not_or]
        exact ⟨hc, fun h => hx h.symm⟩
      rw [if_neg hx, ih hbefore (by simp), List.append_assoc, List.singleton_append]

theorem split_eq_splitOn {text : List α} {c : α} (h : text ≠ []) : split text c = text.splitOn c :=
  splitFrom_eq_splitOn text List.not_mem_nil h

omit [DecidableEq α] in
theorem intercalate_ne_nil {sep : List α} {ts : List (List α)} (hts : ts ≠ []) (h : ∀ t ∈ ts, t ≠ []) :
    sep.intercalate ts ≠ [] := by
  obtain ⟨t, ts, rfl⟩ := List.exists_cons_of_ne_nil hts
  have ht := h t List.mem_cons_self
  cases ts with
  | nil => rwa [List.intercalate_singleton]
  | cons t' ts =>
    rw [List.intercalate_cons_cons, List.append_assoc]
    exact List.append_ne_nil_of_left_ne_nil ht _

/-- Parts that are not empty and hold no separator are found again. -/
theorem split_intercalate {c : α} {ts : List (List α)} (h : ∀ t ∈ ts, t ≠ [] ∧ c ∉ t) :
    split ([c].intercalate ts) c = ts := by
  by_cases hts : ts = []
  · rw [hts]
    rfl
  · have hne : [c].intercalate ts ≠ [] := intercalate_ne_nil hts fun t ht => (h t ht).1
    rw [split_eq_splitOn hne]
    exact List.splitOn_intercalate c (fun t ht => (h t ht).2) hts

end Split

theorem dotted_eq_intercalate (ts : List Text) : dotted ts = ['.'].intercalate ts := by
  induction ts with
  | nil => rfl
  | cons t ts ih =>
    cases ts with
    | nil => rw [List.intercalate_singleton, dotted]
    | cons t' ts => rw [dotted, ih, List.intercalate_cons_cons, List.append_assoc, List.singleton_append]

theorem dotted_ne_nil {ts : List Text} (hts : ts ≠ []) (h : ∀ t ∈ ts, t ≠ []) : dotted ts ≠ [] := by
  rw [dotted_eq_intercalate]
  exact intercalate_ne_nil hts h

theorem split_dotted {ts : List Text} (h : ∀ t ∈ ts, t ≠ [] ∧ '.' ∉ t) :
    split (dotted ts) '.' = ts := by
  rw [dotted_eq_intercalate]
  exact split_intercalate h

/-! ## Separators of more than one character -/

/-- The loop of `split`, for a number of turns. -/
def splitLoop (splitter : Text) : ℕ → Text → List Text
  | 0, _ => []
  | turns + 1, text =>
    match find splitter text with
    | none => if text.isEmpty then [] else [text]
    | some pos =>
      text.take pos ::
        (if text.length - (pos + splitter.length) = 0 then [[]]
        else splitLoop splitter turns (text.drop (pos + splitter.length)))

/-- `split`. Every turn takes the separator off, so that there are turns enough. -/
def splitBy (text splitter : Text) : List Text := splitLoop splitter (text.length + 1) text

theorem splitLoop_turns {splitter : Text} (h : splitter ≠ []) {turns turns' : ℕ} {text : Text}
    (ht : text.length < turns) (ht' : text.length < turns') :
    splitLoop splitter turns text = splitLoop splitter turns' text := by
  induction turns generalizing turns' text with
  | zero => omega
  | succ turns ih =>
    obtain ⟨turns', rfl⟩ : ∃ n, turns' = n + 1 := ⟨turns' - 1, by omega⟩
    rw [splitLoop, splitLoop]
    split
    · rfl
    · next pos hpos =>
      have hlen := List.length_pos_of_ne_nil h
      split
      · rfl
      · exact congrArg (text.take pos :: ·)
          (ih (by rw [List.length_drop]; omega) (by rw [List.length_drop]; omega))

/-- A separator of one character. -/
theorem splitLoop_singleton {c : Char} {turns : ℕ} {text : Text} (ht : text.length < turns) :
    splitLoop [c] turns text = splitFrom c [] text := by
  induction turns generalizing text with
  | zero => omega
  | succ turns ih =>
    rw [splitLoop]
    split
    · next hnone =>
      have hc : c ∉ text := by
        intro hm
        obtain ⟨l, r, he⟩ := List.append_of_mem hm
        exact find_none_iff.mp hnone ⟨l, r, by rw [he]; simp⟩
      have hs := splitFrom_append hc [] []
      rw [List.append_nil, List.nil_append] at hs
      rw [hs, splitFrom]
    · next pos hpos =>
      obtain ⟨before, rest, rfl, rfl⟩ := find_some hpos
      have hc : c ∉ before := by simpa using find_char hpos
      have hs := splitFrom_append hc [] (c :: rest)
      rw [List.singleton_append, hs, List.nil_append, splitFrom, if_pos rfl, List.take_left]
      refine congrArg (before :: ·) ?_
      have hdrop : (before ++ c :: rest).drop (before.length + 1) = rest := by
        rw [List.drop_append, List.drop_of_length_le (by omega)]
        simp
      have hlen : (before ++ c :: rest).length - (before.length + 1) = rest.length := by
        rw [List.length_append, List.length_cons]
        omega
      rw [List.length_singleton, hdrop, hlen]
      by_cases hz : rest = []
      · simp [hz]
      · have hpos : rest.length ≠ 0 := fun h0 => hz (List.length_eq_zero_iff.mp h0)
        rw [if_neg hpos, if_neg (by simpa using hz)]
        refine ih ?_
        rw [List.singleton_append, List.length_append, List.length_cons] at ht
        omega

theorem splitBy_singleton (text : Text) (c : Char) : splitBy text [c] = split text c :=
  splitLoop_singleton (Nat.lt_succ_self _)

/-! ## Headers -/

/-- `std::tolower` in the C locale, for the characters of a text or the bytes of a name. -/
class Lowered (α : Type) where
  tolower : α → α

instance : Lowered Char := ⟨Char.toLower⟩

/-- `str_tolower` -/
def strTolower {α : Type} [Lowered α] (s : List α) : List α := s.map Lowered.tolower

/-- What `find_header` takes from a line that has the header. -/
def headerValue (key line : Text) : Text := (line.drop (key.length + 1)).dropWhile (· == ' ')

/-- `find_header`: the last line with the header counts. -/
def findHeader (lines : List Text) (key seperator : Text) : Option Text :=
  lines.foldl (fun value line =>
    match splitBy line seperator with
    | name :: _ :: _ => if strTolower name = strTolower key then some (headerValue key line) else value
    | _ => value) none

end MyIp.Net
