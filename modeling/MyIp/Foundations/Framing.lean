import Mathlib.Tactic

/-! # Frames on a stream of symbols

A receiver takes a stream one symbol at a time; `feed` is its state after a piece of the stream
together with what it handed on, `feedEach` the same for consecutive pieces, kept apart. A
`Stuffing` replaces some symbols by an escape symbol and a code, so that a delimiter does not occur
inside a frame.

* `feed_collect`: a receiver that takes up each symbol from its encoding takes up a whole list,
* `feed_frames`: a receiver that returns to its state after each frame hands on frame after frame,
* `Stuffing.not_mem_stuff`, `Stuffing.stuff_length_le` and `unstuff_stuff` for the stuffing,
* `unstuff_eq_some_iff` and `unstuff_isSome_iff`: what is accepted, and when something is. -/

namespace Framing
set_option autoImplicit false

section Feed
variable {α β σ ω : Type} (step : σ → α → σ × List ω)

def feed : σ → List α → σ × List ω
  | s, [] => (s, [])
  | s, a :: as => ((feed (step s a).1 as).1, (step s a).2 ++ (feed (step s a).1 as).2)

/-- What is handed on during each of the pieces. -/
def feedEach : σ → List (List α) → List (List ω)
  | _, [] => []
  | s, piece :: pieces => (feed step s piece).2 :: feedEach (feed step s piece).1 pieces

variable {step}

theorem feed_append (s : σ) (as bs : List α) :
    feed step s (as ++ bs) = ((feed step (feed step s as).1 bs).1,
      (feed step s as).2 ++ (feed step (feed step s as).1 bs).2) := by
  induction as generalizing s with
  | nil => rfl
  | cons a as ih => simp only [List.cons_append, feed, ih, List.append_assoc]

theorem feed_append_of_eq {s t u : σ} {out out' : List ω} {as bs : List α}
    (h : feed step s as = (t, out)) (h' : feed step t bs = (u, out')) :
    feed step s (as ++ bs) = (u, out ++ out') := by
  simp only [feed_append, h, h']

theorem feed_singleton (s : σ) (a : α) : feed step s [a] = step s a := by
  simp [feed]

/-- A receiver that is in the state `φ l` after it took up `l` takes up the whole list. -/
theorem feed_collect {enc : β → List α} {φ : List β → σ} {full : List β}
    (h : ∀ pre b post, full = pre ++ b :: post →
      feed step (φ pre) (enc b) = (φ (pre ++ [b]), [])) :
    feed step (φ []) (full.flatMap enc) = (φ full, []) := by
  suffices hsuffix : ∀ pre post, full = pre ++ post →
      feed step (φ pre) (post.flatMap enc) = (φ full, []) from hsuffix [] full rfl
  intro pre post
  induction post generalizing pre with
  | nil =>
    intro hf
    rw [hf, List.append_nil]
    rfl
  | cons b post ih =>
    intro hf
    have hrest := ih (pre ++ [b]) (by rw [hf]; simp)
    exact feed_append_of_eq (h pre b post hf) hrest

/-- A receiver that is back in the state `s` after every frame. -/
theorem feed_frames {frame : β → List α} {out : β → List ω} {s : σ} {xs : List β}
    (h : ∀ x ∈ xs, feed step s (frame x) = (s, out x)) :
    feed step s (xs.flatMap frame) = (s, xs.flatMap out) := by
  induction xs with
  | nil => rfl
  | cons x xs ih =>
    have hx := h x List.mem_cons_self
    have hxs := ih fun y hy => h y (List.mem_cons_of_mem _ hy)
    rw [List.flatMap_cons, List.flatMap_cons]
    exact feed_append_of_eq hx hxs

/-- The pieces of a receiver that is back in the state `s` after each of them. -/
theorem feedEach_of_return {s : σ} {pieces : List (List α)}
    (h : ∀ piece ∈ pieces, (feed step s piece).1 = s) :
    feedEach step s pieces = pieces.map fun piece => (feed step s piece).2 := by
  induction pieces with
  | nil => rfl
  | cons piece pieces ih =>
    rw [feedEach, h piece List.mem_cons_self, List.map_cons,
      ih fun p hp => h p (List.mem_cons_of_mem _ hp)]

end Feed

/-! ## Stuffing -/

/-- The symbols that are `special` are replaced by the escape symbol and their `code`. -/
structure Stuffing (α : Type) where
  esc : α
  special : α → Bool
  code : α → α

namespace Stuffing
variable {α : Type} (S : Stuffing α)

def symbol (a : α) : List α := if S.special a then [S.esc, S.code a] else [a]

def stuff (l : List α) : List α := l.flatMap S.symbol

/-- The stuffing that replaces a delimiter and the escape symbol itself. -/
def delimited [DecidableEq α] (delim esc codeDelim codeEsc : α) : Stuffing α where
  esc := esc
  special a := a = delim ∨ a = esc
  code a := if a = delim then codeDelim else codeEsc

theorem delimited_symbol [DecidableEq α] (delim esc codeDelim codeEsc a : α) :
    (delimited delim esc codeDelim codeEsc).symbol a =
      if a = delim then [esc, codeDelim] else if a = esc then [esc, codeEsc] else [a] := by
  by_cases hd : a = delim
  · simp [symbol, delimited, hd]
  · by_cases he : a = esc
    · subst he
      simp [symbol, delimited, hd]
    · simp [symbol, delimited, hd, he]

variable {S}

theorem stuff_length_le (l : List α) : (S.stuff l).length ≤ 2 * l.length := by
  induction l with
  | nil => exact Nat.zero_le _
  | cons a l ih =>
    have ha : (S.symbol a).length ≤ 2 := by
      unfold symbol
      split <;> simp
    have hsplit : S.stuff (a :: l) = S.symbol a ++ S.stuff l := List.flatMap_cons
    rw [hsplit, List.length_append, List.length_cons]
    omega

theorem not_mem_stuff {d : α} (hspecial : S.special d = true) (hesc : d ≠ S.esc)
    (hcode : ∀ a, S.special a = true → S.code a ≠ d) (l : List α) : d ∉ S.stuff l := by
  intro hd
  obtain ⟨a, -, ha⟩ := List.mem_flatMap.mp hd
  unfold symbol at ha
  split at ha
  · rename_i hs
    rcases List.mem_cons.mp ha with he | ha
    · exact hesc he
    · exact hcode a hs (List.mem_singleton.mp ha).symm
  · rename_i hs
    obtain rfl := List.mem_singleton.mp ha
    exact hs hspecial

end Stuffing

section Unstuff
variable {α : Type} [DecidableEq α] (esc : α) (decode : α → α)

/-- Undoes a stuffing; an escape symbol at the end of the list has no answer. -/
def unstuff : List α → Option (List α)
  | [] => some []
  | [a] => if a = esc then none else some [a]
  | a :: b :: l =>
    if a = esc then (unstuff l).map (decode b :: ·) else (unstuff (b :: l)).map (a :: ·)

variable {esc decode}

theorem unstuff_plain {a : α} (ha : a ≠ esc) (l : List α) :
    unstuff esc decode (a :: l) = (unstuff esc decode l).map (a :: ·) := by
  cases l with
  | nil => simp [unstuff, ha]
  | cons b l => rw [unstuff, if_neg ha]

theorem unstuff_stuff {S : Stuffing α} (hesc : S.special S.esc = true)
    (hcode : ∀ a, S.special a = true → decode (S.code a) = a) (l : List α) :
    unstuff S.esc decode (S.stuff l) = some l := by
  induction l with
  | nil => rfl
  | cons a l ih =>
    have hsplit : S.stuff (a :: l) = S.symbol a ++ S.stuff l := List.flatMap_cons
    rw [hsplit, Stuffing.symbol]
    split
    · rename_i hs
      have hstep : unstuff S.esc decode ([S.esc, S.code a] ++ S.stuff l) =
          (unstuff S.esc decode (S.stuff l)).map (decode (S.code a) :: ·) := by
        rw [List.cons_append, List.singleton_append, unstuff, if_pos rfl]
      rw [hstep, ih, hcode a hs]
      rfl
    · rename_i hs
      have ha : a ≠ S.esc := by
        rintro rfl
        exact hs hesc
      rw [List.singleton_append, unstuff_plain ha, ih]
      rfl

/-! ### Which lists are stuffed -/

/-- A list and what it says: an escape symbol speaks for the symbol behind it, whichever that is. -/
inductive Escaped (esc : α) (decode : α → α) : List α → List α → Prop
  | nil : Escaped esc decode [] []
  | plain {a : α} {l m : List α} (ha : a ≠ esc) (h : Escaped esc decode l m) :
      Escaped esc decode (a :: l) (a :: m)
  | escape {b : α} {l m : List α} (h : Escaped esc decode l m) :
      Escaped esc decode (esc :: b :: l) (decode b :: m)

theorem unstuff_escape (b : α) (l : List α) :
    unstuff esc decode (esc :: b :: l) = (unstuff esc decode l).map (decode b :: ·) := by
  rw [unstuff, if_pos rfl]

theorem unstuff_eq_some_iff (l m : List α) :
    unstuff esc decode l = some m ↔ Escaped esc decode l m := by
  constructor
  · intro h
    induction l using unstuff.induct esc generalizing m with
    | case1 =>
      cases h
      exact .nil
    | case2 =>
      rw [unstuff, if_pos rfl] at h
      cases h
    | case3 a ha =>
      rw [unstuff, if_neg ha] at h
      cases h
      exact .plain ha .nil
    | case4 b l ih =>
      rw [unstuff_escape, Option.map_eq_some_iff] at h
      obtain ⟨m, hm, rfl⟩ := h
      exact .escape (ih m hm)
    | case5 a b l ha ih =>
      rw [unstuff_plain ha, Option.map_eq_some_iff] at h
      obtain ⟨m, hm, rfl⟩ := h
      exact .plain ha (ih m hm)
  · intro h
    induction h with
    | nil => rfl
    | plain ha _ ih => rw [unstuff_plain ha, ih, Option.map_some]
    | escape _ ih => rw [unstuff_escape, ih, Option.map_some]

/-- How many escape symbols there are at the end of a list. -/
def trailing (esc : α) (l : List α) : ℕ := (l.reverse.takeWhile (· = esc)).length

theorem trailing_le (l : List α) : trailing esc l ≤ l.length := by
  have h := (List.takeWhile_sublist (· = esc) (l := l.reverse)).length_le
  rwa [List.length_reverse] at h

theorem trailing_cons (a : α) (l : List α) : trailing esc (a :: l) =
    if a = esc ∧ trailing esc l = l.length then trailing esc l + 1 else trailing esc l := by
  unfold trailing
  rw [List.reverse_cons, List.takeWhile_append, List.length_reverse]
  by_cases hall : (l.reverse.takeWhile (· = esc)).length = l.length
  · by_cases ha : a = esc <;> simp [hall, ha]
  · simp [hall]

/-- Two escape symbols in a row are one escaped symbol, so only an odd one at the end has none. -/
theorem unstuff_isSome_iff (l : List α) :
    (unstuff esc decode l).isSome = true ↔ Even (trailing esc l) := by
  induction l using unstuff.induct esc with
  | case1 => simp [unstuff, trailing]
  | case2 => simp [unstuff, trailing]
  | case3 a ha => simp [unstuff, trailing, ha]
  | case4 b l ih =>
    have hle : trailing esc l ≤ l.length := trailing_le l
    rw [unstuff_escape, Option.isSome_map, ih, trailing_cons, trailing_cons, List.length_cons]
    by_cases hb : b = esc ∧ trailing esc l = l.length
    · rw [if_pos hb, if_pos ⟨rfl, by rw [hb.2]⟩, Nat.add_assoc]
      exact (Nat.even_add.trans (iff_of_eq (by simp))).symm
    · rw [if_neg hb, if_neg fun hc => by omega]
  | case5 a b l ha ih =>
    rw [unstuff_plain ha, Option.isSome_map, ih, trailing_cons a, if_neg fun hc => ha hc.1]

end Unstuff

end Framing
