import MyIp.Icmp6.RouterAdvertisement

/-! # The option loop

Where the loop of `process_router_advertisement` (`icmp6.cpp`) comes to in an advertisement of any
bytes. It skips options by the byte behind their type. It stands still at a length of 0, reads behind
the packet if that byte or a part of a prefix is not there, and else ends at a prefix or at the end
of the packet. -/

namespace MyIp.Icmp6
set_option autoImplicit false

open Bytes

/-- From the first place the loop comes to the second one over options that it skips: with a type
other than 3 and a length that is not 0. -/
inductive Skips : List Byte → List Byte → Prop
  | refl (work : List Byte) : Skips work work
  | option {type len : Byte} {rest work : List Byte} (htype : type ≠ 3) (hlen : len ≠ 0)
      (h : Skips ((type :: len :: rest).drop len.toNat) work) : Skips (type :: len :: rest) work

/-- A prefix with all its bytes. -/
def AtPrefix (work : List Byte) : Prop := work.head? = some 3 ∧ 32 ≤ work.length

/-- An option with a length of 0. -/
def AtStandstill (work : List Byte) : Prop :=
  ∃ type rest, work = type :: 0 :: rest ∧ type ≠ 3

/-- A prefix that is cut off, or an option that is only a type. -/
def AtCut (work : List Byte) : Prop :=
  (work.head? = some 3 ∧ work.length < 32) ∨ ∃ type, work = [type] ∧ type ≠ 3

/-- The loop comes to a prefix, or to the end of the packet. -/
def Arrives (payload : List Byte) : Prop :=
  ∃ work, Skips (payload.drop 16) work ∧ (work = [] ∨ AtPrefix work)

/-- All that the loop reads is there: it arrives, or it stands still. -/
def OptionsInside (payload : List Byte) : Prop :=
  ∃ work, Skips (payload.drop 16) work ∧ (work = [] ∨ AtPrefix work ∨ AtStandstill work)

/-! ## One place -/

variable (node : Node)

theorem walk_nil (turns : ℕ) : walk node turns [] = .nothing := by
  cases turns <;> rfl

theorem walk_atPrefix {work : List Byte} {turns : ℕ} (h : AtPrefix work) (hturns : work.length ≤ turns) :
    ∃ call, walk node turns work = .addRouterIpv6 call := by
  obtain ⟨hhead, hlen⟩ := h
  obtain ⟨rest, rfl⟩ := List.head?_eq_some_iff.mp hhead
  obtain ⟨turns, rfl⟩ : ∃ k, turns = k + 1 := ⟨turns - 1, by omega⟩
  exact ⟨_, by rw [walk, if_neg (not_not.mpr rfl), dif_pos hlen]⟩

theorem walk_atStandstill {work : List Byte} {turns : ℕ} (h : AtStandstill work)
    (hturns : work.length ≤ turns) : walk node turns work = .hangs := by
  obtain ⟨type, rest, rfl, htype⟩ := h
  rw [List.length_cons] at hturns
  obtain ⟨turns, rfl⟩ : ∃ k, turns = k + 1 := ⟨turns - 1, by omega⟩
  rw [walk, if_pos htype, List.head?_cons]
  exact if_pos rfl

theorem walk_atCut {work : List Byte} {turns : ℕ} (h : AtCut work) (hturns : work.length ≤ turns) :
    walk node turns work = .outOfBounds := by
  rcases h with ⟨hhead, hlen⟩ | ⟨type, rfl, htype⟩
  · obtain ⟨rest, rfl⟩ := List.head?_eq_some_iff.mp hhead
    rw [List.length_cons] at hturns
    obtain ⟨turns, rfl⟩ : ∃ k, turns = k + 1 := ⟨turns - 1, by omega⟩
    rw [walk, if_neg (not_not.mpr rfl), dif_neg (by omega)]
  · rw [List.length_singleton] at hturns
    obtain ⟨turns, rfl⟩ : ∃ k, turns = k + 1 := ⟨turns - 1, by omega⟩
    rw [walk, if_pos htype]
    rfl

/-! ## The whole way -/

theorem walk_skips {work work' : List Byte} (h : Skips work work') {turns : ℕ}
    (hturns : work.length ≤ turns) :
    ∃ turns', work'.length ≤ turns' ∧ walk node turns work = walk node turns' work' := by
  induction h generalizing turns with
  | refl work => exact ⟨turns, hturns, rfl⟩
  | @option type len rest work htype hlen h ih =>
    rw [List.length_cons, List.length_cons] at hturns
    obtain ⟨turns, rfl⟩ : ∃ k, turns = k + 1 := ⟨turns - 1, by omega⟩
    have hpos : 0 < len.toNat := Nat.pos_of_ne_zero fun hzero => hlen (BitVec.eq_of_toNat_eq hzero)
    obtain ⟨turns', hturns', heq⟩ := @ih turns (by
      rw [List.length_drop, List.length_cons, List.length_cons]
      omega)
    refine ⟨turns', hturns', ?_⟩
    rw [walk, if_pos htype, List.head?_cons, ← heq]
    exact if_neg hlen

theorem exists_skips (work : List Byte) :
    ∃ work', Skips work work' ∧
      (work' = [] ∨ AtPrefix work' ∨ AtStandstill work' ∨ AtCut work') := by
  -- A length that is not 0 makes the rest shorter, even one that is less than the option's own bytes.
  induction hn : work.length using Nat.strong_induction_on generalizing work with
  | _ n ih =>
    match work with
    | [] => exact ⟨[], .refl _, .inl rfl⟩
    | type :: rest =>
      by_cases htype : type = 3
      · subst htype
        refine ⟨_, .refl _, ?_⟩
        rcases Nat.lt_or_ge (3 :: rest).length 32 with hlen | hlen
        · exact .inr (.inr (.inr (.inl ⟨rfl, hlen⟩)))
        · exact .inr (.inl ⟨rfl, hlen⟩)
      · match rest with
        | [] => exact ⟨_, .refl _, .inr (.inr (.inr (.inr ⟨type, rfl, htype⟩)))⟩
        | len :: rest =>
          by_cases hlen : len = 0
          · subst hlen
            exact ⟨_, .refl _, .inr (.inr (.inl ⟨type, rest, rfl, htype⟩))⟩
          · have hpos : 0 < len.toNat :=
              Nat.pos_of_ne_zero fun hzero => hlen (BitVec.eq_of_toNat_eq hzero)
            obtain ⟨work', hskips, hplace⟩ := ih _ (by
              rw [← hn, List.length_drop, List.length_cons]
              omega) ((type :: len :: rest).drop len.toNat) rfl
            exact ⟨work', .option htype hlen hskips, hplace⟩

section Places

variable {work work' : List Byte} {turns : ℕ} (hskips : Skips work work')
  (hturns : work.length ≤ turns)

include hskips hturns

theorem walk_arrives (h : work' = [] ∨ AtPrefix work') :
    walk node turns work = .nothing ∨ ∃ call, walk node turns work = .addRouterIpv6 call := by
  obtain ⟨turns', hturns', heq⟩ := walk_skips node hskips hturns
  rw [heq]
  rcases h with rfl | hprefix
  · exact .inl (walk_nil node turns')
  · exact .inr (walk_atPrefix node hprefix hturns')

theorem walk_standsStill (h : AtStandstill work') : walk node turns work = .hangs := by
  obtain ⟨turns', hturns', heq⟩ := walk_skips node hskips hturns
  rw [heq]
  exact walk_atStandstill node h hturns'

theorem walk_cutOff (h : AtCut work') : walk node turns work = .outOfBounds := by
  obtain ⟨turns', hturns', heq⟩ := walk_skips node hskips hturns
  rw [heq]
  exact walk_atCut node h hturns'

end Places

theorem walk_ne_outOfBounds_iff {payload : List Byte} {turns : ℕ}
    (hturns : (payload.drop 16).length ≤ turns) :
    walk node turns (payload.drop 16) ≠ .outOfBounds ↔ OptionsInside payload := by
  constructor
  · intro h
    obtain ⟨work, hskips, hnil | hprefix | hstill | hcut⟩ := exists_skips (payload.drop 16)
    · exact ⟨work, hskips, .inl hnil⟩
    · exact ⟨work, hskips, .inr (.inl hprefix)⟩
    · exact ⟨work, hskips, .inr (.inr hstill)⟩
    · exact absurd (walk_cutOff node hskips hturns hcut) h
  · rintro ⟨work, hskips, hplace⟩ hout
    rcases or_assoc.mpr hplace with harrived | hstill
    · rcases walk_arrives node hskips hturns harrived with h | ⟨call, h⟩
      · cases h.symm.trans hout
      · cases h.symm.trans hout
    · cases (walk_standsStill node hskips hturns hstill).symm.trans hout

theorem walk_ends_iff {payload : List Byte} {turns : ℕ}
    (hturns : (payload.drop 16).length ≤ turns) :
    (walk node turns (payload.drop 16) ≠ .hangs ∧
        walk node turns (payload.drop 16) ≠ .outOfBounds) ↔ Arrives payload := by
  constructor
  · rintro ⟨hends, hinside⟩
    obtain ⟨work, hskips, hnil | hprefix | hstill | hcut⟩ := exists_skips (payload.drop 16)
    · exact ⟨work, hskips, .inl hnil⟩
    · exact ⟨work, hskips, .inr hprefix⟩
    · exact absurd (walk_standsStill node hskips hturns hstill) hends
    · exact absurd (walk_cutOff node hskips hturns hcut) hinside
  · rintro ⟨work, hskips, harrived⟩
    rcases walk_arrives node hskips hturns harrived with h | ⟨call, h⟩
    all_goals
      rw [h]
      exact ⟨by rintro ⟨⟩, by rintro ⟨⟩⟩

theorem processRouterAdvertisement_inside_iff {payload : List Byte} :
    processRouterAdvertisement node payload ≠ .outOfBounds ↔
      payload.length ≤ 18 ∨ OptionsInside payload := by
  rw [processRouterAdvertisement]
  split
  · rename_i hshort
    exact iff_of_true (by rintro ⟨⟩) (.inl hshort)
  · rename_i hlong
    rw [walk_ne_outOfBounds_iff node (by rw [List.length_drop]; omega)]
    exact ⟨.inr, fun h => h.resolve_left hlong⟩

/-- The loop ends, and reads nothing behind the packet. -/
def EndsInside (payload : List Byte) : Prop :=
  processRouterAdvertisement node payload ≠ .hangs ∧
    processRouterAdvertisement node payload ≠ .outOfBounds

/-- An advertisement is walked to an end inside exactly if it is too short for options, or skipping
options by their bytes of length leads to a complete prefix or to the end of the packet. -/
theorem endsInside_iff (payload : List Byte) :
    EndsInside node payload ↔ payload.length ≤ 18 ∨ Arrives payload := by
  rw [EndsInside, processRouterAdvertisement]
  split
  · rename_i hshort
    exact iff_of_true ⟨by rintro ⟨⟩, by rintro ⟨⟩⟩ (.inl hshort)
  · rename_i hlong
    rw [walk_ends_iff node (by rw [List.length_drop]; omega)]
    exact ⟨.inr, fun h => h.resolve_left hlong⟩

/-- An option of 8 bytes, in units: the loop goes on at its length, which it takes for a type, and
then stands still. An option of which only the type is there. A prefix of which only a part is. -/
theorem not_endsInside :
    processRouterAdvertisement Sample.node
        (134 :: List.replicate 15 0 ++ [1, 1, 0, 0x16, 0x3e, 0, 0, 1]) = .hangs ∧
      processRouterAdvertisement Sample.node
        (134 :: List.replicate 15 0 ++ [1, 2, 1]) = .outOfBounds ∧
      processRouterAdvertisement Sample.node
        (134 :: List.replicate 15 0 ++ [3, 4, 64, 0xc0]) = .outOfBounds ∧
      ¬EndsInside Sample.node
        (134 :: List.replicate 15 0 ++ [1, 1, 0, 0x16, 0x3e, 0, 0, 1]) := by
  have hhangs : processRouterAdvertisement Sample.node
      (134 :: List.replicate 15 0 ++ [1, 1, 0, 0x16, 0x3e, 0, 0, 1]) = .hangs := rfl
  exact ⟨hhangs, rfl, rfl, fun h => h.1 hhangs⟩

end MyIp.Icmp6
