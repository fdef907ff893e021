import MyIp.Snmp.Confined
import MyIp.Snmp.Positions
import MyIp.Snmp.Walk

/-! # Requests that are read inside their elements

The parser comes to the positions that `MyIp.Snmp.Positions` tells from the bytes, and reads outside
exactly if one of them does not fit. Each of its functions `Follows` what the bytes say: it reads
inside if its positions fit, and it is left with `true` where they have the element taken. -/

namespace MyIp.Snmp
set_option autoImplicit false

open Bytes CText Net

/-- What is read for positions that fit, and what is taken. In a tree with a node the parser always
comes back. -/
structure Follows (data : List Node) (result : Parsed) (fits taken : Prop) : Prop where
  inside : fits → result ≠ .outside
  accepted : ∀ req, result = .returned true req → taken
  returned : data ≠ [] → result ≠ .outside →
    fits ∧ ∃ ok req, result = .returned ok req ∧ (taken → ok = true)

namespace Follows

variable {data : List Node} {result : Parsed} {fits fits' taken taken' : Prop}

theorem of_returned {ok : Bool} (req : OidReq) (hfits : fits) (htaken : ok = true ↔ taken) :
    Follows data (.returned ok req) fits taken where
  inside _ := Parsed.noConfusion
  accepted _ h := htaken.1 (Parsed.returned.inj h).1
  returned _ _ := ⟨hfits, ok, req, rfl, htaken.2⟩

theorem of_outside (h : ¬fits) : Follows data .outside fits taken where
  inside hfits := absurd hfits h
  accepted _ h := Parsed.noConfusion h
  returned _ h := absurd rfl h

theorem congr (h : Follows data result fits taken) (hfits : fits ↔ fits') (htaken : taken ↔ taken') :
    Follows data result fits' taken' := by
  rwa [← hfits, ← htaken]

theorem andThen {next : OidReq → Parsed} (h : Follows data result fits taken)
    (hnext : ∀ req, Follows data (next req) fits' taken') :
    Follows data (result.andThen next) (fits ∧ (taken → fits')) (taken ∧ taken') where
  inside := by
    rintro ⟨hfits, hbehind⟩
    refine Parsed.andThen_ne_outside_iff.2 ⟨h.inside hfits, fun req hreq => ?_⟩
    exact (hnext req).inside (hbehind (h.accepted req hreq))
  accepted req' hreq' := by
    cases result with
    | outside => exact Parsed.noConfusion hreq'
    | stuck => exact Parsed.noConfusion hreq'
    | returned ok req =>
      cases ok with
      | false => exact absurd (Parsed.returned.inj hreq').1 (by decide)
      | true => exact ⟨h.accepted req rfl, (hnext req).accepted req' hreq'⟩
  returned hdata hinside := by
    obtain ⟨hresult, hbehind⟩ := Parsed.andThen_ne_outside_iff.1 hinside
    obtain ⟨hfits, ok, req, rfl, hok⟩ := h.returned hdata hresult
    cases ok with
    | false =>
      exact ⟨⟨hfits, fun htaken => absurd (hok htaken) (by decide)⟩, false, req, rfl,
        fun htaken => hok htaken.1⟩
    | true =>
      obtain ⟨hfits', ok', req', hreq', hok'⟩ := (hnext req).returned hdata (hbehind req rfl)
      exact ⟨⟨hfits, fun _ => hfits'⟩, ok', req', hreq', fun htaken => hok' htaken.2⟩

theorem bind {next : OidReq → Parsed} (h : Follows data result fits taken)
    (hnext : ∀ req, Follows data (next req) fits' taken') :
    Follows data (result.bind fun _ req => next req) (fits ∧ fits') taken' where
  inside := by
    rintro ⟨hfits, hbehind⟩
    exact Parsed.bind_ne_outside_iff.2 ⟨h.inside hfits, fun _ req _ => (hnext req).inside hbehind⟩
  accepted req' hreq' := by
    cases result with
    | outside => exact Parsed.noConfusion hreq'
    | stuck => exact Parsed.noConfusion hreq'
    | returned ok req => exact (hnext req).accepted req' hreq'
  returned hdata hinside := by
    obtain ⟨hresult, hbehind⟩ := Parsed.bind_ne_outside_iff.1 hinside
    obtain ⟨hfits, ok, req, rfl, -⟩ := h.returned hdata hresult
    obtain ⟨hfits', ok', req', hreq', hok'⟩ := (hnext req).returned hdata (hbehind ok req rfl)
    exact ⟨⟨hfits, hfits'⟩, ok', req', hreq', hok'⟩

theorem withBytes {p : List Byte} {len : ℕ} {next : List Byte → Parsed}
    (h : Follows data (next (p.take len)) True taken) :
    Follows data (withBytes p len next) (len ≤ p.length) taken := by
  rw [Snmp.withBytes, bytesAt]
  by_cases hlen : len ≤ p.length
  · rw [if_pos hlen]
    exact h.congr (by simp [hlen]) Iff.rfl
  · rw [if_neg hlen]
    exact of_outside hlen

end Follows

/-! ## Object identifiers -/

theorem getOidFrom_fst {i : ℕ} (acc : ℕ) (out : Text) (bs : List Byte) :
    (getOidFrom i (BitVec.ofNat 32 acc) out bs).1 =
      BitVec.ofNat 32 (Base128.unfinished acc bs) := by
  induction bs generalizing i acc out with
  | nil => rfl
  | cons b bs ih =>
    rw [getOidFrom, Base128.unfinished]
    by_cases hb : b.toNat < 128
    · rw [if_pos hb, if_pos hb]
      dsimp only
      split
      · exact ih 0 _
      · exact ih 0 _
    · rw [if_neg hb, if_neg hb, Base128.shift_or_high hb]
      exact ih _ out

theorem getOid_fst_iff (body : List Byte) : (getOid body).1 = true ↔ OidEnds body := by
  have hv : (getOidFrom 0 0 [] body).1 = BitVec.ofNat 32 (Base128.unfinished 0 body) :=
    getOidFrom_fst 0 [] body
  rw [getOid]
  simp only [decide_eq_true_eq, hv, OidEnds]
  constructor
  · intro h
    simpa using congrArg BitVec.toNat h
  · intro h
    apply BitVec.eq_of_toNat_eq
    rw [BitVec.toNat_ofNat, h]
    rfl

theorem takeOid_follows (data : List Node) (isGetnext : Bool) (body : List Byte) (req : OidReq) :
    Follows data (.ofOption (takeOid data isGetnext body req)) True (OidEnds body) := by
  rw [← getOid_fst_iff, takeOid]
  obtain ⟨ok, oidOut⟩ := getOid body
  dsimp only
  cases ok with
  | false => exact .of_returned req trivial Iff.rfl
  | true =>
    cases isGetnext with
    | false => exact .of_returned _ trivial Iff.rfl
    | true =>
      cases hnext : findNextOid data oidOut with
      | none =>
        constructor
        · exact fun _ => Parsed.noConfusion
        · exact fun _ _ => rfl
        · exact fun hdata => absurd hnext (findNextOid_ne_none hdata oidOut)
      | some oidNext =>
        cases oidNext with
        | nil => exact .of_returned _ trivial Iff.rfl
        | cons c oidNext => exact .of_returned _ trivial Iff.rfl

/-! ## PDUs -/

section Pdu

variable {data : List Node} {isGetnext : Bool} {len : ℕ} {p : List Byte} {req : OidReq}

theorem pduInteger_cases (hlen : 2 ≤ len) :
    (p.length < 2 ∧ pduInteger p len = none) ∨ ∃ type length rest, p = type :: length :: rest ∧
      (type ≠ 0x02 ∧ pduInteger p len = some none ∨
        type = 0x02 ∧ (length.toNat ≤ rest.length ∧
          pduInteger p len = some (some (getInteger (rest.take length.toNat),
            rest.drop length.toNat)) ∨
          rest.length < length.toNat ∧ pduInteger p len = none)) := by
  unfold pduInteger
  rw [if_neg (by omega)]
  match p with
  | [] => exact .inl ⟨by simp, rfl⟩
  | [_] => exact .inl ⟨by simp, rfl⟩
  | type :: length :: rest =>
    refine .inr ⟨type, length, rest, rfl, ?_⟩
    by_cases htype : type = 0x02
    · refine .inr ⟨htype, ?_⟩
      by_cases hle : length.toNat ≤ rest.length
      · exact .inl ⟨hle, by simp [htype, bytesAt, hle]⟩
      · exact .inr ⟨not_le.1 hle, by simp [htype, bytesAt, hle]⟩
    · exact .inl ⟨htype, if_pos htype⟩

theorem integer_follows {integers : ℕ}
    {next : BitVec 64 → List Byte → Option (Option (List Byte) × OidReq)}
    (hnext : ∀ v p', p'.length < p.length →
      Follows data ((next v p').elim .outside fun r => pduListIn data isGetnext r.2 r.1)
        (Position.pdu integers len p').AllFit (PduTaken (.pdu integers len p'))) :
    Follows data
      ((afterInteger p len req next).elim .outside fun r => pduListIn data isGetnext r.2 r.1)
      (Position.pdu (integers + 1) len p).AllFit (PduTaken (.pdu (integers + 1) len p)) := by
  unfold afterInteger
  by_cases hlen : 2 ≤ len
  · obtain ⟨hshort, hnone⟩ | ⟨type, length, rest, rfl, h⟩ := pduInteger_cases (p := p) hlen
    · rw [hnone]
      refine .of_outside fun hfit => ?_
      obtain ⟨type, length, rest, rfl, -⟩ := (allFit_pdu_iff hlen).1 hfit
      simp at hshort
    · have hfits : (Position.pdu (integers + 1) len (type :: length :: rest)).AllFit ↔
          (type = 0x02 → length.toNat ≤ rest.length ∧
            (Position.pdu integers len (rest.drop length.toNat)).AllFit) := by
        simp [allFit_pdu_iff hlen]
      have htaken : PduTaken (.pdu (integers + 1) len (type :: length :: rest)) ↔
          type = 0x02 ∧ length.toNat ≤ rest.length ∧
            PduTaken (.pdu integers len (rest.drop length.toNat)) := by
        simp [pduTaken_pdu_iff, hlen]
      obtain ⟨htype, hnone⟩ | ⟨htype, ⟨hle, hsome⟩ | ⟨hlt, hnone⟩⟩ := h
      · rw [hnone]
        refine .of_returned req (hfits.2 fun h => absurd h htype) ?_
        exact iff_of_false (by decide) fun h => htype (htaken.1 h).1
      · rw [hsome]
        refine (hnext _ _ ?_).congr ?_ ?_
        · rw [List.length_drop, List.length_cons, List.length_cons]
          omega
        · rw [hfits, imp_iff_right htype, and_iff_right hle]
        · rw [htaken, and_iff_right htype, and_iff_right hle]
      · rw [hnone]
        exact .of_outside fun hfit => absurd (hfits.1 hfit htype).1 (not_le.2 hlt)
  · have hnone : pduInteger p len = some none := if_pos (not_le.1 hlen)
    rw [hnone]
    refine .of_returned req (allFit_pdu_short (not_le.1 hlen)) ?_
    exact iff_of_false (by decide) fun h => hlen (pduTaken_pdu_iff.1 h).1

theorem list_follows
    (hvarbinds : ∀ left (vb : List Byte), vb.length < p.length →
      Follows data (varbindLoopIn data isGetnext vb left req) (Position.varbinds left vb).AllFit
        (PduTaken (.varbinds left vb))) :
    Follows data (pduListIn data isGetnext req (some p)) (Position.pdu 0 len p).AllFit
      (PduTaken (.pdu 0 len p)) := by
  match p with
  | [] => exact .of_outside (by simp [allFit_list_iff])
  | [type] =>
    have hfits : (Position.pdu 0 len [type]).AllFit ↔ type ≠ 0x30 := by simp [allFit_list_iff]
    rw [pduListIn]
    by_cases htype : type = 0x30
    · rw [if_neg (not_not.2 htype)]
      exact .of_outside fun h => hfits.1 h htype
    · rw [if_pos htype]
      refine .of_returned req (hfits.2 htype) ?_
      exact iff_of_false (by decide) (by simp [pduTaken_list_iff])
  | type :: length :: vb =>
    have hfits : (Position.pdu 0 len (type :: length :: vb)).AllFit ↔
        (type = 0x30 → (Position.varbinds length.toNat vb).AllFit) := by simp [allFit_list_iff]
    have htaken : PduTaken (.pdu 0 len (type :: length :: vb)) ↔
        type = 0x30 ∧ PduTaken (.varbinds length.toNat vb) := by simp [pduTaken_list_iff]
    rw [pduListIn]
    by_cases htype : type = 0x30
    · rw [if_neg (not_not.2 htype)]
      refine (hvarbinds length.toNat vb (by simp)).congr ?_ ?_
      · rw [hfits, imp_iff_right htype]
      · rw [htaken, and_iff_right htype]
    · rw [if_pos htype]
      refine .of_returned req (hfits.2 fun h => absurd h htype) ?_
      exact iff_of_false (by decide) fun h => htype (htaken.1 h).1

/-- The three integers, the header of the list and the varbinds. -/
theorem processPduIn_follows
    (hvarbinds : ∀ left (vb : List Byte) req, vb.length < p.length →
      Follows data (varbindLoopIn data isGetnext vb left req) (Position.varbinds left vb).AllFit
        (PduTaken (.varbinds left vb))) :
    Follows data (processPduIn data isGetnext p len req) (Position.pdu 3 len (p.take len)).AllFit
      (PduTaken (.pdu 3 len (p.take len))) := by
  rw [processPduIn_eq, pduHead_eq]
  refine integer_follows fun reqId p₁ h₁ => ?_
  refine integer_follows fun _ p₂ h₂ => ?_
  refine integer_follows fun _ p₃ h₃ => ?_
  refine list_follows fun left vb hvb => hvarbinds left vb _ ?_
  rw [List.length_take] at h₁
  omega

end Pdu

/-! ## Elements -/

section Elements

variable {data : List Node}

/-- A type that has no content of its own is taken. -/
theorem plain_follows {isTop : ℤ} {firstInteger firstOctetStr : Bool} {type : Byte}
    (htype : type = 0x02 ∨ type = 0x04 ∨ type = 0x05) (length : ℕ) (rest : List Byte)
    {result : Parsed}
    (h : Follows data result (ReadsContent isTop firstInteger firstOctetStr type →
      length ≤ rest.length) True) :
    Follows data result (ContentFits isTop firstInteger firstOctetStr type length rest)
      (Taken type length rest) := by
  have h30 : type ≠ 0x30 := by obtain rfl | rfl | rfl := htype <;> decide
  have hpdu : ¬IsPdu type := by obtain rfl | rfl | rfl := htype <;> simp [IsPdu]
  refine h.congr (contentFits_plain isTop firstInteger firstOctetStr h30 hpdu length rest).symm ?_
  exact iff_of_true trivial (.plain length rest htype)

mutual

theorem processBerIn_follows (isGetnext : Bool) (isTop : ℤ) (p : List Byte) (len : ℕ)
    (req : OidReq) :
    Follows data (processBerIn data isGetnext isTop p len req)
      (2 ≤ len → (Position.elements isTop true true len (p.take len)).AllFit)
      (2 ≤ len ∧ AllTaken len (p.take len)) := by
  unfold processBerIn
  by_cases hlen : len < 2
  · rw [if_pos hlen]
    refine .of_returned req (fun h => absurd hlen (not_lt.2 h)) ?_
    exact iff_of_false (by decide) fun h => absurd hlen (not_lt.2 h.1)
  · rw [if_neg hlen]
    refine (berLoopIn_follows isGetnext isTop (p.take len) len true true req).congr ?_ ?_
    · rw [imp_iff_right (not_lt.1 hlen)]
    · rw [and_iff_right (not_lt.1 hlen)]
termination_by (p.length, 1)
decreasing_by exact lex_take p len

theorem berLoopIn_follows (isGetnext : Bool) (isTop : ℤ) (p : List Byte) (left : ℕ)
    (firstInteger firstOctetStr : Bool) (req : OidReq) :
    Follows data (berLoopIn data isGetnext isTop p left firstInteger firstOctetStr req)
      (Position.elements isTop firstInteger firstOctetStr left p).AllFit (AllTaken left p) := by
  unfold berLoopIn
  by_cases hleft : left = 0
  · subst hleft
    rw [if_pos rfl]
    exact .of_returned req (allFit_elements_zero _ _ _ _) (iff_of_true rfl (.done p))
  rw [if_neg hleft]
  match p with
  | [] => exact .of_outside fun h => absurd (length_of_allFit_elements h hleft) (by simp)
  | [_] => exact .of_outside fun h => absurd (length_of_allFit_elements h hleft) (by simp)
  | type :: length :: rest =>
    have htaken : AllTaken left (type :: length :: rest) ↔ length.toNat + 2 ≤ left ∧
        Taken type length.toNat rest ∧
          AllTaken (left - (length.toNat + 2)) (rest.drop length.toNat) := by
      simp [allTaken_iff hleft]
    dsimp only
    by_cases hle : left < length.toNat + 2
    · rw [if_pos hle]
      refine .of_returned req (allFit_elements_refused _ _ _ _ _ hle) ?_
      exact iff_of_false (by decide) fun h => absurd hle (not_lt.2 (htaken.1 h).1)
    · rw [if_neg hle]
      refine (Follows.andThen (berElementIn_follows isGetnext isTop type rest length.toNat
        firstInteger firstOctetStr req) fun req' => berLoopIn_follows isGetnext isTop
          (rest.drop length.toNat) (left - (length.toNat + 2)) (firstInteger && type != 0x02)
            (firstOctetStr && type != 0x04) req').congr ?_ ?_
      · exact (allFit_elements_iff (not_lt.1 hle)).symm
      · rw [htaken, and_iff_right (not_lt.1 hle)]
termination_by (p.length, 0)

theorem berElementIn_follows (isGetnext : Bool) (isTop : ℤ) (type : Byte) (rest : List Byte)
    (length : ℕ) (firstInteger firstOctetStr : Bool) (req : OidReq) :
    Follows data
      (berElementIn data isGetnext isTop type rest length firstInteger firstOctetStr req)
      (ContentFits isTop firstInteger firstOctetStr type length rest) (Taken type length rest) := by
  have hpdu : ∀ isGetnext', IsPdu type → Follows data
      (processPduIn data isGetnext' rest length req)
      (ContentFits isTop firstInteger firstOctetStr type length rest) (Taken type length rest) := by
    intro isGetnext' htype
    refine (processPduIn_follows fun left vb req' hvb =>
      varbindLoopIn_follows isGetnext' vb left req').congr
        (contentFits_pdu isTop firstInteger firstOctetStr htype length rest).symm ?_
    rw [taken_iff]
    obtain rfl | rfl | rfl := htype <;> simp [IsPdu]
  unfold berElementIn
  by_cases h02 : type = 0x02
  · rw [if_pos h02]
    refine plain_follows (.inl h02) length rest ?_
    by_cases hfirst : isTop ≠ 0 ∧ firstInteger = true
    · rw [if_pos hfirst]
      refine Follows.congr (.withBytes (.of_returned _ trivial (by simp))) ?_ Iff.rfl
      simp [ReadsContent, h02, hfirst]
    · rw [if_neg hfirst]
      refine .of_returned req (fun h => absurd ?_ hfirst) (by simp)
      simpa [ReadsContent, h02] using h
  rw [if_neg h02]
  by_cases h04 : type = 0x04
  · rw [if_pos h04]
    refine plain_follows (.inr (.inl h04)) length rest ?_
    by_cases hfirst : isTop ≠ 0 ∧ firstOctetStr = true
    · rw [if_pos hfirst]
      refine Follows.congr (.withBytes (.of_returned _ trivial (by simp))) ?_ Iff.rfl
      simp [ReadsContent, h04, hfirst]
    · rw [if_neg hfirst]
      refine .of_returned req (fun h => absurd ?_ hfirst) (by simp)
      simpa [ReadsContent, h04] using h
  rw [if_neg h04]
  by_cases h05 : type = 0x05
  · rw [if_pos h05]
    refine plain_follows (.inr (.inr h05)) length rest ?_
    exact .of_returned req (fun h => by simp [ReadsContent, h05] at h) (by simp)
  rw [if_neg h05]
  by_cases h06 : type = 0x06
  · subst h06
    rw [if_pos rfl]
    refine Follows.congr (.withBytes (takeOid_follows data isGetnext _ req)) ?_ ?_
    · simp [contentFits_plain, ReadsContent, IsPdu]
    · simp [taken_iff, IsPdu]
  rw [if_neg h06]
  by_cases h30 : type = 0x30
  · subst h30
    rw [if_pos rfl]
    refine (processBerIn_follows isGetnext (isTop - 1) rest length req).congr
      (contentFits_sequence isTop firstInteger firstOctetStr length rest).symm ?_
    simp [taken_iff, IsPdu]
  rw [if_neg h30]
  by_cases ha0 : type = 0xa0
  · rw [if_pos ha0]
    exact hpdu isGetnext (.inl ha0)
  rw [if_neg ha0]
  by_cases ha1 : type = 0xa1
  · rw [if_pos ha1]
    exact hpdu true (.inr (.inl ha1))
  rw [if_neg ha1]
  by_cases ha3 : type = 0xa3
  · rw [if_pos ha3]
    exact hpdu isGetnext (.inr (.inr ha3))
  · rw [if_neg ha3]
    have hother : ¬IsPdu type := by
      simp only [IsPdu, ha0, ha1, ha3, or_self, not_false_eq_true]
    have hnone : ¬ReadsContent isTop firstInteger firstOctetStr type := by
      simp only [ReadsContent, h02, h04, h06, false_and, or_self, not_false_eq_true]
    refine .of_returned req ?_ (iff_of_false (by decide) ?_)
    · exact (contentFits_plain _ _ _ h30 hother _ _).2 fun h => absurd h hnone
    · simp only [taken_iff, h02, h04, h05, h06, h30, hother, false_and, or_self,
        not_false_eq_true]
termination_by (rest.length, 2)

theorem varbindLoopIn_follows (isGetnext : Bool) (p : List Byte) (left : ℕ) (req : OidReq) :
    Follows data (varbindLoopIn data isGetnext p left req) (Position.varbinds left p).AllFit
      (PduTaken (.varbinds left p)) := by
  unfold varbindLoopIn
  by_cases hleft : left = 0
  · subst hleft
    rw [if_pos rfl]
    exact .of_returned req (allFit_varbinds_zero p) (iff_of_true rfl ⟨p, .refl⟩)
  rw [if_neg hleft]
  match p with
  | [] => exact .of_outside fun h => absurd (length_of_allFit_varbinds h hleft) (by simp)
  | [_] => exact .of_outside fun h => absurd (length_of_allFit_varbinds h hleft) (by simp)
  | type :: length :: rest =>
    have htaken : PduTaken (.varbinds left (type :: length :: rest)) ↔ type = 0x30 ∧
        length.toNat + 2 ≤ left ∧
          PduTaken (.varbinds (left - (length.toNat + 2)) (rest.drop length.toNat)) := by
      simp [pduTaken_varbinds_iff hleft]
    dsimp only
    by_cases hle : left < length.toNat + 2
    · rw [if_pos hle]
      refine .of_returned req (allFit_varbinds_refused rest (.inl hle)) ?_
      exact iff_of_false (by decide) fun h => absurd hle (not_lt.2 (htaken.1 h).2.1)
    rw [if_neg hle]
    by_cases htype : type = 0x30
    · subst htype
      rw [if_pos rfl]
      -- what comes of the content is not looked at
      refine (Follows.bind (processBerIn_follows isGetnext 0 rest length.toNat req) fun req' =>
        varbindLoopIn_follows isGetnext (rest.drop length.toNat) (left - (length.toNat + 2))
          req').congr (allFit_varbinds_iff (not_lt.1 hle)).symm ?_
      rw [htaken, and_iff_right rfl, and_iff_right (not_lt.1 hle)]
    · rw [if_neg htype]
      refine .of_returned req (allFit_varbinds_refused rest (.inr htype)) ?_
      exact iff_of_false (by decide) fun h => htype (htaken.1 h).1
termination_by (p.length, 0)

end

end Elements

/-! ## Datagrams -/

/-- What `snmp::input` does with a datagram: an empty one is not parsed. -/
def inputIn (data : List Node) (datagram : List Byte) : Parsed :=
  if datagram.length = 0 then .returned false OidReq.new
  else processBerIn data false 2 datagram datagram.length OidReq.new

theorem comes_fits_iff (datagram : List Byte) :
    (∀ p, Comes datagram p → p.Fits) ↔ (2 ≤ datagram.length →
      (Position.elements 2 true true datagram.length
        (datagram.take datagram.length)).AllFit) := by
  rw [List.take_length]
  exact ⟨fun h hlength p hp => h p ⟨hlength, hp⟩, fun h p hp => h hp.1 p hp.2⟩

/-- All reads are inside the datagram and the elements if and only if all positions that the bytes tell
fit; and then nothing depends on the bytes behind the datagram. The tree has a node, as it has in the
program before it gets the first datagram. -/
theorem request_reads_inside_iff {data : List Node} (hdata : data ≠ []) (datagram : List Byte) :
    (inputIn data datagram ≠ .outside ↔ ∀ p, Comes datagram p → p.Fits) ∧
    ((∀ p, Comes datagram p → p.Fits) → ∀ behind : List Byte,
      processBer data false 2 (datagram ++ behind) datagram.length OidReq.new =
        (processBerIn data false 2 datagram datagram.length OidReq.new).toOption) := by
  rw [comes_fits_iff]
  have hfollows : Follows data _ _ _ :=
    processBerIn_follows false 2 datagram datagram.length OidReq.new
  refine ⟨?_, fun h => processBer_of_confined (hfollows.inside h)⟩
  rw [inputIn]
  split_ifs with hempty
  · exact iff_of_true Parsed.noConfusion fun h => by omega
  · exact ⟨fun h => (hfollows.returned hdata h).1, hfollows.inside⟩

namespace Sample

/-- A tree with one name. -/
def oneName : List Node :=
  registerOid [] "1.3.6.1.2.1.1.2.0".toList (.oid "1.3.6.1.4.1.57850.1".toList)

/-- A GET request of version 1 for an empty list. -/
def emptyGet : List Byte :=
  [0x30, 0x12, 0x02, 0x01, 0x00, 0x04, 0x00, 0xa0, 0x0b, 0x02, 0x01, 0x07, 0x02, 0x01, 0x00, 0x02,
    0x01, 0x00, 0x30, 0x00]

end Sample

theorem request_reads_inside_emptyGet :
    (inputIn Sample.oneName Sample.emptyGet ≠ .outside ↔
      ∀ p, Comes Sample.emptyGet p → p.Fits) ∧
    ((∀ p, Comes Sample.emptyGet p → p.Fits) → ∀ behind : List Byte,
      processBer Sample.oneName false 2 (Sample.emptyGet ++ behind) Sample.emptyGet.length
        OidReq.new = (processBerIn Sample.oneName false 2 Sample.emptyGet Sample.emptyGet.length
          OidReq.new).toOption) :=
  request_reads_inside_iff (by decide +kernel) Sample.emptyGet

/-- A type without a length behind the last element; a PDU whose integer is longer than the PDU; and
a varbind list that is longer than its PDU, with the rest of it behind the datagram. -/
theorem request_reads_outside :
    inputIn Sample.oneName [0x05, 0x00, 0x05] = .outside ∧
      inputIn Sample.oneName [0xa0, 0x02, 0x02, 0x7f] = .outside ∧
      inputIn Sample.oneName [0xa0, 0x08, 0x02, 0x00, 0x02, 0x00, 0x02, 0x00, 0x30, 0x04] =
        .outside := by
  refine ⟨?_, ?_, ?_⟩
  · simp [inputIn, processBerIn, berLoopIn, berElementIn, Parsed.andThen, Parsed.bind]
  · simp [inputIn, processBerIn, berLoopIn, berElementIn, Parsed.andThen, Parsed.bind,
      processPduIn_eq, pduHead, pduInteger, bytesAt]
  · simp [inputIn, processBerIn, berLoopIn, berElementIn, Parsed.andThen, Parsed.bind,
      processPduIn_eq, pduHead, pduInteger, bytesAt, pduListIn, varbindLoopIn]

end MyIp.Snmp
