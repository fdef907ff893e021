import MyIp.Snmp.Request

/-! # Where the parser of SNMP requests reads

The functions of `Request` once more, with the bytes cut to those that a call was given: `p` is what
lies, from the pointer on, inside all the elements that the parser has entered. A call that reads
any other byte is `outside`. As long as no call is, the result is that of `Request`
(`processBer_of_confined`).

`process_BER` reads the length of an element without looking whether there is one. `process_PDU`
tests the same length three times while it moves on, and it never compares the varbind list with
the PDU that it is in. `MyIp.Snmp.ReadsInside` says for which datagrams no read is outside. -/

namespace MyIp.Snmp
set_option autoImplicit false

open Bytes CText Net

/-- What becomes of a call: it reads outside, it does not come back from `find_next_oid`, or it
returns. -/
inductive Parsed
  | outside
  | stuck
  | returned (ok : Bool) (req : OidReq)

namespace Parsed

def ofOption : Option (Bool × OidReq) → Parsed
  | none => stuck
  | some (ok, req) => returned ok req

def toOption : Parsed → Option (Bool × OidReq)
  | returned ok req => some (ok, req)
  | _ => none

/-- Goes on if the call has returned. -/
def bind (result : Parsed) (next : Bool → OidReq → Parsed) : Parsed :=
  match result with
  | returned ok req => next ok req
  | other => other

/-- Goes on if the call has not returned `false`. -/
def andThen (result : Parsed) (next : OidReq → Parsed) : Parsed :=
  result.bind fun ok req => if ok then next req else returned false req

end Parsed

/-- The bytes of an element are read as a whole. -/
def withBytes (p : List Byte) (len : ℕ) (next : List Byte → Parsed) : Parsed :=
  match bytesAt p len with
  | none => .outside
  | some body => next body

/-- A call on the bytes of an element is smaller than one on all bytes. -/
theorem lex_take (p : List Byte) (len : ℕ) :
    Prod.Lex (· < ·) (· < ·) ((p.take len).length, 0) (p.length, 1) := by
  rw [List.length_take]
  rcases Nat.lt_or_eq_of_le (Nat.min_le_right len p.length) with hlt | heq
  · exact Prod.Lex.left _ _ hlt
  · rw [heq]
    exact Prod.Lex.right _ Nat.zero_lt_one

mutual

def processBerIn (data : List Node) (isGetnext : Bool) (isTop : ℤ) (p : List Byte) (len : ℕ)
    (req : OidReq) : Parsed :=
  if len < 2 then .returned false req
  else berLoopIn data isGetnext isTop (p.take len) len true true req
termination_by (p.length, 1)
decreasing_by exact lex_take p len

def berLoopIn (data : List Node) (isGetnext : Bool) (isTop : ℤ) (p : List Byte) (left : ℕ)
    (firstInteger firstOctetStr : Bool) (req : OidReq) : Parsed :=
  if left = 0 then .returned true req
  else
    match p with
    | type :: length :: pnt =>
      if left < length.toNat + 2 then .returned false req
      else
        (berElementIn data isGetnext isTop type pnt length.toNat firstInteger firstOctetStr
          req).andThen
          fun req => berLoopIn data isGetnext isTop (pnt.drop length.toNat)
            (left - (length.toNat + 2)) (firstInteger && type != 0x02)
            (firstOctetStr && type != 0x04) req
    | _ => .outside
termination_by (p.length, 0)

def berElementIn (data : List Node) (isGetnext : Bool) (isTop : ℤ) (type : Byte) (pnt : List Byte)
    (length : ℕ) (firstInteger firstOctetStr : Bool) (req : OidReq) : Parsed :=
  if type = 0x02 then
    if isTop ≠ 0 ∧ firstInteger then
      withBytes pnt length fun body =>
        .returned true { req with version := (getInteger body).setWidth 32 }
    else .returned true req
  else if type = 0x04 then
    if isTop ≠ 0 ∧ firstOctetStr then
      withBytes pnt length fun body => .returned true { req with community := body }
    else .returned true req
  else if type = 0x05 then .returned true req
  else if type = 0x06 then
    withBytes pnt length fun body => .ofOption (takeOid data isGetnext body req)
  else if type = 0x30 then processBerIn data isGetnext (isTop - 1) pnt length req
  else if type = 0xa0 then processPduIn data isGetnext pnt length req
  else if type = 0xa1 then processPduIn data true pnt length req
  else if type = 0xa3 then processPduIn data isGetnext pnt length req
  else .returned false req
termination_by (pnt.length, 2)

def processPduIn (data : List Node) (isGetnext : Bool) (p : List Byte) (len : ℕ) (req : OidReq) :
    Parsed :=
  match _h : pduHead (p.take len) len req with
  | none => .outside
  | some (none, req) => .returned false req
  | some (some (typeVbList :: p), req) =>
    if typeVbList ≠ 0x30 then .returned false req
    else
      match p with
      | lenVbList :: p => varbindLoopIn data isGetnext p lenVbList.toNat req
      | [] => .outside
  | some (some [], _) => .outside
termination_by (p.length, 0)
decreasing_by
  have h := pduHead_length _h
  simp only [List.length_cons, List.length_take] at h
  exact Prod.Lex.left _ _ (by omega)

def varbindLoopIn (data : List Node) (isGetnext : Bool) (p : List Byte) (left : ℕ) (req : OidReq) :
    Parsed :=
  if left = 0 then .returned true req
  else
    match p with
    | seqType :: seqLength :: pnt =>
      if left < seqLength.toNat + 2 then .returned false req
      else if seqType = 0x30 then
        (processBerIn data isGetnext 0 pnt seqLength.toNat req).bind fun _ req =>
          varbindLoopIn data isGetnext (pnt.drop seqLength.toNat)
            (left - (seqLength.toNat + 2)) req
      else .returned false req
    | _ => .outside
termination_by (p.length, 0)

end

/-! ## The results are those of the parser -/

namespace Parsed

theorem toOption_ofOption (r : Option (Bool × OidReq)) : (ofOption r).toOption = r := by
  cases r <;> rfl

theorem bind_ne_outside_iff {result : Parsed} {next : Bool → OidReq → Parsed} :
    result.bind next ≠ outside ↔
      result ≠ outside ∧ ∀ ok req, result = returned ok req → next ok req ≠ outside := by
  cases result with
  | outside => simp [bind]
  | stuck => simp [bind]
  | returned ok req =>
    constructor
    · intro h
      refine ⟨Parsed.noConfusion, fun ok' req' he => ?_⟩
      obtain ⟨rfl, rfl⟩ := Parsed.returned.inj he
      exact h
    · exact fun h => h.2 ok req rfl

theorem andThen_ne_outside_iff {result : Parsed} {next : OidReq → Parsed} :
    result.andThen next ≠ outside ↔
      result ≠ outside ∧ ∀ req, result = returned true req → next req ≠ outside := by
  rw [andThen, bind_ne_outside_iff]
  refine and_congr_right fun _ => ⟨fun h req he => ?_, fun h ok req he => ?_⟩
  · have := h true req he
    rwa [if_pos rfl] at this
  · cases ok with
    | true =>
      rw [if_pos rfl]
      exact h req he
    | false => exact fun h' => by cases h'

theorem toOption_bind (result : Parsed) (next : Bool → OidReq → Parsed) :
    (result.bind next).toOption = result.toOption.bind fun r => (next r.1 r.2).toOption := by
  cases result <;> rfl

theorem toOption_andThen (result : Parsed) (next : OidReq → Parsed) :
    (result.andThen next).toOption =
      Snmp.andThen result.toOption fun req => (next req).toOption := by
  cases result with
  | outside => rfl
  | stuck => rfl
  | returned ok req => cases ok <;> rfl

end Parsed

theorem toOption_withBytes {p : List Byte} {len : ℕ} {next : List Byte → Parsed}
    (h : withBytes p len next ≠ .outside) (q : List Byte) :
    (withBytes p len next).toOption =
      (bytesAt (p ++ q) len).bind fun body => (next body).toOption := by
  unfold withBytes bytesAt at h ⊢
  by_cases hlen : len ≤ p.length
  · have hlen' : len ≤ (p ++ q).length := by
      rw [List.length_append]
      omega
    rw [if_pos hlen, if_pos hlen', Option.bind_some, List.take_append_of_le_length hlen]
  · rw [if_neg hlen] at h
    exact absurd rfl h

theorem pduInteger_append {p : List Byte} {len : ℕ} {r : Option (BitVec 64 × List Byte)}
    (h : pduInteger p len = some r) (q : List Byte) :
    pduInteger (p ++ q) len = some (r.map fun x => (x.1, x.2 ++ q)) := by
  unfold pduInteger at h ⊢
  split at h
  · rename_i hlen
    cases h
    rw [if_pos hlen]
    rfl
  · rename_i hlen
    rw [if_neg hlen]
    split at h
    · rename_i pduType pduLength p
      rw [List.cons_append, List.cons_append]
      dsimp only
      split at h
      · rename_i htype
        cases h
        rw [if_pos htype]
        rfl
      · rename_i htype
        obtain ⟨body, hbody, rfl⟩ := Option.map_eq_some_iff.mp h
        obtain ⟨hle, htake⟩ := Option.ite_none_right_eq_some.mp hbody
        have hle' : pduLength.toNat ≤ (p ++ q).length := by
          rw [List.length_append]
          omega
        rw [if_neg htype, bytesAt, if_pos hle', List.take_append_of_le_length hle,
          List.drop_append_of_le_length hle, htake]
        rfl
    · cases h

/-- One of the integers at the front of a PDU, and what comes behind it. -/
def afterInteger (p : List Byte) (len : ℕ) (req : OidReq)
    (next : BitVec 64 → List Byte → Option (Option (List Byte) × OidReq)) :
    Option (Option (List Byte) × OidReq) :=
  match pduInteger p len with
  | none => none
  | some none => some (none, req)
  | some (some (v, p)) => next v p

theorem pduHead_eq (p : List Byte) (len : ℕ) (req : OidReq) :
    pduHead p len req = afterInteger p len req fun reqId p =>
      afterInteger p len { req with reqId := reqId } fun _ p =>
        afterInteger p len { req with reqId := reqId } fun _ p =>
          some (some p, { req with reqId := reqId }) :=
  rfl

theorem afterInteger_append {p q : List Byte} {len : ℕ} {req req' : OidReq}
    {r : Option (List Byte)}
    {next next' : BitVec 64 → List Byte → Option (Option (List Byte) × OidReq)}
    (h : afterInteger p len req next = some (r, req'))
    (hnext : ∀ v p, next v p = some (r, req') →
      next' v (p ++ q) = some (r.map (· ++ q), req')) :
    afterInteger (p ++ q) len req next' = some (r.map (· ++ q), req') := by
  unfold afterInteger at h ⊢
  cases hinteger : pduInteger p len with
  | none => simp [hinteger] at h
  | some found =>
    rw [pduInteger_append hinteger q]
    cases found with
    | none =>
      simp only [hinteger] at h
      cases h
      rfl
    | some v =>
      simp only [hinteger] at h
      exact hnext v.1 v.2 h

theorem pduHead_append {p : List Byte} {len : ℕ} {req req' : OidReq} {r : Option (List Byte)}
    (h : pduHead p len req = some (r, req')) (q : List Byte) :
    pduHead (p ++ q) len req = some (r.map (· ++ q), req') := by
  rw [pduHead_eq] at h ⊢
  refine afterInteger_append h fun reqId p₁ h₁ => ?_
  refine afterInteger_append h₁ fun _ p₂ h₂ => ?_
  refine afterInteger_append h₂ fun _ p₃ h₃ => ?_
  cases h₃
  rfl

section Connected
variable {data : List Node}

/-- What `process_PDU` does behind the three integers. -/
def pduList (data : List Node) (isGetnext : Bool) (req : OidReq) :
    Option (List Byte) → Option (Bool × OidReq)
  | none => some (false, req)
  | some [] => none
  | some [typeVbList] => if typeVbList ≠ 0x30 then some (false, req) else none
  | some (typeVbList :: lenVbList :: p) =>
    if typeVbList ≠ 0x30 then some (false, req)
    else varbindLoop data isGetnext p lenVbList.toNat req

def pduListIn (data : List Node) (isGetnext : Bool) (req : OidReq) : Option (List Byte) → Parsed
  | none => .returned false req
  | some [] => .outside
  | some [typeVbList] => if typeVbList ≠ 0x30 then .returned false req else .outside
  | some (typeVbList :: lenVbList :: p) =>
    if typeVbList ≠ 0x30 then .returned false req
    else varbindLoopIn data isGetnext p lenVbList.toNat req

theorem processPdu_eq (isGetnext : Bool) (p : List Byte) (len : ℕ) (req : OidReq) :
    processPdu data isGetnext p len req =
      (pduHead p len req).bind fun r => pduList data isGetnext r.2 r.1 := by
  unfold processPdu
  split
  · rename_i hhead
    rw [hhead]
    rfl
  · rename_i hhead
    rw [hhead]
    rfl
  · rename_i typeVbList p' req' hhead
    have hlist : (pduHead p len req).bind (fun r => pduList data isGetnext r.2 r.1) =
        pduList data isGetnext req' (some (typeVbList :: p')) := by
      rw [hhead]
      rfl
    rw [hlist]
    cases p' <;> rfl
  · rename_i hhead
    rw [hhead]
    rfl

theorem processPduIn_eq (isGetnext : Bool) (p : List Byte) (len : ℕ) (req : OidReq) :
    processPduIn data isGetnext p len req =
      (pduHead (p.take len) len req).elim .outside
        fun r => pduListIn data isGetnext r.2 r.1 := by
  unfold processPduIn
  split
  · rename_i hhead
    rw [hhead]
    rfl
  · rename_i hhead
    rw [hhead]
    rfl
  · rename_i typeVbList p' req' hhead
    have hlist : (pduHead (p.take len) len req).elim .outside
        (fun r => pduListIn data isGetnext r.2 r.1) =
        pduListIn data isGetnext req' (some (typeVbList :: p')) := by
      rw [hhead]
      rfl
    rw [hlist]
    cases p' <;> rfl
  · rename_i hhead
    rw [hhead]
    rfl

mutual

theorem processBer_of_confined {isGetnext : Bool} {isTop : ℤ} {p : List Byte} {len : ℕ}
    {req : OidReq} (h : processBerIn data isGetnext isTop p len req ≠ .outside) (q : List Byte) :
    processBer data isGetnext isTop (p ++ q) len req =
      (processBerIn data isGetnext isTop p len req).toOption := by
  unfold processBerIn at h ⊢
  unfold processBer
  split
  · rfl
  · rename_i hlen
    rw [if_neg hlen] at h
    have hloop := berLoop_of_confined h (p.drop len ++ q)
    rwa [← List.append_assoc, List.take_append_drop] at hloop
termination_by (p.length, 1)
decreasing_by exact lex_take p len

theorem berLoop_of_confined {isGetnext firstInteger firstOctetStr : Bool} {isTop : ℤ}
    {p : List Byte} {left : ℕ} {req : OidReq}
    (h : berLoopIn data isGetnext isTop p left firstInteger firstOctetStr req ≠ .outside)
    (q : List Byte) :
    berLoop data isGetnext isTop (p ++ q) left firstInteger firstOctetStr req =
      (berLoopIn data isGetnext isTop p left firstInteger firstOctetStr req).toOption := by
  unfold berLoopIn at h ⊢
  unfold berLoop
  split
  · rfl
  · rename_i hleft
    rw [if_neg hleft] at h
    cases p with
    | nil => exact absurd rfl h
    | cons type p =>
      cases p with
      | nil => exact absurd rfl h
      | cons length pnt =>
        rw [List.cons_append, List.cons_append]
        dsimp only at h ⊢
        split
        · rfl
        · rename_i hfit
          rw [if_neg hfit, Parsed.andThen_ne_outside_iff] at h
          rw [Parsed.toOption_andThen, berElement_of_confined h.1 q]
          cases hr : berElementIn data isGetnext isTop type pnt length.toNat firstInteger
              firstOctetStr req with
          | outside => exact absurd hr h.1
          | stuck => rfl
          | returned ok req' =>
            cases ok with
            | false => rfl
            | true =>
              have hrest := berLoop_of_confined (h.2 req' hr) (q.drop (length.toNat - pnt.length))
              rw [← List.drop_append] at hrest
              exact hrest
termination_by (p.length, 0)

theorem berElement_of_confined {isGetnext firstInteger firstOctetStr : Bool} {isTop : ℤ}
    {type : Byte} {pnt : List Byte} {length : ℕ} {req : OidReq}
    (h : berElementIn data isGetnext isTop type pnt length firstInteger firstOctetStr req ≠
      .outside) (q : List Byte) :
    berElement data isGetnext isTop type (pnt ++ q) length firstInteger firstOctetStr req =
      (berElementIn data isGetnext isTop type pnt length firstInteger firstOctetStr
        req).toOption := by
  unfold berElementIn at h ⊢
  unfold berElement
  by_cases h02 : type = 0x02
  · rw [if_pos h02] at h
    rw [if_pos h02, if_pos h02]
    by_cases hfirst : isTop ≠ 0 ∧ firstInteger = true
    · rw [if_pos hfirst] at h
      rw [if_pos hfirst, if_pos hfirst, toOption_withBytes h q, Option.map_eq_bind]
      rfl
    · rw [if_neg hfirst, if_neg hfirst]
      rfl
  rw [if_neg h02] at h
  rw [if_neg h02, if_neg h02]
  by_cases h04 : type = 0x04
  · rw [if_pos h04] at h
    rw [if_pos h04, if_pos h04]
    by_cases hfirst : isTop ≠ 0 ∧ firstOctetStr = true
    · rw [if_pos hfirst] at h
      rw [if_pos hfirst, if_pos hfirst, toOption_withBytes h q, Option.map_eq_bind]
      rfl
    · rw [if_neg hfirst, if_neg hfirst]
      rfl
  rw [if_neg h04] at h
  rw [if_neg h04, if_neg h04]
  by_cases h05 : type = 0x05
  · rw [if_pos h05, if_pos h05]
    rfl
  rw [if_neg h05] at h
  rw [if_neg h05, if_neg h05]
  by_cases h06 : type = 0x06
  · rw [if_pos h06] at h
    rw [if_pos h06, if_pos h06, toOption_withBytes h q]
    simp only [Parsed.toOption_ofOption]
  rw [if_neg h06] at h
  rw [if_neg h06, if_neg h06]
  by_cases h30 : type = 0x30
  · rw [if_pos h30] at h
    rw [if_pos h30, if_pos h30]
    exact processBer_of_confined h q
  rw [if_neg h30] at h
  rw [if_neg h30, if_neg h30]
  by_cases ha0 : type = 0xa0
  · rw [if_pos ha0] at h
    rw [if_pos ha0, if_pos ha0]
    exact processPdu_of_confined h q
  rw [if_neg ha0] at h
  rw [if_neg ha0, if_neg ha0]
  by_cases ha1 : type = 0xa1
  · rw [if_pos ha1] at h
    rw [if_pos ha1, if_pos ha1]
    exact processPdu_of_confined h q
  rw [if_neg ha1] at h
  rw [if_neg ha1, if_neg ha1]
  by_cases ha3 : type = 0xa3
  · rw [if_pos ha3] at h
    rw [if_pos ha3, if_pos ha3]
    exact processPdu_of_confined h q
  · rw [if_neg ha3, if_neg ha3]
    rfl
termination_by (pnt.length, 2)

theorem processPdu_of_confined {isGetnext : Bool} {p : List Byte} {len : ℕ} {req : OidReq}
    (h : processPduIn data isGetnext p len req ≠ .outside) (q : List Byte) :
    processPdu data isGetnext (p ++ q) len req =
      (processPduIn data isGetnext p len req).toOption := by
  rw [processPduIn_eq] at h ⊢
  rw [processPdu_eq]
  cases hhead : pduHead (p.take len) len req with
  | none =>
    rw [hhead] at h
    exact absurd rfl h
  | some r =>
    obtain ⟨rest, req'⟩ := r
    have hwhole := pduHead_append hhead (p.drop len ++ q)
    rw [← List.append_assoc, List.take_append_drop] at hwhole
    rw [hwhole, Option.bind_some, Option.elim_some]
    rw [hhead, Option.elim_some] at h
    dsimp only at h ⊢
    match rest with
    | none => rfl
    | some [] => exact absurd rfl h
    | some [typeVbList] =>
      simp only [pduListIn] at h ⊢
      split at h
      · rename_i htype
        rw [if_pos htype]
        cases p.drop len ++ q <;> exact if_pos htype
      · exact absurd rfl h
    | some (typeVbList :: lenVbList :: vb) =>
      have hlt := pduHead_length hhead
      simp only [pduListIn] at h ⊢
      split at h
      · rename_i htype
        rw [if_pos htype]
        exact if_pos htype
      · rename_i htype
        rw [if_neg htype]
        have hloop := varbindLoop_of_confined h (p.drop len ++ q)
        rw [← hloop]
        exact if_neg htype
termination_by (p.length, 0)
decreasing_by
  simp only [List.length_cons, List.length_take] at hlt
  exact Prod.Lex.left _ _ (by omega)

theorem varbindLoop_of_confined {isGetnext : Bool} {p : List Byte} {left : ℕ} {req : OidReq}
    (h : varbindLoopIn data isGetnext p left req ≠ .outside) (q : List Byte) :
    varbindLoop data isGetnext (p ++ q) left req =
      (varbindLoopIn data isGetnext p left req).toOption := by
  unfold varbindLoopIn at h ⊢
  unfold varbindLoop
  split
  · rfl
  · rename_i hleft
    rw [if_neg hleft] at h
    cases p with
    | nil => exact absurd rfl h
    | cons seqType p =>
      cases p with
      | nil => exact absurd rfl h
      | cons seqLength pnt =>
        rw [List.cons_append, List.cons_append]
        dsimp only at h ⊢
        split
        · rfl
        · rename_i hfit
          rw [if_neg hfit] at h
          split
          · rename_i htype
            rw [if_pos htype, Parsed.bind_ne_outside_iff] at h
            rw [Parsed.toOption_bind, processBer_of_confined h.1 q]
            cases hr : processBerIn data isGetnext 0 pnt seqLength.toNat req with
            | outside => exact absurd hr h.1
            | stuck => rfl
            | returned ok req' =>
              have hrest := varbindLoop_of_confined (h.2 ok req' hr)
                (q.drop (seqLength.toNat - pnt.length))
              rw [← List.drop_append] at hrest
              exact hrest
          · rfl
termination_by (p.length, 0)

end

end Connected

end MyIp.Snmp
