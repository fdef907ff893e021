import MyIp.Foundations.Base128
import Mathlib.Logic.Relation
import Mathlib.Tactic

/-! # The elements of an SNMP request

The positions that a reader of a request comes to, told from the bytes: the elements one after the
other, what is in sequences and PDUs, and the varbinds. A position is `Fits` if what is looked at there
lies inside all elements around it; `Comes` says at which positions a datagram is looked at. -/

namespace MyIp.Snmp
set_option autoImplicit false

open Bytes

/-- A position, with the bytes from it on that lie inside all elements around it. `left` is how many
there should be, `integers` how many are still to come in front of the varbind list. -/
inductive Position
  | elements (isTop : ℤ) (firstInteger firstOctetStr : Bool) (left : ℕ) (bytes : List Byte)
  | pdu (integers : ℕ) (len : ℕ) (bytes : List Byte)
  | varbinds (left : ℕ) (bytes : List Byte)

/-- GetRequest, GetNextRequest and SetRequest. -/
def IsPdu (type : Byte) : Prop := type = 0xa0 ∨ type = 0xa1 ∨ type = 0xa3

/-- The content of an element is looked at as a whole: the first integer and the first string at the
top, and all object identifiers. -/
def ReadsContent (isTop : ℤ) (firstInteger firstOctetStr : Bool) (type : Byte) : Prop :=
  type = 0x02 ∧ isTop ≠ 0 ∧ firstInteger = true ∨ type = 0x04 ∧ isTop ≠ 0 ∧ firstOctetStr = true ∨
    type = 0x06

/-- A type and a length, and their content if it is looked at. -/
def Position.Fits : Position → Prop
  | elements isTop firstInteger firstOctetStr left bytes => left ≠ 0 →
    ∃ type length rest, bytes = type :: length :: rest ∧ (length.toNat + 2 ≤ left →
      ReadsContent isTop firstInteger firstOctetStr type → length.toNat ≤ rest.length)
  | pdu 0 _ bytes => ∃ type rest, bytes = type :: rest ∧ (type = 0x30 → rest ≠ [])
  | pdu (_ + 1) len bytes => 2 ≤ len →
    ∃ type length rest, bytes = type :: length :: rest ∧
      (type = 0x02 → length.toNat ≤ rest.length)
  | varbinds left bytes => left ≠ 0 → 2 ≤ bytes.length

/-! ## Which positions come behind each other -/

/-- From the integers of a PDU to the varbind list, and from each varbind to the one behind it. -/
inductive PduLeads : Position → Position → Prop
  | integer (integers : ℕ) {len : ℕ} {length : Byte} {rest : List Byte} (hlen : 2 ≤ len)
      (hlength : length.toNat ≤ rest.length) :
      PduLeads (.pdu (integers + 1) len (0x02 :: length :: rest))
        (.pdu integers len (rest.drop length.toNat))
  | list (len : ℕ) (length : Byte) (rest : List Byte) :
      PduLeads (.pdu 0 len (0x30 :: length :: rest)) (.varbinds length.toNat rest)
  | varbind {left : ℕ} {length : Byte} (rest : List Byte) (hleft : length.toNat + 2 ≤ left) :
      PduLeads (.varbinds left (0x30 :: length :: rest))
        (.varbinds (left - (length.toNat + 2)) (rest.drop length.toNat))

/-- The end of the varbind list is reached. -/
def PduTaken (p : Position) : Prop :=
  ∃ bytes, Relation.ReflTransGen PduLeads p (.varbinds 0 bytes)

/-- An object identifier that ends with a complete number, as far as 32 bits tell. -/
def OidEnds (body : List Byte) : Prop := Base128.unfinished 0 body % 2 ^ 32 = 0

mutual

/-- An element of `length` bytes that is taken, so that the one behind it is looked at. -/
inductive Taken : Byte → ℕ → List Byte → Prop
  | plain {type : Byte} (length : ℕ) (rest : List Byte)
      (htype : type = 0x02 ∨ type = 0x04 ∨ type = 0x05) : Taken type length rest
  | objectId {length : ℕ} {rest : List Byte} (hends : OidEnds (rest.take length)) :
      Taken 0x06 length rest
  | sequence {length : ℕ} {rest : List Byte} (hlength : 2 ≤ length)
      (hcontent : AllTaken length (rest.take length)) : Taken 0x30 length rest
  | pdu {type : Byte} {length : ℕ} {rest : List Byte} (htype : IsPdu type)
      (hcontent : PduTaken (.pdu 3 length (rest.take length))) : Taken type length rest

/-- All elements are taken. -/
inductive AllTaken : ℕ → List Byte → Prop
  | done (bytes : List Byte) : AllTaken 0 bytes
  | cons {type length : Byte} {left : ℕ} {rest : List Byte} (hleft : length.toNat + 2 ≤ left)
      (hfirst : Taken type length.toNat rest)
      (hothers : AllTaken (left - (length.toNat + 2)) (rest.drop length.toNat)) :
      AllTaken left (type :: length :: rest)

end

/-- What is in an element of `length` bytes: the elements of a sequence, the integers of a PDU. -/
inductive Enters (isTop : ℤ) : Byte → ℕ → List Byte → Position → Prop
  | sequence {length : ℕ} (rest : List Byte) (hlength : 2 ≤ length) :
      Enters isTop 0x30 length rest (.elements (isTop - 1) true true length (rest.take length))
  | pdu {type : Byte} (length : ℕ) (rest : List Byte) (htype : IsPdu type) :
      Enters isTop type length rest (.pdu 3 length (rest.take length))

inductive Leads : Position → Position → Prop
  | pdu {p q : Position} (h : PduLeads p q) : Leads p q
  | inside {isTop : ℤ} {type length : Byte} {left : ℕ} {rest : List Byte} {q : Position}
      (firstInteger firstOctetStr : Bool) (hleft : length.toNat + 2 ≤ left)
      (henters : Enters isTop type length.toNat rest q) :
      Leads (.elements isTop firstInteger firstOctetStr left (type :: length :: rest)) q
  | behind (isTop : ℤ) {type length : Byte} {left : ℕ} {rest : List Byte}
      (firstInteger firstOctetStr : Bool) (hleft : length.toNat + 2 ≤ left)
      (htaken : Taken type length.toNat rest) :
      Leads (.elements isTop firstInteger firstOctetStr left (type :: length :: rest))
        (.elements isTop (firstInteger && type != 0x02) (firstOctetStr && type != 0x04)
          (left - (length.toNat + 2)) (rest.drop length.toNat))
  | varbind {length : Byte} {left : ℕ} (rest : List Byte) (hleft : length.toNat + 2 ≤ left)
      (hlength : 2 ≤ length.toNat) :
      Leads (.varbinds left (0x30 :: length :: rest))
        (.elements 0 true true length.toNat (rest.take length.toNat))

/-- The positions at which a datagram is looked at. -/
def Comes (datagram : List Byte) (p : Position) : Prop :=
  2 ≤ datagram.length ∧
    Relation.ReflTransGen Leads (.elements 2 true true datagram.length datagram) p

/-- All positions from this one on. -/
def Position.AllFit (p : Position) : Prop := ∀ q, Relation.ReflTransGen Leads p q → q.Fits

theorem Position.allFit_iff (p : Position) : p.AllFit ↔ p.Fits ∧ ∀ q, Leads p q → q.AllFit := by
  constructor
  · intro h
    exact ⟨h p .refl, fun q hq r hr => h r (hr.head hq)⟩
  · rintro ⟨hfits, hnext⟩ r hr
    obtain rfl | ⟨q, hq, hqr⟩ := hr.cases_head
    · exact hfits
    · exact hnext q hq r hqr

/-! ## Each kind of position -/

theorem taken_iff {type : Byte} {length : ℕ} {rest : List Byte} :
    Taken type length rest ↔ (type = 0x02 ∨ type = 0x04 ∨ type = 0x05) ∨
      type = 0x06 ∧ OidEnds (rest.take length) ∨
      type = 0x30 ∧ 2 ≤ length ∧ AllTaken length (rest.take length) ∨
      IsPdu type ∧ PduTaken (.pdu 3 length (rest.take length)) := by
  constructor
  · rintro (⟨_, _, htype⟩ | ⟨hends⟩ | ⟨hlength, hcontent⟩ | ⟨htype, hcontent⟩)
    · exact .inl htype
    · exact .inr (.inl ⟨rfl, hends⟩)
    · exact .inr (.inr (.inl ⟨rfl, hlength, hcontent⟩))
    · exact .inr (.inr (.inr ⟨htype, hcontent⟩))
  · rintro (htype | ⟨rfl, hends⟩ | ⟨rfl, hlength, hcontent⟩ | ⟨htype, hcontent⟩)
    · exact .plain length rest htype
    · exact .objectId hends
    · exact .sequence hlength hcontent
    · exact .pdu htype hcontent

theorem allTaken_iff {left : ℕ} {bytes : List Byte} (hleft : left ≠ 0) :
    AllTaken left bytes ↔ ∃ type length rest, bytes = type :: length :: rest ∧
      length.toNat + 2 ≤ left ∧ Taken type length.toNat rest ∧
        AllTaken (left - (length.toNat + 2)) (rest.drop length.toNat) := by
  constructor
  · rintro (_ | ⟨hle, hfirst, hothers⟩)
    · exact absurd rfl hleft
    · exact ⟨_, _, _, rfl, hle, hfirst, hothers⟩
  · rintro ⟨type, length, rest, rfl, hle, hfirst, hothers⟩
    exact .cons hle hfirst hothers

theorem enters_iff {isTop : ℤ} {type : Byte} {length : ℕ} {rest : List Byte} {q : Position} :
    Enters isTop type length rest q ↔
      type = 0x30 ∧ 2 ≤ length ∧ q = .elements (isTop - 1) true true length (rest.take length) ∨
      IsPdu type ∧ q = .pdu 3 length (rest.take length) := by
  constructor
  · rintro (⟨_, hlength⟩ | ⟨_, _, htype⟩)
    · exact .inl ⟨rfl, hlength, rfl⟩
    · exact .inr ⟨htype, rfl⟩
  · rintro (⟨rfl, hlength, rfl⟩ | ⟨htype, rfl⟩)
    · exact .sequence rest hlength
    · exact .pdu length rest htype

theorem leads_elements_iff {isTop : ℤ} {firstInteger firstOctetStr : Bool} {left : ℕ}
    {bytes : List Byte} {q : Position} :
    Leads (.elements isTop firstInteger firstOctetStr left bytes) q ↔
      ∃ type length rest, bytes = type :: length :: rest ∧ length.toNat + 2 ≤ left ∧
        (Enters isTop type length.toNat rest q ∨ Taken type length.toNat rest ∧
          q = .elements isTop (firstInteger && type != 0x02) (firstOctetStr && type != 0x04)
            (left - (length.toNat + 2)) (rest.drop length.toNat)) := by
  constructor
  · rintro (⟨⟨⟩⟩ | ⟨_, _, hleft, henters⟩ | ⟨_, _, _, hleft, htaken⟩ | _)
    · exact ⟨_, _, _, rfl, hleft, .inl henters⟩
    · exact ⟨_, _, _, rfl, hleft, .inr ⟨htaken, rfl⟩⟩
  · rintro ⟨type, length, rest, rfl, hleft, henters | ⟨htaken, rfl⟩⟩
    · exact .inside _ _ hleft henters
    · exact .behind _ _ _ hleft htaken

theorem pduLeads_pdu_iff {integers len : ℕ} {bytes : List Byte} {q : Position} :
    PduLeads (.pdu (integers + 1) len bytes) q ↔ 2 ≤ len ∧ ∃ length rest,
      bytes = 0x02 :: length :: rest ∧ length.toNat ≤ rest.length ∧
        q = .pdu integers len (rest.drop length.toNat) := by
  constructor
  · rintro ⟨_, hlen, hlength⟩
    exact ⟨hlen, _, _, rfl, hlength, rfl⟩
  · rintro ⟨hlen, length, rest, rfl, hlength, rfl⟩
    exact .integer integers hlen hlength

theorem pduLeads_list_iff {len : ℕ} {bytes : List Byte} {q : Position} :
    PduLeads (.pdu 0 len bytes) q ↔ ∃ length rest, bytes = 0x30 :: length :: rest ∧
      q = .varbinds length.toNat rest := by
  constructor
  · intro h
    cases h with
    | list _ length rest => exact ⟨length, rest, rfl, rfl⟩
  · rintro ⟨length, rest, rfl, rfl⟩
    exact .list len length rest

theorem pduLeads_varbinds_iff {left : ℕ} {bytes : List Byte} {q : Position} :
    PduLeads (.varbinds left bytes) q ↔ ∃ length rest, bytes = 0x30 :: length :: rest ∧
      length.toNat + 2 ≤ left ∧
        q = .varbinds (left - (length.toNat + 2)) (rest.drop length.toNat) := by
  constructor
  · intro h
    cases h with
    | varbind rest hleft => exact ⟨_, rest, rfl, hleft, rfl⟩
  · rintro ⟨length, rest, rfl, hleft, rfl⟩
    exact .varbind rest hleft

theorem leads_pdu_iff {integers len : ℕ} {bytes : List Byte} {q : Position} :
    Leads (.pdu integers len bytes) q ↔ PduLeads (.pdu integers len bytes) q := by
  constructor
  · rintro (h | _ | _ | _)
    exact h
  · exact .pdu

theorem leads_varbinds_iff {left : ℕ} {bytes : List Byte} {q : Position} :
    Leads (.varbinds left bytes) q ↔ ∃ length rest, bytes = 0x30 :: length :: rest ∧
      length.toNat + 2 ≤ left ∧
        (2 ≤ length.toNat ∧ q = .elements 0 true true length.toNat (rest.take length.toNat) ∨
          q = .varbinds (left - (length.toNat + 2)) (rest.drop length.toNat)) := by
  constructor
  · rintro (h | _ | _ | ⟨rest, hleft, hlength⟩)
    · obtain ⟨length, rest, hbytes, hleft, hq⟩ := pduLeads_varbinds_iff.1 h
      exact ⟨length, rest, hbytes, hleft, .inr hq⟩
    · exact ⟨_, rest, rfl, hleft, .inl ⟨hlength, rfl⟩⟩
  · rintro ⟨length, rest, rfl, hleft, ⟨hlength, rfl⟩ | rfl⟩
    · exact .varbind rest hleft hlength
    · exact .pdu (.varbind rest hleft)

/-! ## All positions from one on -/

/-- What is looked at in an element of `length` bytes. -/
def ContentFits (isTop : ℤ) (firstInteger firstOctetStr : Bool) (type : Byte) (length : ℕ)
    (rest : List Byte) : Prop :=
  (ReadsContent isTop firstInteger firstOctetStr type → length ≤ rest.length) ∧
    ∀ q, Enters isTop type length rest q → q.AllFit

section AllFit

variable {isTop : ℤ} {firstInteger firstOctetStr : Bool} {left len integers : ℕ}
  {type length : Byte} {bytes rest : List Byte}

theorem allFit_elements_zero (isTop : ℤ) (firstInteger firstOctetStr : Bool) (bytes : List Byte) :
    (Position.elements isTop firstInteger firstOctetStr 0 bytes).AllFit := by
  refine (Position.allFit_iff _).2 ⟨fun h => absurd rfl h, fun q hq => ?_⟩
  obtain ⟨type, length, rest, -, hle, -⟩ := leads_elements_iff.1 hq
  omega

/-- Two bytes are looked at without a test. -/
theorem length_of_allFit_elements
    (h : (Position.elements isTop firstInteger firstOctetStr left bytes).AllFit) (hleft : left ≠ 0) :
    2 ≤ bytes.length := by
  obtain ⟨type, length, rest, rfl, -⟩ := ((Position.allFit_iff _).1 h).1 hleft
  simp

theorem allFit_elements_refused (isTop : ℤ) (firstInteger firstOctetStr : Bool) (type : Byte)
    (rest : List Byte) (h : left < length.toNat + 2) :
    (Position.elements isTop firstInteger firstOctetStr left (type :: length :: rest)).AllFit := by
  refine (Position.allFit_iff _).2 ⟨fun _ => ⟨type, length, rest, rfl, fun hle => ?_⟩, fun q hq => ?_⟩
  · omega
  · obtain ⟨type', length', rest', he, hle, -⟩ := leads_elements_iff.1 hq
    obtain ⟨-, rfl, -⟩ : type = type' ∧ length = length' ∧ rest = rest' := by simpa using he
    omega

theorem allFit_elements_iff (hle : length.toNat + 2 ≤ left) :
    (Position.elements isTop firstInteger firstOctetStr left (type :: length :: rest)).AllFit ↔
      ContentFits isTop firstInteger firstOctetStr type length.toNat rest ∧
        (Taken type length.toNat rest →
          (Position.elements isTop (firstInteger && type != 0x02) (firstOctetStr && type != 0x04)
            (left - (length.toNat + 2)) (rest.drop length.toNat)).AllFit) := by
  have hfits : (Position.elements isTop firstInteger firstOctetStr left
      (type :: length :: rest)).Fits ↔
        (ReadsContent isTop firstInteger firstOctetStr type → length.toNat ≤ rest.length) := by
    simp only [Position.Fits, List.cons.injEq]
    constructor
    · intro h
      obtain ⟨_, _, _, ⟨rfl, rfl, rfl⟩, hcontent⟩ := h (by omega)
      exact hcontent hle
    · exact fun h _ => ⟨type, length, rest, ⟨rfl, rfl, rfl⟩, fun _ => h⟩
  rw [Position.allFit_iff, hfits, ContentFits, and_assoc]
  refine and_congr_right fun _ => ?_
  simp only [leads_elements_iff, List.cons.injEq]
  constructor
  · intro h
    exact ⟨fun q hq => h q ⟨type, length, rest, ⟨rfl, rfl, rfl⟩, hle, .inl hq⟩,
      fun htaken => h _ ⟨type, length, rest, ⟨rfl, rfl, rfl⟩, hle, .inr ⟨htaken, rfl⟩⟩⟩
  · rintro ⟨hinside, hbehind⟩ q ⟨_, _, _, ⟨rfl, rfl, rfl⟩, -, henters | ⟨htaken, rfl⟩⟩
    · exact hinside q henters
    · exact hbehind htaken

theorem allFit_pdu_iff (hlen : 2 ≤ len) :
    (Position.pdu (integers + 1) len bytes).AllFit ↔
      ∃ type length rest, bytes = type :: length :: rest ∧ (type = 0x02 →
        length.toNat ≤ rest.length ∧ (Position.pdu integers len (rest.drop length.toNat)).AllFit) := by
  simp only [Position.allFit_iff (.pdu (integers + 1) len bytes), Position.Fits, leads_pdu_iff,
    pduLeads_pdu_iff]
  constructor
  · rintro ⟨hfits, hnext⟩
    obtain ⟨type, length, rest, rfl, hbody⟩ := hfits hlen
    refine ⟨type, length, rest, rfl, fun htype => ⟨hbody htype, ?_⟩⟩
    exact hnext _ ⟨hlen, length, rest, by rw [htype], hbody htype, rfl⟩
  · rintro ⟨type, length, rest, rfl, hbody⟩
    refine ⟨fun _ => ⟨type, length, rest, rfl, fun htype => (hbody htype).1⟩, ?_⟩
    rintro q ⟨-, length', rest', he, -, rfl⟩
    obtain ⟨rfl, rfl, rfl⟩ : type = 0x02 ∧ length = length' ∧ rest = rest' := by simpa using he
    exact (hbody rfl).2

theorem allFit_pdu_short (hlen : len < 2) : (Position.pdu (integers + 1) len bytes).AllFit := by
  refine (Position.allFit_iff _).2 ⟨fun h => absurd hlen (not_lt.2 h), fun q hq => ?_⟩
  have hle := (pduLeads_pdu_iff.1 (leads_pdu_iff.1 hq)).1
  omega

theorem allFit_list_iff :
    (Position.pdu 0 len bytes).AllFit ↔ ∃ type rest, bytes = type :: rest ∧ (type = 0x30 →
      ∃ length rest', rest = length :: rest' ∧ (Position.varbinds length.toNat rest').AllFit) := by
  simp only [Position.allFit_iff (.pdu 0 len bytes), Position.Fits, leads_pdu_iff, pduLeads_list_iff]
  constructor
  · rintro ⟨⟨type, rest, rfl, hlist⟩, hnext⟩
    refine ⟨type, rest, rfl, fun htype => ?_⟩
    obtain ⟨length, rest', rfl⟩ := List.exists_cons_of_ne_nil (hlist htype)
    exact ⟨length, rest', rfl, hnext _ ⟨length, rest', by rw [htype], rfl⟩⟩
  · rintro ⟨type, rest, rfl, hlist⟩
    constructor
    · refine ⟨type, rest, rfl, fun htype => ?_⟩
      obtain ⟨length, rest', rfl, -⟩ := hlist htype
      exact List.cons_ne_nil _ _
    · rintro q ⟨length, rest', he, rfl⟩
      obtain ⟨rfl, rfl⟩ := List.cons.inj he
      obtain ⟨_, _, he', hvarbinds⟩ := hlist rfl
      obtain ⟨rfl, rfl⟩ := List.cons.inj he'
      exact hvarbinds

theorem allFit_varbinds_zero (bytes : List Byte) : (Position.varbinds 0 bytes).AllFit := by
  refine (Position.allFit_iff _).2 ⟨fun h => absurd rfl h, fun q hq => ?_⟩
  obtain ⟨length, rest, -, hle, -⟩ := leads_varbinds_iff.1 hq
  omega

theorem length_of_allFit_varbinds (h : (Position.varbinds left bytes).AllFit) (hleft : left ≠ 0) :
    2 ≤ bytes.length :=
  ((Position.allFit_iff _).1 h).1 hleft

theorem allFit_varbinds_refused (rest : List Byte)
    (h : left < length.toNat + 2 ∨ type ≠ 0x30) :
    (Position.varbinds left (type :: length :: rest)).AllFit := by
  refine (Position.allFit_iff _).2 ⟨fun _ => by simp, fun q hq => ?_⟩
  obtain ⟨length', rest', he, hle, -⟩ := leads_varbinds_iff.1 hq
  obtain ⟨rfl, rfl, rfl⟩ : type = 0x30 ∧ length = length' ∧ rest = rest' := by simpa using he
  obtain h | h := h
  · omega
  · exact absurd rfl h

theorem allFit_varbinds_iff (hle : length.toNat + 2 ≤ left) :
    (Position.varbinds left (0x30 :: length :: rest)).AllFit ↔
      (2 ≤ length.toNat →
        (Position.elements 0 true true length.toNat (rest.take length.toNat)).AllFit) ∧
      (Position.varbinds (left - (length.toNat + 2)) (rest.drop length.toNat)).AllFit := by
  have hfits : (Position.varbinds left (0x30 :: length :: rest)).Fits := fun _ => by simp
  rw [Position.allFit_iff, and_iff_right hfits]
  simp only [leads_varbinds_iff, List.cons.injEq, true_and]
  constructor
  · intro h
    exact ⟨fun hlength => h _ ⟨length, rest, ⟨rfl, rfl⟩, hle, .inl ⟨hlength, rfl⟩⟩,
      h _ ⟨length, rest, ⟨rfl, rfl⟩, hle, .inr rfl⟩⟩
  · rintro ⟨hinside, hbehind⟩ q ⟨_, _, ⟨rfl, rfl⟩, -, ⟨hlength, rfl⟩ | rfl⟩
    · exact hinside hlength
    · exact hbehind

theorem contentFits_sequence (isTop : ℤ) (firstInteger firstOctetStr : Bool) (length : ℕ)
    (rest : List Byte) :
    ContentFits isTop firstInteger firstOctetStr 0x30 length rest ↔ (2 ≤ length →
      (Position.elements (isTop - 1) true true length (rest.take length)).AllFit) := by
  simp [ContentFits, ReadsContent, enters_iff, IsPdu]

theorem contentFits_pdu (isTop : ℤ) (firstInteger firstOctetStr : Bool) (htype : IsPdu type)
    (length : ℕ) (rest : List Byte) :
    ContentFits isTop firstInteger firstOctetStr type length rest ↔
      (Position.pdu 3 length (rest.take length)).AllFit := by
  obtain rfl | rfl | rfl := htype <;> simp [ContentFits, ReadsContent, enters_iff, IsPdu]

theorem contentFits_plain (isTop : ℤ) (firstInteger firstOctetStr : Bool) (h30 : type ≠ 0x30)
    (hpdu : ¬IsPdu type) (length : ℕ) (rest : List Byte) :
    ContentFits isTop firstInteger firstOctetStr type length rest ↔
      (ReadsContent isTop firstInteger firstOctetStr type → length ≤ rest.length) := by
  rw [ContentFits, and_iff_left]
  intro q hq
  obtain ⟨htype, -⟩ | ⟨htype, -⟩ := enters_iff.1 hq
  · exact absurd htype h30
  · exact absurd htype hpdu

/-! ## PDUs that are taken -/

theorem pduTaken_iff {p : Position} :
    PduTaken p ↔ (∃ bytes, p = .varbinds 0 bytes) ∨ ∃ q, PduLeads p q ∧ PduTaken q := by
  constructor
  · rintro ⟨bytes, hpath⟩
    obtain rfl | ⟨q, hq, hrest⟩ := hpath.cases_head
    · exact .inl ⟨bytes, rfl⟩
    · exact .inr ⟨q, hq, bytes, hrest⟩
  · rintro (⟨bytes, rfl⟩ | ⟨q, hq, bytes, hrest⟩)
    · exact ⟨bytes, .refl⟩
    · exact ⟨bytes, hrest.head hq⟩

theorem pduTaken_pdu_iff : PduTaken (.pdu (integers + 1) len bytes) ↔ 2 ≤ len ∧
    ∃ length rest, bytes = 0x02 :: length :: rest ∧ length.toNat ≤ rest.length ∧
      PduTaken (.pdu integers len (rest.drop length.toNat)) := by
  rw [pduTaken_iff]
  simp only [pduLeads_pdu_iff, reduceCtorEq, exists_false, false_or]
  constructor
  · rintro ⟨q, ⟨hlen, length, rest, hbytes, hbody, rfl⟩, htaken⟩
    exact ⟨hlen, length, rest, hbytes, hbody, htaken⟩
  · rintro ⟨hlen, length, rest, hbytes, hbody, htaken⟩
    exact ⟨_, ⟨hlen, length, rest, hbytes, hbody, rfl⟩, htaken⟩

theorem pduTaken_list_iff : PduTaken (.pdu 0 len bytes) ↔ ∃ length rest,
    bytes = 0x30 :: length :: rest ∧ PduTaken (.varbinds length.toNat rest) := by
  rw [pduTaken_iff]
  simp only [pduLeads_list_iff, reduceCtorEq, exists_false, false_or]
  constructor
  · rintro ⟨q, ⟨length, rest, hbytes, rfl⟩, htaken⟩
    exact ⟨length, rest, hbytes, htaken⟩
  · rintro ⟨length, rest, hbytes, htaken⟩
    exact ⟨_, ⟨length, rest, hbytes, rfl⟩, htaken⟩

theorem pduTaken_varbinds_iff (hleft : left ≠ 0) :
    PduTaken (.varbinds left bytes) ↔ ∃ length rest, bytes = 0x30 :: length :: rest ∧
      length.toNat + 2 ≤ left ∧
        PduTaken (.varbinds (left - (length.toNat + 2)) (rest.drop length.toNat)) := by
  rw [pduTaken_iff]
  simp only [pduLeads_varbinds_iff, Position.varbinds.injEq, hleft, false_and, exists_false, false_or]
  constructor
  · rintro ⟨q, ⟨length, rest, hbytes, hle, rfl⟩, htaken⟩
    exact ⟨length, rest, hbytes, hle, htaken⟩
  · rintro ⟨length, rest, hbytes, hle, htaken⟩
    exact ⟨_, ⟨length, rest, hbytes, hle, rfl⟩, htaken⟩

end AllFit

end MyIp.Snmp
