import MyIp.Foundations.CText
import MyIp.Foundations.Bytes

/-! # SNMP elements and their encoding

The classes of `snmp_elem.cpp` as one type and `get_payload` as a function from an element to the
bytes it allocates and the 8 bit length it returns with them. Lengths are 8 bits wide throughout:
the `len` of an octet string or an object identifier is its number of bytes plus two, modulo 256,
and a sequence is filled at an 8 bit offset until an element would reach beyond 256 bytes.

`ber` is the encoding that is meant, with `size` its number of bytes in full; `getPayload_eq` says
that the two agree on every element of at most 255 bytes. -/

namespace MyIp.Snmp
set_option autoImplicit false

open Bytes CText

inductive IntegerType where
  | counter32
  | integer
  | counter64
  | ticks
  deriving DecidableEq, Repr

def IntegerType.octet : IntegerType → Byte
  | .integer => 0x02
  | .counter32 => 0x41
  | .counter64 => 0x46
  | .ticks => 0x43

/-- `snmp_elem` and its subclasses; `oid` holds the bytes its constructor computed. -/
inductive Elem where
  | integer (type : IntegerType) (v : BitVec 64)
  | sequence (elems : List Elem)
  | null
  | octetString (v : List Byte)
  | oid (v : List Byte)
  | pdu (type : Byte) (elems : List Elem)

/-! ## The object identifier constructor -/

/-- The base 128 groups of `v`, lowest first, as they are put into the array `temp` of ten bytes. -/
def lowGroups : ℕ → BitVec 64 → List Byte
  | 0, _ => []
  | room + 1, v => if v = 0 then [] else (v &&& 127).setWidth 8 :: lowGroups room (v >>> 7)

def temp (v : BitVec 64) : List Byte := if v = 0 then [0] else lowGroups 10 v

/-- `temp` emptied from its end: all bytes but the first, which comes last, get the high bit. -/
def flushTemp : List Byte → List Byte
  | [] => []
  | low :: high => (high.map (· ||| 128)).reverse ++ [low]

/-- What follows each dot: the values of `work` in the turns of the loop after the first. -/
def afterDots : Text → List Text
  | [] => []
  | c :: rest => if c = '.' then rest :: afterDots rest else afterDots rest

/-- The loop over `work`, which ends when there is no dot or nothing after it. -/
def oidGroups (work : Text) : List Byte :=
  ((work :: afterDots work).filter fun work => !work.isEmpty).flatMap fun work =>
    flushTemp (temp (atoll work))

def oidBytes (oid : Text) : List Byte :=
  if oid.take 4 = ['1', '.', '3', '.'] then 43 :: oidGroups (oid.drop 4)
  else oidGroups oid

def snmpOid (oid : Text) : Elem := .oid (oidBytes oid)

/-! ## `get_payload` -/

/-- `len` of an integer: 4 or 8 bytes and the two in front of them. -/
def integerLen (v : BitVec 64) : Byte := if v ≤ 0xffffffff then 4 + 2 else 8 + 2

def integerBytes (plLen : ℕ) (v : BitVec 64) : List Byte :=
  (List.range plLen).map fun i => (v >>> (plLen * 8 - (i + 1) * 8)).setWidth 8

/-- `get_payload` of an octet string or object identifier `v`; `len` is what its constructor set. -/
def stringPayload (type : Byte) (v : List Byte) : List Byte × Byte :=
  let len : Byte := BitVec.ofNat 8 (v.length + 2)
  let plLen := len - 2
  (type :: plLen :: v.take plLen.toNat, len)

/-- The loop that copies the elements of a sequence: `out` is the buffer up to the offset `o`. The
offset wraps to 0 when the buffer is filled to its last byte. -/
def fillSequence (out : List Byte) (o : Byte) : List (List Byte × Byte) → List Byte × Byte
  | [] => (out, o)
  | pl :: pls =>
    if o.toNat + pl.2.toNat > 256 then (out, o)
    else fillSequence ((out ++ pl.1.take pl.2.toNat).take (o + pl.2).toNat) (o + pl.2) pls

def sequencePayload (pls : List (List Byte × Byte)) : List Byte × Byte :=
  let (out, o) := fillSequence [0x30, 0] 2 pls
  (out.set 1 (o - 2), o)

mutual

def getPayload : Elem → List Byte × Byte
  | .integer type v =>
    let plLen := integerLen v - 2
    (type.octet :: plLen :: integerBytes plLen.toNat v, integerLen v)
  | .sequence elems => sequencePayload (getPayloads elems)
  | .null => ([0x05, 0x00], 2)
  | .octetString v => stringPayload 0x04 v
  | .oid v => stringPayload 0x06 v
  | .pdu type elems =>
    let out := sequencePayload (getPayloads elems)
    (out.1.set 0 type, out.2)

def getPayloads : List Elem → List (List Byte × Byte)
  | [] => []
  | e :: es => getPayload e :: getPayloads es

end

/-! ## What the encoding is meant to be -/

mutual

def size : Elem → ℕ
  | .integer _ v => 2 + (if v ≤ 0xffffffff then 4 else 8)
  | .sequence elems => 2 + sizes elems
  | .null => 2
  | .octetString v => 2 + v.length
  | .oid v => 2 + v.length
  | .pdu _ elems => 2 + sizes elems

def sizes : List Elem → ℕ
  | [] => 0
  | e :: es => size e + sizes es

end

def Elem.type : Elem → Byte
  | .integer type _ => type.octet
  | .sequence _ => 0x30
  | .null => 0x05
  | .octetString _ => 0x04
  | .oid _ => 0x06
  | .pdu type _ => type

mutual

/-- The bytes after the type and the length. -/
def content : Elem → List Byte
  | .integer _ v => integerBytes (if v ≤ 0xffffffff then 4 else 8) v
  | .sequence elems => bers elems
  | .null => []
  | .octetString v => v
  | .oid v => v
  | .pdu _ elems => bers elems

def bers : List Elem → List Byte
  | [] => []
  | e :: es => e.type :: BitVec.ofNat 8 (content e).length :: content e ++ bers es

end

def ber (e : Elem) : List Byte := e.type :: BitVec.ofNat 8 (content e).length :: content e

@[simp] theorem integerBytes_length (n : ℕ) (v : BitVec 64) : (integerBytes n v).length = n := by
  simp [integerBytes]

mutual

theorem content_length : (e : Elem) → (content e).length + 2 = size e
  | .integer _ v => by
    rw [content, size, integerBytes_length, Nat.add_comm]
  | .sequence elems => by rw [content, size, bers_length elems, Nat.add_comm]
  | .null => rfl
  | .octetString v => by rw [content, size, Nat.add_comm]
  | .oid v => by rw [content, size, Nat.add_comm]
  | .pdu _ elems => by rw [content, size, bers_length elems, Nat.add_comm]

theorem bers_length : (es : List Elem) → (bers es).length = sizes es
  | [] => rfl
  | e :: es => by
    have he := content_length e
    have hes := bers_length es
    simp only [bers, sizes, List.length_cons, List.length_append]
    omega

end

theorem ber_length (e : Elem) : (ber e).length = size e := by
  rw [ber, List.length_cons, List.length_cons, content_length]

theorem bers_cons (e : Elem) (es : List Elem) : bers (e :: es) = ber e ++ bers es := by
  simp [bers, ber]

theorem len_sub_two (n : ℕ) : (BitVec.ofNat 8 (n + 2) - 2 : Byte) = BitVec.ofNat 8 n := by
  rw [BitVec.ofNat_add]
  exact BitVec.add_sub_cancel _ _

theorem stringPayload_eq {type : Byte} {v : List Byte} (h : 2 + v.length ≤ 255) :
    stringPayload type v =
      (type :: BitVec.ofNat 8 v.length :: v, BitVec.ofNat 8 (2 + v.length)) := by
  have hv : (BitVec.ofNat 8 v.length).toNat = v.length := toNat_ofNat_of_lt (by omega)
  simp only [stringPayload, len_sub_two, hv, List.take_length, Nat.add_comm 2]

mutual

/-- An element of at most 255 bytes gets the encoding that is meant. -/
theorem getPayload_eq : (e : Elem) → size e ≤ 255 →
    getPayload e = (ber e, BitVec.ofNat 8 (size e))
  | .integer type v, _ => by
    by_cases hv : v ≤ 0xffffffff
    · simp only [getPayload, ber, Elem.type, content, size, integerLen, if_pos hv,
        integerBytes_length]
      rfl
    · simp only [getPayload, ber, Elem.type, content, size, integerLen, if_neg hv,
        integerBytes_length]
      rfl
  | .sequence elems, h => by
    rw [getPayload, sequencePayload_eq elems h]
    rfl
  | .null, _ => rfl
  | .octetString v, h => stringPayload_eq h
  | .oid v, h => stringPayload_eq h
  | .pdu type elems, h => by
    rw [getPayload, sequencePayload_eq elems h]
    rfl

theorem sequencePayload_eq : (es : List Elem) → 2 + sizes es ≤ 255 →
    sequencePayload (getPayloads es) =
      (0x30 :: BitVec.ofNat 8 (bers es).length :: bers es, BitVec.ofNat 8 (2 + sizes es))
  | es, h => by
    have hfill := fillSequence_eq es [0x30, 0] h
    have hlen : (BitVec.ofNat 8 (2 + sizes es) - 2 : Byte) = BitVec.ofNat 8 (sizes es) := by
      rw [Nat.add_comm]
      exact len_sub_two _
    rw [sequencePayload, show (2 : Byte) = BitVec.ofNat 8 [(0x30 : Byte), 0].length from rfl, hfill]
    simp only [List.length_cons, List.length_nil, Nat.zero_add, bers_length]
    rw [show BitVec.ofNat 8 (1 + 1) = (2 : Byte) from rfl, hlen]
    rfl

theorem fillSequence_eq : (es : List Elem) → (out : List Byte) → out.length + sizes es ≤ 255 →
    fillSequence out (BitVec.ofNat 8 out.length) (getPayloads es) =
      (out ++ bers es, BitVec.ofNat 8 (out.length + sizes es))
  | [], out, _ => by simp [getPayloads, fillSequence, bers, sizes]
  | e :: es, out, h => by
    have hs : out.length + (size e + sizes es) ≤ 255 := h
    have ho : (BitVec.ofNat 8 out.length).toNat = out.length :=
      toNat_ofNat_of_lt (by omega)
    have hse : (BitVec.ofNat 8 (size e)).toNat = size e := toNat_ofNat_of_lt (by omega)
    have hadd : BitVec.ofNat 8 out.length + BitVec.ofNat 8 (size e) =
        BitVec.ofNat 8 (out ++ ber e).length := by
      rw [List.length_append, ber_length, BitVec.ofNat_add]
    have hto : (BitVec.ofNat 8 (out ++ ber e).length).toNat = (out ++ ber e).length := by
      rw [BitVec.toNat_ofNat, List.length_append, ber_length]
      omega
    have hrest := fillSequence_eq es (out ++ ber e) (by
      rw [List.length_append, ber_length]
      omega)
    have htake : (ber e).take (size e) = ber e :=
      List.take_of_length_le (le_of_eq (ber_length e))
    rw [getPayloads, fillSequence, getPayload_eq e (by omega)]
    simp only [ho, hse, if_neg (show ¬ out.length + size e > 256 by omega), hadd, htake, hto,
      List.take_length]
    rw [hrest, bers_cons, sizes, List.length_append, ber_length, List.append_assoc, Nat.add_assoc]

end

end MyIp.Snmp
