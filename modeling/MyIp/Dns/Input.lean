import MyIp.Foundations.KeyedList
import MyIp.Net.AddressText

/-! # Answers of a name server

`get_name` and `dns::input` (`dns.cpp`): a response is read front to back, and what it says of names
goes to two caches. A read behind the end of the packet has no result. -/

namespace MyIp
set_option autoImplicit false

open Bytes
open Net (anyAddr)

abbrev Dns.Name := List Byte

/-- `dns_a_rec_t` -/
structure Dns.ARec where
  a : AnyAddr
  t : ℤ
  maxAge : ℤ
  deriving DecidableEq

/-- `dns_cname_rec_t` -/
structure Dns.CnameRec where
  name : Dns.Name
  t : ℤ
  maxAge : ℤ
  deriving DecidableEq

structure Dns where
  dnsIp : AnyAddr
  aAaaaCache : Dns.Name → Option Dns.ARec
  cnameCache : Dns.Name → Option Dns.CnameRec

namespace Dns

def dot : Byte := 0x2e

/-- The loop of `get_name`: the name, how many bytes it takes, and the offset at which it goes on if
it ends with "compression". Each turn takes a byte at least, so as many turns as there are bytes are
enough. -/
def nameLoop : ℕ → List Byte → Option (Name × ℕ × Option ℕ)
  | 0, _ => none
  | _ + 1, [] => none
  | turns + 1, len :: buffer =>
    if len = 0 then some ([], 1, none)
    else if len &&& 0xc0 ≠ 0 then
      buffer.head?.map fun low => ([], 2, some (be16 (len &&& ~~~0xc0) low).toNat)
    else if buffer.length < len.toNat then none
    else
      (nameLoop turns (buffer.drop len.toNat)).map fun (name, tl, offset) =>
        (buffer.take len.toNat ++ dot :: name, 1 + len.toNat + tl, offset)

/-- `get_name` for the rest of a name, where `first` is false: it does not go on elsewhere. The byte
there is only printed. -/
def getRest (base buffer : List Byte) : Option Name := do
  let (name, _, offset) ← nameLoop buffer.length buffer
  if offset.elim true (· < base.length) then some name else none

/-- `get_name` with `first` set. -/
def getName (base buffer : List Byte) : Option (Name × ℕ) := do
  let (name, tl, offset) ← nameLoop buffer.length buffer
  match offset with
  | none => some (name, tl)
  | some offset => (getRest base (base.drop offset)).map fun sub => (name ++ sub, tl)

def skipQuestions (base : List Byte) : ℕ → List Byte → Option (List Byte)
  | 0, work => some work
  | qdcount + 1, work => do
    let (_, len) ← getName base work
    if (work.drop len).length < 4 then none
    else skipQuestions base qdcount ((work.drop len).drop 4)

/-- A record up to its data. -/
structure Header where
  name : Name
  type : BitVec 16
  ttl : ℤ
  len : BitVec 16

def readHeader (base work : List Byte) : Option (Header × List Byte) := do
  let (name, n) ← getName base work
  match work.drop n with
  | t₀ :: t₁ :: _ :: _ :: a :: b :: c :: d :: l₀ :: l₁ :: work =>
    some (⟨name, be16 t₀ t₁, (be32 a b c d).toInt, be16 l₀ l₁⟩, work)
  | _ => none

/-- What the data of a record, at `work`, does to the caches. -/
def store (base : List Byte) (ts : ℤ) (dns : Dns) (h : Header) (work : List Byte) : Option Dns :=
  let name := h.name.dropLast
  if h.len = 4 ∧ h.type = 1 then
    (anyAddr .ipv4 work).map fun a =>
      { dns with aAaaaCache := KeyedList.assign dns.aAaaaCache (name, ⟨a, ts, h.ttl⟩) }
  else if h.type = 5 then
    (getName base work).map fun (cname, _) =>
      { dns with cnameCache := KeyedList.assign dns.cnameCache (name, ⟨cname.dropLast, ts, h.ttl⟩) }
  else if h.len = 16 ∧ h.type = 28 then
    (anyAddr .ipv6 work).map fun a =>
      { dns with aAaaaCache := KeyedList.assign dns.aAaaaCache (name, ⟨a, ts, h.ttl⟩) }
  else some dns

/-- The loop over the answers. The next one is read from where the data of this one starts. -/
def readAnswers (base : List Byte) (ts : ℤ) : ℕ → List Byte → Dns → Option Dns
  | 0, _, dns => some dns
  | ancount + 1, work, dns => do
    let (h, work) ← readHeader base work
    let dns ← store base ts dns h work
    readAnswers base ts ancount work dns

/-- `dns::input`, for a packet that was received at `ts`. -/
def input (dns : Dns) (srcIp : AnyAddr) (data : List Byte) (ts : ℤ) : Option Dns :=
  if srcIp ≠ dns.dnsIp then some dns
  else
    match data with
    | _ :: _ :: f₀ :: f₁ :: counts =>
      if be16 f₀ f₁ = 0x8400 then some dns
      else
        match counts with
        | q₀ :: q₁ :: a₀ :: a₁ :: rest => do
          let work ← skipQuestions data (be16 q₀ q₁).toNat (rest.drop 4)
          readAnswers data ts (be16 a₀ a₁).toNat work dns
        | _ => none
    | _ => none

end Dns

end MyIp
