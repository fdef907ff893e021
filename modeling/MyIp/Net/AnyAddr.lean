import MyIp.Foundations.Bytes

/-! # Addresses and their hash

`any_addr` (`any_addr.h`, `any_addr.cpp`) is an address of one of four families in a fixed size
array; `addr_size` is a function of the family, so here it is the length of the byte list. Only
addresses that were set are modelled: every member function asserts that.

`murmurHash64A` is `MurmurHash64A` of `hash.cpp` on a little-endian host, `getHash` is
`any_addr::get_hash`. -/

namespace MyIp
open Bytes
set_option autoImplicit false

inductive AddrFamily
  | ipv4 | mac | ax25 | ipv6
  deriving DecidableEq, Repr

/-- The number of address bytes `any_addr::set` copies. -/
def AddrFamily.size : AddrFamily → ℕ
  | ipv4 => 4
  | mac => 6
  | ax25 => 7
  | ipv6 => 16

structure AnyAddr where
  af : AddrFamily
  addr : List Byte
  addr_size : addr.length = af.size
  deriving DecidableEq

theorem AnyAddr.length_ipv6 {a : AnyAddr} (h : a.af = .ipv6) : a.addr.length = 16 := by
  rw [a.addr_size, h, AddrFamily.size]

def AnyAddr.ipv4 (a b c d : Byte) : AnyAddr := ⟨.ipv4, [a, b, c, d], rfl⟩

/-! ## MurmurHash64A -/

def murmurM : BitVec 64 := 0xc6a4a7935bd1e995

/-- A little-endian word, as reading through a `uint64_t *` gives it. -/
def leWord : List Byte → BitVec 64
  | [] => 0
  | b :: bs => (leWord bs <<< 8) ||| b.setWidth 64

/-- The loop over the full 8 byte words: `n` of them are left. -/
def murmurWords : ℕ → List Byte → BitVec 64 → BitVec 64
  | 0, _, h => h
  | n + 1, data, h =>
    let k := leWord (data.take 8) * murmurM
    let k := (k ^^^ (k >>> 47)) * murmurM
    murmurWords n (data.drop 8) ((h ^^^ k) * murmurM)

/-- The fall-through `switch` over the last `len & 7` bytes: the highest one first. -/
def murmurTail (tail : List Byte) (h : BitVec 64) : BitVec 64 :=
  if tail = [] then h
  else tail.zipIdx.foldr
    (fun (b : Byte × ℕ) (h : BitVec 64) => h ^^^ (b.1.setWidth 64 <<< (8 * b.2))) h * murmurM

def murmurHash64A (key : List Byte) (seed : BitVec 64) : BitVec 64 :=
  let h := seed ^^^ (BitVec.ofNat 64 key.length * murmurM)
  let h := murmurWords (key.length / 8) key h
  let h := murmurTail (key.drop (key.length / 8 * 8)) h
  let h := (h ^^^ (h >>> 47)) * murmurM
  h ^^^ (h >>> 47)

def AnyAddr.getHash (a : AnyAddr) : BitVec 64 := murmurHash64A a.addr 123

example : (AnyAddr.ipv4 10 0 251 94).getHash = 0xc0756d5fe4a46014 := by decide +kernel

end MyIp
