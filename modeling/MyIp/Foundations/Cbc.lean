import Mathlib.Data.List.GetD
import Mathlib.Tactic

/-! # Cipher block chaining over messages that may be lost

A block cipher and an involutive `xor` over any type of blocks. `encrypt` and `decrypt` take the
chaining value of the message before and give the one for the message after: the last block of
ciphertext. So whatever a receiver had before, after a message that is not empty it has the chaining
value with which the sender went on (`decrypt_snd_eq_of_ne_nil`), and of messages that come in any
order those come out right that follow their predecessor (`received_resync`). -/

namespace Cbc
set_option autoImplicit false

structure Cipher (B : Type) where
  enc : B → B
  dec : B → B
  xor : B → B → B
  dec_enc : ∀ x, dec (enc x) = x
  xor_xor : ∀ x v, xor (xor x v) v = x

variable {B : Type} (c : Cipher B)

/-- The ciphertext of a message, and the chaining value for the next one. -/
def encrypt (iv : B) : List B → List B × B
  | [] => ([], iv)
  | x :: xs => (c.enc (c.xor x iv) :: (encrypt (c.enc (c.xor x iv)) xs).1,
      (encrypt (c.enc (c.xor x iv)) xs).2)

def decrypt (iv : B) : List B → List B × B
  | [] => ([], iv)
  | y :: ys => (c.xor (c.dec y) iv :: (decrypt y ys).1, (decrypt y ys).2)

theorem decrypt_encrypt (iv : B) (xs : List B) :
    decrypt c iv (encrypt c iv xs).1 = (xs, (encrypt c iv xs).2) := by
  induction xs generalizing iv with
  | nil => rfl
  | cons x xs ih => simp only [encrypt, decrypt, ih, c.dec_enc, c.xor_xor]

theorem decrypt_snd (iv : B) (ys : List B) : (decrypt c iv ys).2 = ys.getLastD iv := by
  induction ys generalizing iv with
  | nil => rfl
  | cons y ys ih => rw [decrypt, ih, List.getLastD_cons]

@[simp] theorem decrypt_length (iv : B) (ys : List B) :
    (decrypt c iv ys).1.length = ys.length := by
  induction ys generalizing iv with
  | nil => rfl
  | cons y ys ih => simp [decrypt, ih]

theorem encrypt_snd (iv : B) (xs : List B) :
    (encrypt c iv xs).2 = (encrypt c iv xs).1.getLastD iv := by
  rw [← decrypt_snd c iv, decrypt_encrypt]

@[simp] theorem encrypt_length (iv : B) (xs : List B) :
    (encrypt c iv xs).1.length = xs.length := by
  induction xs generalizing iv with
  | nil => rfl
  | cons x xs ih => simp [encrypt, ih]

/-- The receiver is in step again after any message. -/
theorem decrypt_snd_eq_of_ne_nil (iv iv' : B) {xs : List B} (h : xs ≠ []) :
    (decrypt c iv' (encrypt c iv xs).1).2 = (encrypt c iv xs).2 := by
  have hne : (encrypt c iv xs).1 ≠ [] := by
    intro hnil
    have hlen := encrypt_length c iv xs
    rw [hnil] at hlen
    exact h (List.length_eq_zero_iff.mp hlen.symm)
  obtain ⟨ys, y, hys⟩ := List.eq_nil_or_concat _ |>.resolve_left hne
  rw [decrypt_snd, encrypt_snd, hys]
  simp [List.getLastD_eq_getLast?]

/-! ## Sequences of messages -/

/-- The chaining value before message number `k`. -/
def ivBefore (iv : B) (messages : List (List B)) (k : ℕ) : B :=
  (messages.take k).foldl (fun iv xs => (encrypt c iv xs).2) iv

theorem ivBefore_succ (iv : B) {messages : List (List B)} {k : ℕ} {xs : List B}
    (h : messages[k]? = some xs) :
    ivBefore c iv messages (k + 1) = (encrypt c (ivBefore c iv messages k) xs).2 := by
  rw [ivBefore, List.take_add_one, h, Option.toList_some, List.foldl_append]
  rfl

/-- Message number `k` as it is sent. -/
def sent (iv : B) (messages : List (List B)) (k : ℕ) : List B :=
  (encrypt c (ivBefore c iv messages k) (messages.getD k [])).1

/-- The chaining value of a receiver to which the messages `schedule` have come, in that order. -/
def received (iv₀ iv : B) (messages : List (List B)) (schedule : List ℕ) : B :=
  schedule.foldl (fun iv' k => (decrypt c iv' (sent c iv messages k)).2) iv₀

theorem received_snoc (iv₀ iv : B) (messages : List (List B)) (schedule : List ℕ) {k : ℕ}
    {xs : List B} (h : messages[k]? = some xs) (hne : xs ≠ []) :
    received c iv₀ iv messages (schedule ++ [k]) = ivBefore c iv messages (k + 1) := by
  rw [received, List.foldl_append, List.foldl_cons, List.foldl_nil, ivBefore_succ c iv h, sent,
    List.getD_eq_getElem?_getD, h, Option.getD_some]
  exact decrypt_snd_eq_of_ne_nil c _ _ hne

/-- A message that comes right after its predecessor, or the first one if nothing came before it, is
decrypted to what was sent. -/
theorem received_resync (iv : B) {messages : List (List B)} (hne : ∀ xs ∈ messages, xs ≠ [])
    {k : ℕ} (hk : k < messages.length) (before : List ℕ)
    (hprev : (before = [] ∧ k = 0) ∨ ∃ earlier j, before = earlier ++ [j] ∧ k = j + 1) :
    (decrypt c (received c iv iv messages before) (sent c iv messages k)).1 =
      messages.getD k [] := by
  have hiv : received c iv iv messages before = ivBefore c iv messages k := by
    rcases hprev with ⟨rfl, rfl⟩ | ⟨earlier, j, rfl, rfl⟩
    · rfl
    · have hj : messages[j]? = some messages[j] := List.getElem?_eq_getElem (by omega)
      exact received_snoc c iv iv messages earlier hj (hne _ (List.getElem_mem _))
  rw [hiv, sent, decrypt_encrypt]

end Cbc
