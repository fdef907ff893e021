import MyIp.Dns.Names

/-! # Reads of an answer

`dns::input` carries no bound along. All that it reads is in the datagram exactly if the questions and
answers that the header counts stand there to their last byte. -/

namespace MyIp.Dns
set_option autoImplicit false

open Bytes
open Net (anyAddr)

/-! ## What a datagram needs -/

section Inside

variable (base : List Byte)

/-- At the front of `buffer` there is a name of `n` bytes: a segment, and the one that its pointer leads
to. Of a pointer in that one only the byte it leads to is printed. -/
def NameInside (buffer : List Byte) (n : ℕ) : Prop :=
  ∃ ls offset, SegmentAt buffer ls n offset ∧
    ∀ o ∈ offset, ∃ ls' n' offset', SegmentAt (base.drop o) ls' n' offset' ∧
      ∀ o' ∈ offset', o' < base.length

/-- At the front of a list there are so many questions; the other list follows them. -/
inductive QuestionsInside : ℕ → List Byte → List Byte → Prop
  | done (work : List Byte) : QuestionsInside 0 work work
  | question {qdcount n : ℕ} {work after : List Byte} (hname : NameInside base work n)
      (hfixed : n + 4 ≤ work.length) (hrest : QuestionsInside qdcount (work.drop (n + 4)) after) :
      QuestionsInside (qdcount + 1) work after

/-- The data of a record is there, as far as it is read. -/
structure DataInside (type len : BitVec 16) (work : List Byte) : Prop where
  a : type = 1 → len = 4 → 4 ≤ work.length
  cname : type = 5 → ∃ n, NameInside base work n
  aaaa : type = 28 → len = 16 → 16 ≤ work.length

/-- So many answers are there. Each one is looked for where the data of the one before starts. -/
inductive AnswersInside : ℕ → List Byte → Prop
  | done (work : List Byte) : AnswersInside 0 work
  | answer {ancount n : ℕ} {work rest : List Byte} {t₀ t₁ c₀ c₁ a b c d l₀ l₁ : Byte}
      (hname : NameInside base work n)
      (hfixed : work.drop n = t₀ :: t₁ :: c₀ :: c₁ :: a :: b :: c :: d :: l₀ :: l₁ :: rest)
      (hdata : DataInside base (be16 t₀ t₁) (be16 l₀ l₁) rest)
      (hrest : AnswersInside ancount rest) : AnswersInside (ancount + 1) work

end Inside

/-- A datagram that is there as far as it is read. -/
inductive Whole (data : List Byte) : Prop
  | noError {i₀ i₁ f₀ f₁ : Byte} {counts : List Byte} (h : data = i₀ :: i₁ :: f₀ :: f₁ :: counts)
      (hflags : be16 f₀ f₁ = 0x8400)
  | sections {i₀ i₁ f₀ f₁ q₀ q₁ a₀ a₁ : Byte} {rest work : List Byte}
      (h : data = i₀ :: i₁ :: f₀ :: f₁ :: q₀ :: q₁ :: a₀ :: a₁ :: rest)
      (hquestions : QuestionsInside data (be16 q₀ q₁).toNat (rest.drop 4) work)
      (hanswers : AnswersInside data (be16 a₀ a₁).toNat work)

/-! ## What the loops read -/

/-- The number of turns never cuts a name short: with more of them the loop does the same. -/
theorem nameLoop_turns {turns : ℕ} {buffer : List Byte} (h : buffer.length ≤ turns) :
    nameLoop turns buffer = nameLoop buffer.length buffer := by
  -- A turn drops its label: what is left is shorter than the turns, and than the buffer.
  induction turns using Nat.strong_induction_on generalizing buffer with
  | _ turns ih =>
    match turns, buffer with
    | 0, [] => rfl
    | _ + 1, [] => rfl
    | turns + 1, len :: buffer =>
      have hlen : buffer.length ≤ turns := Nat.le_of_succ_le_succ h
      have hdrop : (buffer.drop len.toNat).length ≤ buffer.length := by
        rw [List.length_drop]
        omega
      have hloop : nameLoop turns (buffer.drop len.toNat) =
          nameLoop buffer.length (buffer.drop len.toNat) := by
        rw [ih turns (Nat.lt_succ_self _) (hdrop.trans hlen)]
        exact (ih buffer.length (Nat.lt_succ_of_le hlen) hdrop).symm
      simp only [List.length_cons, nameLoop, hloop]

theorem nameInside_iff {base buffer : List Byte} {n : ℕ} :
    NameInside base buffer n ↔ ∃ name, getName base buffer = some (name, n) := by
  constructor
  · rintro ⟨ls, offset, hsegment, hrest⟩
    cases offset with
    | none => exact ⟨labelsText ls, getName_of_ends hsegment⟩
    | some o =>
      obtain ⟨ls', n', offset', hsegment', hinside⟩ := hrest o rfl
      exact ⟨labelsText (ls ++ ls'), getName_of_segments hsegment hsegment' hinside⟩
  · rintro ⟨name, hname⟩
    obtain ⟨⟨first, tl, offset⟩, hloop, hname⟩ := Option.bind_eq_some_iff.mp hname
    obtain ⟨ls, hsegment, rfl⟩ := nameLoop_eq_some_iff.mp hloop
    cases offset with
    | none =>
      obtain ⟨-, rfl⟩ := Prod.mk.inj (Option.some.inj hname)
      exact ⟨ls, none, hsegment, nofun⟩
    | some o =>
      obtain ⟨sub, hsub, heq⟩ := Option.map_eq_some_iff.mp hname
      obtain ⟨-, rfl⟩ := Prod.mk.inj heq
      obtain ⟨ls', n', offset', hsegment', -, hinside⟩ := getRest_eq_some_iff.mp hsub
      refine ⟨ls, some o, hsegment, ?_⟩
      rintro _ ⟨⟩
      exact ⟨ls', n', offset', hsegment', hinside⟩

theorem skipQuestions_eq_some_iff {base work after : List Byte} {qdcount : ℕ} :
    skipQuestions base qdcount work = some after ↔ QuestionsInside base qdcount work after := by
  induction qdcount generalizing work with
  | zero =>
    constructor
    · intro h
      obtain rfl := Option.some.inj h
      exact .done work
    · rintro ⟨⟩
      rfl
  | succ qdcount ih =>
    constructor
    · intro h
      obtain ⟨⟨name, n⟩, hname, h⟩ := Option.bind_eq_some_iff.mp h
      obtain ⟨hfixed, hrest⟩ := Option.ite_none_left_eq_some.mp h
      rw [List.length_drop] at hfixed
      rw [List.drop_drop] at hrest
      exact .question (nameInside_iff.mpr ⟨name, hname⟩) (by omega) (ih.mp hrest)
    · intro h
      cases h with
      | @question _ n _ _ hname hfixed hrest =>
        obtain ⟨name, hname⟩ := nameInside_iff.mp hname
        have hlength : ¬(work.drop n).length < 4 := by
          rw [List.length_drop]
          omega
        simp only [skipQuestions, hname, Option.bind_eq_bind, Option.bind_some, if_neg hlength,
          List.drop_drop]
        exact ih.mpr hrest

theorem readHeader_eq_some {base work rest : List Byte} {h : Header}
    (hread : readHeader base work = some (h, rest)) :
    ∃ n, NameInside base work n ∧ ∃ t₀ t₁ c₀ c₁ a b c d l₀ l₁,
      work.drop n = t₀ :: t₁ :: c₀ :: c₁ :: a :: b :: c :: d :: l₀ :: l₁ :: rest ∧
        h.type = be16 t₀ t₁ ∧ h.len = be16 l₀ l₁ := by
  obtain ⟨⟨name, n⟩, hname, hread⟩ := Option.bind_eq_some_iff.mp hread
  refine ⟨n, nameInside_iff.mpr ⟨name, hname⟩, ?_⟩
  dsimp only at hread
  split at hread
  · next t₀ t₁ c₀ c₁ a b c d l₀ l₁ rest' hdrop =>
    obtain ⟨rfl, rfl⟩ := Prod.mk.inj (Option.some.inj hread)
    exact ⟨t₀, t₁, c₀, c₁, a, b, c, d, l₀, l₁, hdrop, rfl, rfl⟩
  · cases hread

theorem isSome_store_iff {base work : List Byte} (ts : ℤ) (dns : Dns) (h : Header) :
    (store base ts dns h work).isSome ↔ DataInside base h.type h.len work := by
  have haddr : ∀ af : AddrFamily, (anyAddr af work).isSome ↔ af.size ≤ work.length := by
    intro af
    rw [anyAddr]
    split_ifs with hlen <;> rw [List.length_take] at hlen <;> simp <;> omega
  have hname : (getName base work).isSome ↔ ∃ n, NameInside base work n := by
    simp only [nameInside_iff, Option.isSome_iff_exists, Prod.exists]
    exact exists_comm
  rw [store]
  by_cases ha : h.len = 4 ∧ h.type = 1
  · rw [if_pos ha, Option.isSome_map, haddr]
    exact ⟨fun hwork => ⟨fun _ _ => hwork, by simp [ha.2], by simp [ha.2]⟩, fun hin => hin.a ha.2 ha.1⟩
  rw [if_neg ha]
  by_cases hcname : h.type = 5
  · rw [if_pos hcname, Option.isSome_map, hname]
    exact ⟨fun hwork => ⟨by simp [hcname], fun _ => hwork, by simp [hcname]⟩, fun hin => hin.cname hcname⟩
  rw [if_neg hcname]
  by_cases haaaa : h.len = 16 ∧ h.type = 28
  · rw [if_pos haaaa, Option.isSome_map, haddr]
    exact ⟨fun hwork => ⟨by simp [haaaa.2], by simp [haaaa.2], fun _ _ => hwork⟩,
      fun hin => hin.aaaa haaaa.2 haaaa.1⟩
  · rw [if_neg haaaa]
    exact iff_of_true rfl ⟨fun ht hl => absurd ⟨hl, ht⟩ ha, fun ht => absurd ht hcname,
      fun ht hl => absurd ⟨hl, ht⟩ haaaa⟩

theorem isSome_readAnswers_iff {base work : List Byte} {ts : ℤ} {ancount : ℕ} {dns : Dns} :
    (readAnswers base ts ancount work dns).isSome ↔ AnswersInside base ancount work := by
  induction ancount generalizing work dns with
  | zero => exact iff_of_true rfl (.done work)
  | succ ancount ih =>
    constructor
    · intro h
      obtain ⟨dns', h⟩ := Option.isSome_iff_exists.mp h
      obtain ⟨⟨header, rest⟩, hheader, h⟩ := Option.bind_eq_some_iff.mp h
      obtain ⟨stored, hstore, h⟩ := Option.bind_eq_some_iff.mp h
      obtain ⟨n, hname, t₀, t₁, c₀, c₁, a, b, c, d, l₀, l₁, hfixed, htype, hlen⟩ :=
        readHeader_eq_some hheader
      have hdata := (isSome_store_iff ts dns header).mp (Option.isSome_of_eq_some hstore)
      rw [htype, hlen] at hdata
      exact .answer hname hfixed hdata (ih.mp (Option.isSome_of_eq_some h))
    · intro h
      cases h with
      | @answer _ n _ rest t₀ t₁ c₀ c₁ a b c d l₀ l₁ hname hfixed hdata hrest =>
        obtain ⟨name, hname⟩ := nameInside_iff.mp hname
        obtain ⟨stored, hstore⟩ := Option.isSome_iff_exists.mp <|
          (isSome_store_iff ts dns ⟨name, be16 t₀ t₁, (be32 a b c d).toInt, be16 l₀ l₁⟩).mpr hdata
        simp only [readAnswers, readHeader, hname, hfixed, Option.bind_eq_bind, Option.bind_some,
          hstore]
        exact ih.mpr hrest

/-! ## A datagram from the server -/

/-- For every datagram from the name server, `dns::input` reads only bytes of it exactly if it is whole. -/
theorem isSome_input_iff (dns : Dns) (data : List Byte) (ts : ℤ) :
    (input dns dns.dnsIp data ts).isSome ↔ Whole data := by
  have heq : ¬dns.dnsIp ≠ dns.dnsIp := not_not.mpr rfl
  unfold input
  rw [if_neg heq]
  constructor
  · intro h
    split at h
    · next i₀ i₁ f₀ f₁ counts =>
      split_ifs at h with hflags
      · exact .noError rfl hflags
      split at h
      · next q₀ q₁ a₀ a₁ rest =>
        obtain ⟨dns', h⟩ := Option.isSome_iff_exists.mp h
        obtain ⟨work, hquestions, hanswers⟩ := Option.bind_eq_some_iff.mp h
        exact .sections rfl (skipQuestions_eq_some_iff.mp hquestions)
          (isSome_readAnswers_iff.mp (Option.isSome_of_eq_some hanswers))
      · cases h
    · cases h
  · rintro (⟨rfl, hflags⟩ | ⟨rfl, hquestions, hanswers⟩)
    · exact (congrArg Option.isSome (if_pos hflags)).trans rfl
    · dsimp only
      split_ifs with hflags
      · rfl
      · rw [skipQuestions_eq_some_iff.mpr hquestions]
        exact isSome_readAnswers_iff.mpr hanswers

namespace Sample

/-- One question, whose name goes on at the last place that a pointer can lead to. -/
def farPointer : List Byte := [0, 0, 0x81, 0x80, 0, 1, 0, 0, 0, 0, 0, 0, 0xff, 0xff, 0, 1, 0, 1]

def noRecords : Dns := ⟨.ipv4 192 0 2 53, fun _ => none, fun _ => none⟩

end Sample

/-- The byte at that place is read, 16365 bytes behind the end of the datagram. -/
theorem not_isSome_input :
    ¬(input Sample.noRecords Sample.noRecords.dnsIp Sample.farPointer 0).isSome := by
  decide +kernel

end MyIp.Dns
