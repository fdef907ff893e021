import MyIp.Snmp.Request

/-! # The buffers that SNMP elements are encoded into

`get_payload` once more, on the blocks that it allocates: 256 bytes for a sequence, and the 8 bit
length for an octet string. A copy that reaches outside its block has no result.

Nothing is ever copied outside the block of a sequence. But its offset has 8 bits too, and when the
elements fill the block to its last byte the next one is copied over the header
(`sequence_payload_iff`). An octet string of 254 or 255 bytes has a block of 0 or 1
(`octet_string_written_iff`), and a request may set such a community (`community_length_le`). -/

namespace MyIp.Snmp
set_option autoImplicit false

open Bytes CText Net

/-- `memcpy` to the offset `off` of a block. -/
def copyInto (block : List Byte) (off : ℕ) (d : List Byte) : Option (List Byte) :=
  if off + d.length ≤ block.length then some (writeAt block off d) else none

theorem copyInto_inside {block d : List Byte} {off : ℕ} (h : off + d.length ≤ block.length) :
    copyInto block off d = some (writeAt block off d) :=
  if_pos h

theorem take_writeAt {block d : List Byte} {off : ℕ} (h : off + d.length ≤ block.length) :
    (writeAt block off d).take (off + d.length) = block.take off ++ d := by
  have hlen : (block.take off ++ d).length = off + d.length := by
    rw [List.length_append, List.length_take]
    omega
  rw [writeAt, ← hlen, List.take_left]

/-! ## Sequences -/

/-- The loop over the elements, on the whole buffer. -/
def fillBuffer (out : List Byte) (o : Byte) : List (List Byte × Byte) → Option (List Byte × Byte)
  | [] => some (out, o)
  | pl :: pls =>
    if o.toNat + pl.2.toNat > 256 then some (out, o)
    else (copyInto out o.toNat (pl.1.take pl.2.toNat)).bind fun out =>
      fillBuffer out (o + pl.2) pls

/-- `snmp_sequence::get_payload`: `fresh` is the block that `malloc` returned, and the result the
block with the offset that is returned as its size. -/
def sequenceBuffer (fresh : List Byte) (pls : List (List Byte × Byte)) :
    Option (List Byte × Byte) :=
  (copyInto fresh 0 [0x30]).bind fun out =>
    (fillBuffer out 2 pls).bind fun r => (copyInto r.1 1 [r.2 - 2]).map fun out => (out, r.2)

/-- `snmp_pdu::get_payload` -/
def pduBuffer (type : Byte) (fresh : List Byte) (pls : List (List Byte × Byte)) :
    Option (List Byte × Byte) :=
  (sequenceBuffer fresh pls).bind fun r => (copyInto r.1 0 [type]).map fun out => (out, r.2)

/-- The elements that are copied from the offset `o` on, when the offset does not wrap. -/
def copiedFrom : ℕ → List (List Byte × Byte) → List (List Byte × Byte)
  | _, [] => []
  | o, pl :: pls =>
    if o + pl.2.toNat > 256 then [] else pl :: copiedFrom (o + pl.2.toNat) pls

/-- The elements that are copied after the buffer was last filled to its last byte; nothing if it
never is. -/
def sinceFull : ℕ → List (List Byte × Byte) → Option (List (List Byte × Byte))
  | _, [] => none
  | o, pl :: pls =>
    if o + pl.2.toNat > 256 then none
    else if o + pl.2.toNat = 256 then some ((sinceFull 0 pls).getD (copiedFrom 0 pls))
    else sinceFull (o + pl.2.toNat) pls

/-- The encodings one after the other. -/
def joined (pls : List (List Byte × Byte)) : List Byte := pls.flatMap Prod.fst

theorem joined_cons (pl : List Byte × Byte) (pls : List (List Byte × Byte)) :
    joined (pl :: pls) = pl.1 ++ joined pls :=
  List.flatMap_cons

theorem copiedFrom_isPrefix (o : ℕ) (pls : List (List Byte × Byte)) :
    copiedFrom o pls <+: pls := by
  induction pls generalizing o with
  | nil => exact List.prefix_rfl
  | cons pl pls ih =>
    unfold copiedFrom
    split
    · exact List.nil_prefix
    · exact (List.prefix_cons_inj pl).mpr (ih _)

/-- The encoding of an element has the size that is returned for it. -/
def Consistent (pl : List Byte × Byte) : Prop := pl.1.length = pl.2.toNat

/-- The buffer up to the offset is what `fillSequence` computes. -/
theorem fillBuffer_eq {out base : List Byte} {o : Byte} {pls : List (List Byte × Byte)}
    (consistent : ∀ pl ∈ pls, Consistent pl) (hlen : out.length = 256)
    (hbase : out.take o.toNat = base) :
    ∃ out', fillBuffer out o pls = some (out', (fillSequence base o pls).2) ∧
      out'.length = 256 ∧
      out'.take (fillSequence base o pls).2.toNat = (fillSequence base o pls).1 := by
  induction pls generalizing out base o with
  | nil => exact ⟨out, rfl, hlen, hbase⟩
  | cons pl pls ih =>
    have hpl : pl.1.length = pl.2.toNat := consistent pl List.mem_cons_self
    have htake : pl.1.take pl.2.toNat = pl.1 := by rw [← hpl, List.take_length]
    unfold fillBuffer fillSequence
    by_cases hfit : o.toNat + pl.2.toNat > 256
    · rw [if_pos hfit, if_pos hfit]
      exact ⟨out, rfl, hlen, hbase⟩
    · have hinside : o.toNat + pl.1.length ≤ out.length := by omega
      rw [if_neg hfit, if_neg hfit, htake, copyInto_inside hinside, Option.bind_some]
      refine ih (fun pl' h => consistent pl' (List.mem_cons_of_mem _ h))
        ((writeAt_length hinside).trans hlen) ?_
      have hcopied := take_writeAt hinside
      rw [hbase] at hcopied
      -- either the offset moves to the end of the copy, or it is 0 again
      by_cases hfull : o.toNat + pl.2.toNat = 256
      · have hzero : (o + pl.2).toNat = 0 := by
          rw [BitVec.toNat_add]
          omega
        rw [hzero, List.take_zero, List.take_zero]
      · have hsum : (o + pl.2).toNat = o.toNat + pl.1.length := by
          rw [BitVec.toNat_add, hpl]
          omega
        rw [hsum, hcopied, List.take_of_length_le]
        rw [List.length_append, ← hbase, List.length_take]
        omega

theorem fillSequence_of_not_full {pls : List (List Byte × Byte)} {o : ℕ} {base : List Byte}
    (consistent : ∀ pl ∈ pls, Consistent pl) (hbase : base.length = o) (ho : o < 256)
    (h : sinceFull o pls = none) :
    fillSequence base (BitVec.ofNat 8 o) pls =
        (base ++ joined (copiedFrom o pls),
          BitVec.ofNat 8 (o + (joined (copiedFrom o pls)).length)) ∧
      o + (joined (copiedFrom o pls)).length < 256 := by
  induction pls generalizing o base with
  | nil => simp [fillSequence, copiedFrom, joined, ho]
  | cons pl pls ih =>
    have hpl : pl.1.length = pl.2.toNat := consistent pl List.mem_cons_self
    have hoff : (BitVec.ofNat 8 o).toNat = o := toNat_ofNat_of_lt ho
    unfold sinceFull at h
    unfold fillSequence copiedFrom
    rw [hoff]
    by_cases hfit : o + pl.2.toNat > 256
    · rw [if_pos hfit, if_pos hfit]
      simp [joined, ho]
    · rw [if_neg hfit] at h
      by_cases hfull : o + pl.2.toNat = 256
      · rw [if_pos hfull] at h
        cases h
      · rw [if_neg hfull] at h
        have hsum : BitVec.ofNat 8 o + pl.2 = BitVec.ofNat 8 (o + pl.2.toNat) := by
          rw [BitVec.ofNat_add, BitVec.ofNat_toNat, BitVec.setWidth_eq]
        have hto : (BitVec.ofNat 8 (o + pl.2.toNat)).toNat = o + pl.2.toNat :=
          toNat_ofNat_of_lt (by omega)
        have hall : (base ++ pl.1).length = o + pl.2.toNat := by
          rw [List.length_append, hbase, hpl]
        obtain ⟨hrest, hlt⟩ := ih (fun pl' h => consistent pl' (List.mem_cons_of_mem _ h)) hall
          (by omega) h
        rw [if_neg hfit, if_neg hfit, hsum, hto, ← hpl, List.take_length, hpl, ← hall,
          List.take_length, hall, joined_cons, hrest, List.length_append, hpl]
        simp only [List.append_assoc, Nat.add_assoc, true_and]
        omega

/-- After the buffer was full, only what was copied since counts. -/
theorem fillSequence_of_full {pls since : List (List Byte × Byte)} {o : ℕ} {base : List Byte}
    (consistent : ∀ pl ∈ pls, Consistent pl) (hbase : base.length = o) (ho : o < 256)
    (h : sinceFull o pls = some since) :
    fillSequence base (BitVec.ofNat 8 o) pls =
        (joined since, BitVec.ofNat 8 (joined since).length) ∧ (joined since).length < 256 := by
  induction pls generalizing o base with
  | nil => cases h
  | cons pl pls ih =>
    have hpl : pl.1.length = pl.2.toNat := consistent pl List.mem_cons_self
    have hoff : (BitVec.ofNat 8 o).toNat = o := toNat_ofNat_of_lt ho
    have hsum : BitVec.ofNat 8 o + pl.2 = BitVec.ofNat 8 (o + pl.2.toNat) := by
      rw [BitVec.ofNat_add, BitVec.ofNat_toNat, BitVec.setWidth_eq]
    have consistent' : ∀ pl' ∈ pls, Consistent pl' :=
      fun pl' h => consistent pl' (List.mem_cons_of_mem _ h)
    unfold sinceFull at h
    unfold fillSequence
    rw [hoff]
    by_cases hfit : o + pl.2.toNat > 256
    · rw [if_pos hfit] at h
      cases h
    · rw [if_neg hfit] at h
      rw [if_neg hfit, hsum]
      by_cases hfull : o + pl.2.toNat = 256
      · rw [if_pos hfull] at h
        have hzero : BitVec.ofNat 8 (o + pl.2.toNat) = BitVec.ofNat 8 0 := by
          rw [hfull]
          rfl
        rw [hzero, BitVec.toNat_ofNat, Nat.zero_mod, List.take_zero]
        cases hrest : sinceFull 0 pls with
        | none =>
          rw [hrest, Option.getD_none, Option.some.injEq] at h
          subst h
          have hfill := fillSequence_of_not_full consistent' List.length_nil (by decide) hrest
          rw [List.nil_append, Nat.zero_add] at hfill
          exact hfill
        | some since' =>
          rw [hrest, Option.getD_some, Option.some.injEq] at h
          subst h
          exact ih consistent' List.length_nil (by decide) hrest
      · rw [if_neg hfull] at h
        have hto : (BitVec.ofNat 8 (o + pl.2.toNat)).toNat = o + pl.2.toNat :=
          toNat_ofNat_of_lt (by omega)
        have hall : (base ++ pl.1).length = o + pl.2.toNat := by
          rw [List.length_append, hbase, hpl]
        rw [hto, ← hpl, List.take_length, hpl, ← hall, List.take_length, hall]
        exact ih consistent' hall (by omega) h

theorem cons_cons_of_length {out : List Byte} (h : out.length = 256) :
    ∃ a b rest, out = a :: b :: rest := by
  obtain ⟨a, out, rfl⟩ := List.exists_cons_of_length_pos (l := out) (by omega)
  obtain ⟨b, rest, rfl⟩ := List.exists_cons_of_length_pos (l := out) (by
    rw [List.length_cons] at h
    omega)
  exact ⟨a, b, rest, rfl⟩

/-- What the buffer of a sequence holds at the end, with the offset `o` reached by the loop. -/
def Filled (r : Option (List Byte × Byte)) (o : Byte) (content : List Byte) : Prop :=
  ∃ out, r = some (out, o) ∧ out.length = 256 ∧ out.getD 1 0 = o - 2 ∧
    (out.take o.toNat).drop 2 = content

/-- The buffer with the length byte put in. -/
theorem sequenceBuffer_taken {fresh : List Byte} {pls : List (List Byte × Byte)}
    (consistent : ∀ pl ∈ pls, Consistent pl) (hfresh : fresh.length = 256) :
    ∃ (b : Byte) (out : List Byte), out.length = 256 ∧
      out.take (fillSequence [0x30, b] 2 pls).2.toNat = (fillSequence [0x30, b] 2 pls).1 ∧
      sequenceBuffer fresh pls = some (out.set 1 ((fillSequence [0x30, b] 2 pls).2 - 2),
        (fillSequence [0x30, b] 2 pls).2) := by
  obtain ⟨a, b, rest, rfl⟩ := cons_cons_of_length hfresh
  have hhead : copyInto (a :: b :: rest) 0 [0x30] = some (0x30 :: b :: rest) :=
    copyInto_inside (by simp)
  have hlen : ((0x30 : Byte) :: b :: rest).length = 256 := hfresh
  have hbase : (0x30 :: b :: rest).take (2 : Byte).toNat = [0x30, b] := rfl
  obtain ⟨out, hfill, hlen, htake⟩ := fillBuffer_eq consistent hlen hbase
  refine ⟨b, out, hlen, htake, ?_⟩
  rw [sequenceBuffer, hhead, Option.bind_some, hfill, Option.bind_some]
  obtain ⟨a', b', rest', rfl⟩ := cons_cons_of_length hlen
  rw [copyInto_inside (by simp)]
  rfl

theorem sequenceBuffer_filled {fresh : List Byte} {pls : List (List Byte × Byte)}
    (consistent : ∀ pl ∈ pls, Consistent pl) (hfresh : fresh.length = 256) :
    ∃ base : List Byte, base.length = 2 ∧
      Filled (sequenceBuffer fresh pls) (fillSequence base 2 pls).2
        ((fillSequence base 2 pls).1.drop 2) := by
  obtain ⟨b, out, hlen, htake, hr⟩ := sequenceBuffer_taken consistent hfresh
  refine ⟨[0x30, b], rfl, _, hr, by rw [List.length_set, hlen], ?_, ?_⟩
  · obtain ⟨a, c, rest, rfl⟩ := cons_cons_of_length hlen
    rfl
  · rw [← htake, List.drop_take, List.drop_take, List.drop_set_of_lt (by decide)]

theorem pduBuffer_filled {type o : Byte} {fresh content : List Byte}
    {pls : List (List Byte × Byte)} (h : Filled (sequenceBuffer fresh pls) o content) :
    Filled (pduBuffer type fresh pls) o content := by
  obtain ⟨out, hr, hlen, hone, hcontent⟩ := h
  obtain ⟨a, b, rest, rfl⟩ := cons_cons_of_length hlen
  have hcopy : copyInto (a :: b :: rest) 0 [type] = some (type :: b :: rest) :=
    copyInto_inside (by simp)
  refine ⟨type :: b :: rest, ?_, hlen, hone, ?_⟩
  · rw [pduBuffer, hr, Option.bind_some, hcopy, Option.map_some]
  · rw [← hcontent, List.drop_take, List.drop_take]
    rfl

/-- Nothing was written outside the buffer, the size is that of the header and of the content that
the length byte announces, and the content is the encodings of the first elements. -/
def WellFormed (pls : List (List Byte × Byte)) (r : Option (List Byte × Byte)) : Prop :=
  ∃ out o, r = some (out, o) ∧ o.toNat = 2 + (out.getD 1 0).toNat ∧
    ∃ k, (out.take o.toNat).drop 2 = joined (pls.take k)

/-- The buffer is never filled to its last byte; or what is copied over the header after that
happens to continue as the first elements do. -/
def HeaderSurvives (pls : List (List Byte × Byte)) : Prop :=
  ∀ since, sinceFull 2 pls = some since →
    2 ≤ (joined since).length ∧ ∃ k, (joined since).drop 2 = joined (pls.take k)

theorem size_eq_iff (o : Byte) : o.toNat = 2 + (o - 2).toNat ↔ 2 ≤ o.toNat := by
  have ho := o.isLt
  rw [BitVec.toNat_sub, show (2 : Byte).toNat = 2 from rfl]
  omega

theorem Filled.wellFormed_iff {r : Option (List Byte × Byte)} {o : Byte} {content : List Byte}
    {pls : List (List Byte × Byte)} (h : Filled r o content) :
    WellFormed pls r ↔ 2 ≤ o.toNat ∧ ∃ k, content = joined (pls.take k) := by
  obtain ⟨out, rfl, -, hone, rfl⟩ := h
  constructor
  · rintro ⟨out', o', hr, hsize, hcontent⟩
    obtain ⟨rfl, rfl⟩ := Prod.mk.inj (Option.some.inj hr)
    rw [hone] at hsize
    exact ⟨(size_eq_iff o).mp hsize, hcontent⟩
  · rintro ⟨hsize, hcontent⟩
    refine ⟨out, o, rfl, ?_, hcontent⟩
    rw [hone]
    exact (size_eq_iff o).mpr hsize

theorem filled_iff {pls : List (List Byte × Byte)} {base : List Byte}
    (consistent : ∀ pl ∈ pls, Consistent pl) (hbase : base.length = 2) :
    (2 ≤ (fillSequence base 2 pls).2.toNat ∧
      ∃ k, (fillSequence base 2 pls).1.drop 2 = joined (pls.take k)) ↔ HeaderSurvives pls := by
  have htwo : (2 : Byte) = BitVec.ofNat 8 2 := rfl
  rw [HeaderSurvives, htwo]
  cases hsince : sinceFull 2 pls with
  | none =>
    obtain ⟨hfill, hlt⟩ := fillSequence_of_not_full consistent hbase (by decide) hsince
    refine iff_of_true ?_ fun since h => by cases h
    rw [hfill, toNat_ofNat_of_lt (by omega)]
    refine ⟨by omega, (copiedFrom 2 pls).length, ?_⟩
    rw [← hbase, List.drop_left]
    congr 1
    exact List.prefix_iff_eq_take.mp (copiedFrom_isPrefix _ pls)
  | some since =>
    obtain ⟨hfill, hlt⟩ := fillSequence_of_full consistent hbase (by decide) hsince
    rw [hfill, toNat_ofNat_of_lt (by omega)]
    constructor
    · rintro h since' hs
      obtain rfl := Option.some.inj hs
      exact h
    · exact fun h => h since rfl

/-- A sequence, and so a PDU, is encoded as a well-formed element if and only if the elements do not
fill its buffer to the last byte, coincidences apart; nothing is written outside in any case. -/
theorem sequence_payload_iff (elems : List Elem)
    (consistent : ∀ pl ∈ getPayloads elems, Consistent pl) (fresh : List Byte)
    (hfresh : fresh.length = 256) :
    sequenceBuffer fresh (getPayloads elems) ≠ none ∧
    (WellFormed (getPayloads elems) (sequenceBuffer fresh (getPayloads elems)) ↔
      HeaderSurvives (getPayloads elems)) ∧
    ∀ type, pduBuffer type fresh (getPayloads elems) ≠ none ∧
      (WellFormed (getPayloads elems) (pduBuffer type fresh (getPayloads elems)) ↔
        HeaderSurvives (getPayloads elems)) := by
  obtain ⟨base, hbase, hfilled⟩ := sequenceBuffer_filled consistent hfresh
  have hsome : ∀ r, Filled r (fillSequence base 2 (getPayloads elems)).2
      ((fillSequence base 2 (getPayloads elems)).1.drop 2) → r ≠ none := by
    intro r h
    obtain ⟨out, hr, -⟩ := h
    rw [hr]
    exact Option.some_ne_none _
  refine ⟨hsome _ hfilled, ?_, fun type => ⟨hsome _ (pduBuffer_filled hfilled), ?_⟩⟩
  · rw [hfilled.wellFormed_iff, filled_iff consistent hbase]
  · rw [(pduBuffer_filled hfilled).wellFormed_iff, filled_iff consistent hbase]

/-- A variable binding with its name and a string, and what comes before it. -/
theorem sequence_payload_varbind :
    let elems : List Elem := [.integer .integer 1, .octetString [0x61, 0x62, 0x63],
      .sequence [.oid [0x2b, 6, 1], .octetString [0x64]]]
    let fresh := List.replicate 256 (0xff : Byte)
    (WellFormed (getPayloads elems) (sequenceBuffer fresh (getPayloads elems)) ∧
      WellFormed (getPayloads elems) (pduBuffer 0xa2 fresh (getPayloads elems))) ∧
    (sequenceBuffer fresh (getPayloads elems)).map (fun r => r.1.take r.2.toNat) =
      some [0x30, 21, 0x02, 4, 0, 0, 0, 1, 0x04, 3, 0x61, 0x62, 0x63,
        0x30, 8, 0x06, 3, 0x2b, 6, 1, 0x04, 1, 0x64] := by
  intro elems fresh
  have consistent : ∀ pl ∈ getPayloads elems, Consistent pl := by
    unfold Consistent
    decide +kernel
  have hroom : sinceFull 2 (getPayloads elems) = none := by decide +kernel
  have survives : HeaderSurvives (getPayloads elems) := by
    intro since h
    rw [hroom] at h
    cases h
  obtain ⟨-, hsequence, hpdu⟩ :=
    sequence_payload_iff elems consistent fresh List.length_replicate
  exact ⟨⟨hsequence.mpr survives, (hpdu 0xa2).2.mpr survives⟩, by decide +kernel⟩

/-- A string of 252 bytes makes 256 bytes with the two headers: the size that is returned is 0, and
the length byte 254. -/
theorem sequence_payload_full :
    let pls := getPayloads [.octetString (List.replicate 252 0x61)]
    (∀ pl ∈ pls, Consistent pl) ∧
      (sequenceBuffer (List.replicate 256 0) pls).map (fun r => (r.1.getD 1 0, r.2)) =
        some (254, 0) ∧
      ¬ WellFormed pls (sequenceBuffer (List.replicate 256 0) pls) := by
  intro pls
  have hsize : (sequenceBuffer (List.replicate 256 0) pls).map (fun r => (r.1.getD 1 0, r.2)) =
      some (254, 0) := by
    decide +kernel
  refine ⟨?_, hsize, ?_⟩
  · intro pl hpl
    obtain rfl := List.mem_singleton.mp hpl
    rw [Consistent]
    decide +kernel
  · rintro ⟨out, o, hr, ho, -⟩
    rw [hr, Option.map_some, Option.some.injEq, Prod.mk.injEq] at hsize
    obtain ⟨hone, hzero⟩ : out.getD 1 0 = 254 ∧ o = 0 := hsize
    rw [hone, hzero] at ho
    exact absurd ho (by decide)

/-! ## Octet strings -/

/-- `len` of an octet string, as its constructor sets it. -/
def stringLen (v : List Byte) : Byte := BitVec.ofNat 8 (v.length + 2)

/-- `pl_len` -/
def stringPlLen (v : List Byte) : Byte := stringLen v - 2

/-- `snmp_octet_string::get_payload`: `fresh` is the block of `out_len` bytes that `malloc`
returned. -/
def stringBuffer (v fresh : List Byte) : Option (List Byte × Byte) :=
  (copyInto fresh 2 (v.take (stringPlLen v).toNat)).bind fun out =>
    (copyInto out 0 [0x04]).bind fun out =>
      (copyInto out 1 [stringPlLen v]).map fun out => (out, stringLen v)

/-- The bytes that are written: `pl_len` of the string, the type and the length. -/
def stringWritten (v : List Byte) : ℕ := (v.take (stringPlLen v).toNat).length + 2

/-- No byte is written outside the block, there are as many as it has and as are returned for it,
and the length byte is the length of the string. -/
structure WritesExactly (v : List Byte) : Prop where
  inside : ∀ fresh : List Byte, fresh.length = (stringLen v).toNat →
    ∃ out, stringBuffer v fresh = some (out, stringLen v)
  written : stringWritten v = (stringLen v).toNat
  length : (stringPlLen v).toNat = v.length

theorem stringPlLen_toNat (v : List Byte) : (stringPlLen v).toNat = v.length % 256 := by
  rw [stringPlLen, stringLen, len_sub_two, BitVec.toNat_ofNat]

/-- There is room for the string, cut to the length that fits into 8 bits. -/
theorem stringBuffer_inside {v fresh : List Byte} (h : v.length % 256 < 254)
    (hfresh : fresh.length = (stringLen v).toNat) :
    stringBuffer v fresh =
      some (0x04 :: stringPlLen v :: v.take (stringPlLen v).toNat, stringLen v) := by
  have hlen : (stringLen v).toNat = (v.length + 2) % 256 := BitVec.toNat_ofNat ..
  have hcut : (v.take (stringPlLen v).toNat).length = v.length % 256 := by
    rw [List.length_take, stringPlLen_toNat]
    omega
  rw [stringBuffer]
  generalize v.take (stringPlLen v).toNat = w at hcut ⊢
  obtain ⟨a, fresh, rfl⟩ := List.exists_cons_of_length_pos (l := fresh) (by omega)
  obtain ⟨b, fresh, rfl⟩ := List.exists_cons_of_length_pos (l := fresh) (by
    rw [List.length_cons] at hfresh
    omega)
  have hrest : fresh.length = w.length := by
    simp only [List.length_cons] at hfresh
    omega
  have hcontent : writeAt (a :: b :: fresh) 2 w = a :: b :: w := by
    simp [writeAt, hrest, Nat.add_comm 2]
  rw [copyInto_inside (by simp [hrest]; omega), hcontent, Option.bind_some,
    copyInto_inside (by simp), Option.bind_some, copyInto_inside (by simp [writeAt])]
  rfl

/-- Strings of up to 253 bytes, and no others. -/
theorem writesExactly_iff (v : List Byte) : WritesExactly v ↔ v.length ≤ 253 := by
  constructor
  · intro h
    have hlength := h.length
    have hwritten := h.written
    have hlen : (stringLen v).toNat = (v.length + 2) % 256 := BitVec.toNat_ofNat ..
    rw [stringWritten, List.length_take, hlength, Nat.min_self, hlen] at hwritten
    rw [stringPlLen_toNat] at hlength
    omega
  · intro h
    have hpl : (stringPlLen v).toNat = v.length := by
      rw [stringPlLen_toNat]
      omega
    refine ⟨fun fresh hfresh => ⟨_, stringBuffer_inside (by omega) hfresh⟩, ?_, hpl⟩
    rw [stringWritten, hpl, List.take_length]
    exact (toNat_ofNat_of_lt (by omega)).symm

/-! ## The community of a request -/

/-- A property of requests that holds on with everything that the parser writes into them. -/
structure Kept (I : OidReq → Prop) : Prop where
  version : ∀ req v, I req → I { req with version := v }
  community : ∀ req (body : List Byte), body.length ≤ 255 → I req → I { req with community := body }
  reqId : ∀ req id, I req → I { req with reqId := id }
  oids : ∀ req oids, I req → I { req with oids := oids }
  err : ∀ req err idx, I req → I { req with err := err, errIdx := idx }

section Kept
variable {I : OidReq → Prop} {data : List Node}

theorem takeOid_kept (kept : Kept I) {isGetnext ok : Bool} {body : List Byte} {req req' : OidReq}
    (h : I req) (hr : takeOid data isGetnext body req = some (ok, req')) : I req' := by
  unfold takeOid at hr
  dsimp only at hr
  split at hr
  · cases hr
    exact h
  · split at hr
    · split at hr
      · cases hr
      · cases hr
        exact kept.err req 2 1 h
      · cases hr
        exact kept.oids req _ h
    · cases hr
      exact kept.oids req _ h

theorem pduHead_kept (kept : Kept I) {p : List Byte} {len : ℕ} {req req' : OidReq}
    {p' : Option (List Byte)} (h : I req) (hr : pduHead p len req = some (p', req')) : I req' := by
  unfold pduHead at hr
  split at hr
  · cases hr
  · cases hr
    exact h
  · dsimp only at hr
    split at hr
    · cases hr
    · cases hr
      exact kept.reqId req _ h
    · split at hr
      · cases hr
      · cases hr
        exact kept.reqId req _ h
      · cases hr
        exact kept.reqId req _ h

mutual

theorem processBer_kept (kept : Kept I) {isGetnext ok : Bool} {isTop : ℤ} {p : List Byte} {len : ℕ}
    {req req' : OidReq} (h : I req)
    (hr : processBer data isGetnext isTop p len req = some (ok, req')) : I req' := by
  unfold processBer at hr
  split at hr
  · cases hr
    exact h
  · exact berLoop_kept kept h hr
termination_by (p.length, 1)

theorem berLoop_kept (kept : Kept I) {isGetnext ok firstInteger firstOctetStr : Bool} {isTop : ℤ}
    {p : List Byte} {left : ℕ} {req req' : OidReq} (h : I req)
    (hr : berLoop data isGetnext isTop p left firstInteger firstOctetStr req = some (ok, req')) :
    I req' := by
  unfold berLoop at hr
  split at hr
  · cases hr
    exact h
  · split at hr
    · rename_i type length pnt
      have hlength : length.toNat ≤ 255 := Nat.le_of_lt_succ length.isLt
      split at hr
      · cases hr
        exact h
      · unfold andThen at hr
        split at hr
        · rename_i req₁ helement
          exact berLoop_kept kept (berElement_kept kept hlength h helement) hr
        · exact berElement_kept kept hlength h hr
    · cases hr
termination_by (p.length, 0)

theorem berElement_kept (kept : Kept I) {isGetnext ok firstInteger firstOctetStr : Bool}
    {isTop : ℤ} {type : Byte} {pnt : List Byte} {length : ℕ} {req req' : OidReq}
    (hlength : length ≤ 255) (h : I req)
    (hr : berElement data isGetnext isTop type pnt length firstInteger firstOctetStr req =
      some (ok, req')) : I req' := by
  unfold berElement at hr
  by_cases h02 : type = 0x02
  · rw [if_pos h02] at hr
    by_cases hfirst : isTop ≠ 0 ∧ firstInteger = true
    · rw [if_pos hfirst] at hr
      obtain ⟨body, -, hbody⟩ := Option.map_eq_some_iff.mp hr
      cases hbody
      exact kept.version req _ h
    · rw [if_neg hfirst] at hr
      cases hr
      exact h
  rw [if_neg h02] at hr
  by_cases h04 : type = 0x04
  · rw [if_pos h04] at hr
    by_cases hfirst : isTop ≠ 0 ∧ firstOctetStr = true
    · rw [if_pos hfirst] at hr
      obtain ⟨body, hbytes, hbody⟩ := Option.map_eq_some_iff.mp hr
      cases hbody
      refine kept.community req body ?_ h
      obtain ⟨-, htake⟩ := Option.ite_none_right_eq_some.mp hbytes
      rw [← Option.some.inj htake]
      exact (List.length_take_le _ _).trans hlength
    · rw [if_neg hfirst] at hr
      cases hr
      exact h
  rw [if_neg h04] at hr
  by_cases h05 : type = 0x05
  · rw [if_pos h05] at hr
    cases hr
    exact h
  rw [if_neg h05] at hr
  by_cases h06 : type = 0x06
  · rw [if_pos h06] at hr
    obtain ⟨body, -, hbody⟩ := Option.bind_eq_some_iff.mp hr
    exact takeOid_kept kept h hbody
  rw [if_neg h06] at hr
  by_cases h30 : type = 0x30
  · rw [if_pos h30] at hr
    exact processBer_kept kept h hr
  rw [if_neg h30] at hr
  by_cases ha0 : type = 0xa0
  · rw [if_pos ha0] at hr
    exact processPdu_kept kept h hr
  rw [if_neg ha0] at hr
  by_cases ha1 : type = 0xa1
  · rw [if_pos ha1] at hr
    exact processPdu_kept kept h hr
  rw [if_neg ha1] at hr
  by_cases ha3 : type = 0xa3
  · rw [if_pos ha3] at hr
    exact processPdu_kept kept h hr
  · rw [if_neg ha3] at hr
    cases hr
    exact h
termination_by (pnt.length, 2)

theorem processPdu_kept (kept : Kept I) {isGetnext ok : Bool} {p : List Byte} {len : ℕ}
    {req req' : OidReq} (h : I req)
    (hr : processPdu data isGetnext p len req = some (ok, req')) : I req' := by
  unfold processPdu at hr
  split at hr
  · cases hr
  · rename_i req₁ hhead
    cases hr
    exact pduHead_kept kept h hhead
  · rename_i typeVbList p₁ req₁ hhead
    have h₁ := pduHead_kept kept h hhead
    split at hr
    · cases hr
      exact h₁
    · split at hr
      · exact varbindLoop_kept kept h₁ hr
      · cases hr
  · cases hr
termination_by (p.length, 0)
decreasing_by
  have hlt := pduHead_length hhead
  simp only [List.length_cons] at hlt
  exact Prod.Lex.left _ _ (by omega)

theorem varbindLoop_kept (kept : Kept I) {isGetnext ok : Bool} {p : List Byte} {left : ℕ}
    {req req' : OidReq} (h : I req)
    (hr : varbindLoop data isGetnext p left req = some (ok, req')) : I req' := by
  unfold varbindLoop at hr
  split at hr
  · cases hr
    exact h
  · split at hr
    · split at hr
      · cases hr
        exact h
      · split at hr
        · obtain ⟨⟨ok₁, req₁⟩, hber, hrest⟩ := Option.bind_eq_some_iff.mp hr
          exact varbindLoop_kept kept (processBer_kept kept h hber) hrest
        · cases hr
          exact h
    · cases hr
termination_by (p.length, 0)

end

end Kept

/-- The community that a request can set has at most 255 bytes. -/
theorem community_length_le {data : List Node} {p : List Byte} {ok : Bool} {req : OidReq}
    (h : processBer data false 2 p p.length OidReq.new = some (ok, req)) :
    req.community.length ≤ 255 := by
  have kept : Kept fun req => req.community.length ≤ 255 :=
    ⟨fun _ _ h => h, fun _ _ h _ => h, fun _ _ h => h, fun _ _ h => h, fun _ _ _ h => h⟩
  exact processBer_kept kept (Nat.zero_le _) h

/-- The community of the reply. -/
def replyCommunity (req : OidReq) : List Byte :=
  if req.community.isEmpty then publicCommunity else req.community

theorem replyCommunity_length (req : OidReq) :
    (replyCommunity req).length ≤ 253 ↔ req.community.length ≤ 253 := by
  rw [replyCommunity]
  cases hcommunity : req.community with
  | nil => exact iff_of_true (by decide) (by decide)
  | cons c cs => exact Iff.rfl

/-- The octet strings of a reply, be it the community of the request or a string of the tree, are
written as they are allocated if and only if they have at most 253 bytes. -/
theorem octet_string_written_iff (env : Env) (data : List Node) (p content : List Byte) (ok : Bool)
    (req : OidReq) (h : processBer data false 2 p p.length OidReq.new = some (ok, req)) :
    req.community.length ≤ 255 ∧
    (WritesExactly (replyCommunity req) ↔ req.community.length ≤ 253) ∧
    getData env (.staticString content) = .octetString content ∧
    (WritesExactly content ↔ content.length ≤ 253) := by
  refine ⟨community_length_le h, ?_, rfl, writesExactly_iff content⟩
  rw [writesExactly_iff, replyCommunity_length]

/-- A datagram that is a single octet string sets the community to it. -/
theorem community_of_string (data : List Node) {content : List Byte} (h : content.length < 256) :
    let p := 0x04 :: BitVec.ofNat 8 content.length :: content
    processBer data false 2 p p.length OidReq.new =
      some (true, { OidReq.new with community := content }) := by
  intro p
  have hlen : (BitVec.ofNat 8 content.length).toNat = content.length := toNat_ofNat_of_lt h
  have hbytes : bytesAt content content.length = some content := by
    rw [bytesAt, if_pos le_rfl, List.take_length]
  have hp : p.length = content.length + 2 := rfl
  rw [processBer, if_neg (by omega), hp, berLoop, hlen, if_neg (by omega), if_neg (by omega),
    berElement, if_neg (by decide), if_pos rfl, if_pos ⟨by decide, rfl⟩, hbytes, Option.map_some,
    andThen_true, Nat.sub_self, berLoop_done]

theorem octet_string_written_short :
    WritesExactly (replyCommunity { OidReq.new with community := [0x61, 0x62] }) :=
  (octet_string_written_iff ⟨fun _ => 0, 0⟩ [] [0x04, 2, 0x61, 0x62] [] true _
    (community_of_string [] (show [(0x61 : Byte), 0x62].length < 256 by decide))).2.1.mpr
      (by decide)

/-- For a community of 254 bytes no bytes are allocated, and 256 are written. -/
theorem octet_string_overrun_254 :
    let content : List Byte := List.replicate 254 0x61
    let p := 0x04 :: 254 :: content
    ∃ req, processBer [] false 2 p p.length OidReq.new = some (true, req) ∧
      req.community = content ∧ (stringLen (replyCommunity req)).toNat = 0 ∧
      stringWritten (replyCommunity req) = 256 ∧ stringBuffer (replyCommunity req) [] = none ∧
      ¬ WritesExactly (replyCommunity req) := by
  intro content p
  have hlength : content.length = 254 := List.length_replicate
  have hread := community_of_string [] (show content.length < 256 by omega)
  rw [hlength] at hread
  refine ⟨{ OidReq.new with community := content }, hread, rfl, by decide +kernel,
    by decide +kernel, by decide +kernel, fun h => ?_⟩
  have hshort := (writesExactly_iff content).mp h
  omega

end MyIp.Snmp
