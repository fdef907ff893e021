import MyIp.Dns.Names
import MyIp.Net.Str

/-! # Requests

For a name that is not in the caches `dns::query` (`dns.cpp`) fills a buffer of 256 bytes part by part.
The size of a part goes into one byte, in which `get_name` sees a pointer from 64 on. -/

namespace MyIp.Dns
set_option autoImplicit false

open Bytes
open Net (Lowered split split_eq_splitOn strTolower)

/-- `std::tolower` -/
def tolower (c : Byte) : Byte := if 0x41 ≤ c ∧ c ≤ 0x5a then c + 0x20 else c

instance : Lowered Byte := ⟨tolower⟩

/-- `bytes` at the end of what is in the buffer. A write behind its 256 bytes has no result. -/
def put (buffer bytes : List Byte) : Option (List Byte) :=
  if buffer.length + bytes.length ≤ 256 then some (buffer ++ bytes) else none

/-- A part of the name: its size, cut to a byte, and its bytes. -/
def putPart (buffer : List Byte) (p : Name) : Option (List Byte) := do
  let buffer ← put buffer [BitVec.ofNat 8 p.length]
  put buffer p

/-- The transaction id, "request with recursion", and the counts: one query. -/
def requestHeader : List Byte := [0, 0, 1, 0, 0, 1, 0, 0, 0, 0, 0, 0]

/-- What is sent to ask for the address of `work`. -/
def request (work : Name) : Option (List Byte) := do
  let buffer ← put [] requestHeader
  let buffer ← (split work dot).foldlM putPart buffer
  let buffer ← put buffer [0]
  put buffer [0, 1, 0, 1]

/-! ## Parts -/

def partsText (ps : List Name) : Name := ps.flatMap (· ++ [dot])

def partWire (p : Name) : List Byte := BitVec.ofNat 8 p.length :: p

theorem partsText_splitOn (w : Name) : partsText (w.splitOn dot) = w ++ [dot] := by
  induction w with
  | nil => rfl
  | cons c w ih =>
    rw [List.splitOn_cons_eq_if_modifyHead]
    obtain ⟨p, ps, hps⟩ := List.exists_cons_of_ne_nil (List.splitOn_ne_nil dot w)
    split_ifs with hc
    · rw [partsText, List.flatMap_cons, ← partsText, ih, eq_of_beq hc]
      rfl
    · rw [hps] at ih ⊢
      exact congrArg (c :: ·) ih

theorem dot_notMem_of_mem_splitOn {w p : Name} (h : p ∈ w.splitOn dot) : dot ∉ p := by
  induction w generalizing p with
  | nil =>
    obtain rfl := List.mem_singleton.mp h
    exact List.not_mem_nil
  | cons c w ih =>
    rw [List.splitOn_cons_eq_if_modifyHead] at h
    split_ifs at h with hc
    · rcases List.mem_cons.mp h with rfl | h
      · exact List.not_mem_nil
      · exact ih h
    · obtain ⟨q, qs, hqs⟩ := List.exists_cons_of_ne_nil (List.splitOn_ne_nil dot w)
      rw [hqs] at h ih
      rcases List.mem_cons.mp h with rfl | h
      · rw [List.mem_cons, not_or]
        exact ⟨fun hd => hc (beq_iff_eq.mpr hd.symm), ih List.mem_cons_self⟩
      · exact ih (List.mem_cons_of_mem _ h)

theorem length_flatMap_partWire (ps : List Name) :
    (ps.flatMap partWire).length = (partsText ps).length := by
  induction ps with
  | nil => rfl
  | cons p ps ih =>
    simp only [partsText, List.flatMap_cons, List.length_append, partWire, List.length_cons] at ih ⊢
    simp [ih]

theorem labelsText_eq_partsText (ls : List Label) :
    labelsText ls = partsText (ls.map Label.bytes) := by
  rw [labelsText, partsText, List.flatMap_map]

theorem labelsWire_eq_flatMap (ls : List Label) :
    labelsWire ls = (ls.map Label.bytes).flatMap partWire := by
  rw [labelsWire, List.flatMap_map]
  rfl

/-- Parts are labels up to the first one that is none. -/
theorem exists_labels (ps : List Name) :
    ∃ ls : List Label, ps = ls.map Label.bytes ∨
      ∃ p rest, ps = ls.map Label.bytes ++ p :: rest ∧ (p = [] ∨ 64 ≤ p.length) := by
  induction ps with
  | nil => exact ⟨[], .inl rfl⟩
  | cons p ps ih =>
    by_cases hp : p = [] ∨ 64 ≤ p.length
    · exact ⟨[], .inr ⟨p, ps, rfl, hp⟩⟩
    · rw [not_or, not_le] at hp
      obtain ⟨ls, rfl | ⟨q, rest, rfl, hq⟩⟩ := ih
      · exact ⟨⟨p, List.length_pos_iff.mpr hp.1, hp.2⟩ :: ls, .inl rfl⟩
      · exact ⟨⟨p, List.length_pos_iff.mpr hp.1, hp.2⟩ :: ls, .inr ⟨q, rest, rfl, hq⟩⟩

/-! ## The buffer -/

theorem put_append {buffer bytes more : List Byte} :
    (put buffer bytes).bind (put · more) = put buffer (bytes ++ more) := by
  simp only [put, List.length_append]
  by_cases h : buffer.length + bytes.length ≤ 256
  · rw [if_pos h, Option.bind_some, List.length_append, List.append_assoc, Nat.add_assoc]
  · rw [if_neg h, if_neg (by omega)]
    rfl

theorem foldlM_putPart {buffer bytes : List Byte} (ps : List Name) :
    (put buffer bytes).bind (ps.foldlM putPart) = put buffer (bytes ++ ps.flatMap partWire) := by
  induction ps generalizing bytes with
  | nil => simp
  | cons p ps ih =>
    have hpart : (put buffer bytes).bind (putPart · p) = put buffer (bytes ++ partWire p) := by
      simp only [putPart, Option.bind_eq_bind, put_append]
      rfl
    rw [List.flatMap_cons, ← List.append_assoc, ← ih, ← hpart, Option.bind_assoc]
    rfl

/-- The bytes for the parts of a name, behind the header and with what follows a name. -/
def question (ps : List Name) : List Byte := ps.flatMap partWire ++ [0, 0, 1, 0, 1]

theorem request_eq (work : Name) :
    request work = put [] (requestHeader ++ question (split work dot)) := by
  have hend (ps : List Name) (buffer : List Byte) :
      ((ps.foldlM putPart buffer).bind fun b => (put b [0]).bind (put · [0, 1, 0, 1])) =
        (ps.foldlM putPart buffer).bind (put · [0, 0, 1, 0, 1]) :=
    congrArg _ (funext fun _ => put_append)
  simp only [request, Option.bind_eq_bind, hend]
  rw [← Option.bind_assoc, foldlM_putPart, put_append, List.append_assoc]
  rfl

/-- A request is as long as its name and 18 more bytes. -/
theorem request_eq_of_ne_nil {work : Name} (h : work ≠ []) :
    request work = if work.length ≤ 238 then
      some (requestHeader ++ question (work.splitOn dot)) else none := by
  have hlength : (requestHeader ++ question (work.splitOn dot)).length = work.length + 18 := by
    rw [question, List.length_append, List.length_append, length_flatMap_partWire,
      partsText_splitOn, List.length_append]
    simp only [requestHeader, List.length_cons, List.length_nil]
    omega
  rw [request_eq, split_eq_splitOn h, put, hlength, List.length_nil, List.nil_append]
  by_cases hle : work.length ≤ 238
  · rw [if_pos hle, if_pos (by omega)]
  · rw [if_neg hle, if_neg (by omega)]

/-! ## What is read of it -/

theorem tolower_eq_dot_iff : ∀ c, tolower c = dot ↔ c = dot := by
  decide +kernel

theorem length_strTolower (name : Name) : (strTolower name).length = name.length :=
  List.length_map _

theorem strTolower_append (name more : Name) :
    strTolower (name ++ more) = strTolower name ++ strTolower more :=
  List.map_append

theorem dot_notMem_strTolower {p : Name} (h : dot ∉ p) : dot ∉ strTolower p := by
  intro hmem
  obtain ⟨c, hc, heq⟩ := List.mem_map.mp hmem
  rw [(tolower_eq_dot_iff c).mp heq] at hc
  exact h hc

theorem ofNat_and_ne_zero : ∀ n < 256, 64 ≤ n → BitVec.ofNat 8 n &&& 0xc0 ≠ 0 := by
  decide +kernel

theorem getName_question (base : List Byte) (ls : List Label) :
    getName base (question (ls.map Label.bytes)) =
      some (partsText (ls.map Label.bytes), (labelsWire ls).length + 1) := by
  have hsegment : SegmentAt (question (ls.map Label.bytes)) ls ((labelsWire ls).length + 1) none :=
    .ends (by rw [question, labelsWire_eq_flatMap])
  rw [getName_of_ends hsegment, labelsText_eq_partsText]

theorem getName_question_empty (base : List Byte) (ls : List Label) (rest : List Name) :
    getName base (question (ls.map Label.bytes ++ [] :: rest)) =
      some (partsText (ls.map Label.bytes), (labelsWire ls).length + 1) := by
  have hquestion : question (ls.map Label.bytes ++ [] :: rest) =
      labelsWire ls ++ 0 :: (rest.flatMap partWire ++ [0, 0, 1, 0, 1]) := by
    rw [question, List.flatMap_append, labelsWire_eq_flatMap, List.append_assoc]
    rfl
  rw [getName_of_ends (.ends hquestion), labelsText_eq_partsText]

theorem getName_question_long {base : List Byte} {ls : List Label} {p name : Name} {rest : List Name}
    {n : ℕ} (hlong : 64 ≤ p.length) (hbyte : p.length < 256)
    (h : getName base (question (ls.map Label.bytes ++ p :: rest)) = some (name, n)) :
    ∃ ls', name = partsText (ls.map Label.bytes) ++ labelsText ls' := by
  match p, hlong, hbyte, h with
  | low :: p, hlong, hbyte, h =>
    -- The size and the first byte of the part are taken for a pointer.
    have hquestion : question (ls.map Label.bytes ++ (low :: p) :: rest) =
        labelsWire ls ++ BitVec.ofNat 8 (low :: p).length :: low ::
          (p ++ (rest.flatMap partWire ++ [0, 0, 1, 0, 1])) := by
      rw [question, List.flatMap_append, labelsWire_eq_flatMap, List.append_assoc, List.flatMap_cons,
        List.append_assoc]
      rfl
    have hhigh := ofNat_and_ne_zero (low :: p).length hbyte hlong
    rw [getName_of_points (.points hquestion hhigh)] at h
    obtain ⟨sub, hsub, heq⟩ := Option.map_eq_some_iff.mp h
    obtain ⟨ls', -, -, -, rfl, -⟩ := getRest_eq_some_iff.mp hsub
    obtain ⟨rfl, -⟩ := Prod.mk.inj heq
    exact ⟨ls', by rw [labelsText_eq_partsText ls]⟩

/-- With a part that is no label another name is read, or none. -/
theorem getName_question_ne {base : List Byte} {ls : List Label} {p : Name} {rest : List Name}
    (hdot : dot ∉ p) (hp : p = [] ∨ 64 ≤ p.length) (hbyte : p.length < 256) (n : ℕ) :
    getName base (question (ls.map Label.bytes ++ p :: rest)) ≠
      some (strTolower (partsText (ls.map Label.bytes ++ p :: rest)), n) := by
  have htext : partsText (ls.map Label.bytes ++ p :: rest) =
      partsText (ls.map Label.bytes) ++ (p ++ dot :: partsText rest) := by
    simp [partsText]
  intro h
  rcases hp with rfl | hlong
  · rw [getName_question_empty] at h
    have hlength := congrArg List.length (Prod.mk.inj (Option.some.inj h)).1
    rw [length_strTolower, htext, List.length_append] at hlength
    simp at hlength
  · obtain ⟨ls', hname⟩ := getName_question_long hlong hbyte h
    rw [htext, strTolower_append, strTolower_append] at hname
    obtain ⟨-, hrest⟩ := List.append_inj hname (length_strTolower _)
    -- The first dot of what is read is at 63 or before, that of the name behind its part.
    cases ls' with
    | nil => simp [strTolower, labelsText] at hrest
    | cons l ls' =>
      have hlt := l.lt
      have hread : (labelsText (l :: ls'))[l.bytes.length]? = some dot := by
        rw [labelsText_cons]
        simp
      rw [← hrest, List.getElem?_append_left (by rw [length_strTolower]; omega)] at hread
      exact dot_notMem_strTolower hdot (List.mem_of_getElem? hread)

/-- Where the question of a request is, `get_name` reads the name and a dot. -/
def QuestionIs (buffer : List Byte) (name : Name) : Prop :=
  ∃ n, getName buffer (buffer.drop 12) = some (name ++ [dot], n)

/-- A name that can be asked for: short enough, with parts that are labels, and no upper case. -/
structure Encodable (work : Name) : Prop where
  length_le : work.length ≤ 238
  label : ∀ p ∈ work.splitOn dot, p ≠ [] ∧ p.length < 64
  lower : strTolower work = work

theorem drop_requestHeader (bytes : List Byte) : (requestHeader ++ bytes).drop 12 = bytes := rfl

theorem strTolower_snoc_dot (work : Name) : strTolower work ++ [dot] = strTolower (work ++ [dot]) :=
  (strTolower_append work [dot]).symm

/-- A request is built inside the buffer, and its question is for the name in lower case, exactly if
the name can be asked for. -/
theorem questionIs_iff (work : Name) :
    (∃ buffer, request work = some buffer ∧ QuestionIs buffer (strTolower work)) ↔
      Encodable work := by
  constructor
  · rintro ⟨buffer, hrequest, n, hname⟩
    have hne : work ≠ [] := by
      -- `split` has no part for the empty name, so that it is not one of `splitOn`.
      rintro rfl
      have hempty : request [] = some [0, 0, 1, 0, 0, 1, 0, 0, 0, 0, 0, 0, 0, 0, 1, 0, 1] := rfl
      obtain rfl := Option.some.inj (hempty.symm.trans hrequest)
      cases hname
    rw [request_eq_of_ne_nil hne] at hrequest
    obtain ⟨hle, hbuffer⟩ := Option.ite_none_right_eq_some.mp hrequest
    obtain rfl := Option.some.inj hbuffer
    rw [drop_requestHeader, strTolower_snoc_dot, ← partsText_splitOn] at hname
    obtain ⟨ls, hls | ⟨p, rest, hps, hp⟩⟩ := exists_labels (work.splitOn dot)
    · refine ⟨hle, ?_, ?_⟩
      · rw [hls]
        intro q hq
        obtain ⟨l, -, rfl⟩ := List.mem_map.mp hq
        exact ⟨List.length_pos_iff.mp l.pos, l.lt⟩
      · rw [hls, getName_question, ← hls, partsText_splitOn, ← strTolower_snoc_dot] at hname
        obtain ⟨htext, -⟩ := Prod.mk.inj (Option.some.inj hname)
        exact (List.append_cancel_right htext).symm
    · have hmem : p ∈ work.splitOn dot := by
        rw [hps]
        simp
      have hlength := congrArg List.length (partsText_splitOn work)
      rw [hps] at hlength hname
      have hbyte : p.length < 256 := by
        simp [partsText] at hlength
        omega
      exact absurd hname (getName_question_ne (dot_notMem_of_mem_splitOn hmem) hp hbyte n)
  · intro h
    have hne : work ≠ [] := by
      rintro rfl
      exact (h.label [] (List.mem_singleton_self [])).1 rfl
    obtain ⟨ls, hls | ⟨p, rest, hps, hp⟩⟩ := exists_labels (work.splitOn dot)
    · refine ⟨_, (request_eq_of_ne_nil hne).trans (if_pos h.length_le),
        (labelsWire ls).length + 1, ?_⟩
      rw [drop_requestHeader, hls, getName_question, ← hls, partsText_splitOn, h.lower]
    · have hlabel := h.label p (by rw [hps]; simp)
      rcases hp with rfl | hlong
      · exact absurd rfl hlabel.1
      · exact absurd hlabel.2 (not_lt.mpr hlong)

end MyIp.Dns
