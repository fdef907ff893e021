import MyIp.Dns.Response

/-! # Names with compression

A name in a message is in segments: labels up to the end, or up to a pointer to where it goes on.
`get_name` (`dns.cpp`) reads the first segment and the one that its pointer leads to, and no others:
"apparently it is only 1 level deep". -/

namespace MyIp.Dns
set_option autoImplicit false

open Bytes

/-- The offset in two bytes that are taken for a pointer. -/
def place (high low : Byte) : ℕ := (be16 (high &&& ~~~0xc0) low).toNat

/-- At the front of `buffer` there is a segment of `n` bytes: labels, and then the end or two bytes that
are taken for a pointer. -/
inductive SegmentAt (buffer : List Byte) : List Label → ℕ → Option ℕ → Prop
  | ends {ls : List Label} {rest : List Byte} (h : buffer = labelsWire ls ++ 0 :: rest) :
      SegmentAt buffer ls ((labelsWire ls).length + 1) none
  | points {ls : List Label} {high low : Byte} {rest : List Byte}
      (h : buffer = labelsWire ls ++ high :: low :: rest) (hhigh : high &&& 0xc0 ≠ 0) :
      SegmentAt buffer ls ((labelsWire ls).length + 2) (some (place high low))

/-! ## What the loop reads -/

theorem nameLoop_compression {high : Byte} (hhigh : high &&& 0xc0 ≠ 0) (low : Byte)
    (rest : List Byte) (turns : ℕ) (h : 0 < turns) :
    nameLoop turns (high :: low :: rest) = some ([], 2, some (place high low)) := by
  obtain ⟨turns, rfl⟩ : ∃ k, turns = k + 1 := ⟨turns - 1, by omega⟩
  have hzero : ¬high = 0 := by
    rintro rfl
    exact hhigh rfl
  rw [nameLoop, if_neg hzero, if_pos hhigh]
  rfl

theorem toNat_lt_of_and_eq_zero : ∀ b : Byte, b &&& 0xc0 = 0 → b.toNat < 64 := by
  decide +kernel

theorem exists_label {len : Byte} {buffer : List Byte} (hzero : len ≠ 0) (hand : len &&& 0xc0 = 0)
    (hlen : len.toNat ≤ buffer.length) :
    ∃ l : Label, l.bytes = buffer.take len.toNat ∧ l.bytes.length = len.toNat ∧
      len :: buffer = l.wire ++ buffer.drop len.toNat := by
  have hsize : (buffer.take len.toNat).length = len.toNat := by
    rw [List.length_take]
    omega
  have hpos : 0 < len.toNat := Nat.pos_of_ne_zero fun h => hzero (BitVec.eq_of_toNat_eq h)
  have hlt := toNat_lt_of_and_eq_zero len hand
  have hbyte : BitVec.ofNat 8 (buffer.take len.toNat).length = len := by
    rw [hsize, BitVec.ofNat_toNat, BitVec.setWidth_eq]
  refine ⟨⟨buffer.take len.toNat, by omega, by omega⟩, rfl, hsize, ?_⟩
  rw [Label.wire, List.cons_append, List.take_append_drop]
  exact congrArg (· :: buffer) hbyte.symm

theorem SegmentAt.label {l : Label} {buffer : List Byte} {ls : List Label} {n : ℕ} {offset : Option ℕ}
    (h : SegmentAt buffer ls n offset) :
    SegmentAt (l.wire ++ buffer) (l :: ls) (1 + l.bytes.length + n) offset := by
  have hlength : (labelsWire (l :: ls)).length = 1 + l.bytes.length + (labelsWire ls).length := by
    simp only [labelsWire, List.flatMap_cons, List.length_append, Label.wire, List.length_cons]
    omega
  cases h with
  | @ends rest hbuffer =>
    have hwhole : l.wire ++ buffer = labelsWire (l :: ls) ++ 0 :: rest := by
      rw [hbuffer, labelsWire, labelsWire, List.flatMap_cons, List.append_assoc]
    rw [← Nat.add_assoc, ← hlength]
    exact .ends hwhole
  | @points high low rest hbuffer hhigh =>
    have hwhole : l.wire ++ buffer = labelsWire (l :: ls) ++ high :: low :: rest := by
      rw [hbuffer, labelsWire, labelsWire, List.flatMap_cons, List.append_assoc]
    rw [← Nat.add_assoc, ← hlength]
    exact .points hwhole hhigh

/-- What the loop has read is a segment. -/
theorem segmentAt_of_nameLoop {turns : ℕ} {buffer : List Byte} {name : Name} {n : ℕ}
    {offset : Option ℕ} (h : nameLoop turns buffer = some (name, n, offset)) :
    ∃ ls, SegmentAt buffer ls n offset ∧ name = labelsText ls := by
  induction turns generalizing buffer name n offset with
  | zero => cases h
  | succ turns ih =>
    cases buffer with
    | nil => cases h
    | cons len buffer =>
      rw [nameLoop] at h
      by_cases hzero : len = 0
      · rw [if_pos hzero] at h
        obtain ⟨rfl, rfl, rfl⟩ := h
        exact ⟨[], .ends (by rw [hzero]; rfl), rfl⟩
      rw [if_neg hzero] at h
      by_cases hpointer : len &&& 0xc0 ≠ 0
      · rw [if_pos hpointer] at h
        cases buffer with
        | nil => cases h
        | cons low rest =>
          obtain ⟨rfl, rfl, rfl⟩ := h
          exact ⟨[], .points rfl hpointer, rfl⟩
      rw [if_neg hpointer] at h
      by_cases hshort : buffer.length < len.toNat
      · rw [if_pos hshort] at h
        cases h
      · rw [if_neg hshort, Option.map_eq_some_iff] at h
        obtain ⟨⟨name', n', offset'⟩, hloop, heq⟩ := h
        obtain ⟨rfl, rfl, rfl⟩ := heq
        obtain ⟨l, hl, hsize, hwire⟩ :=
          exists_label hzero (not_not.mp hpointer) (not_lt.mp hshort)
        obtain ⟨ls, hsegment, rfl⟩ := ih hloop
        refine ⟨l :: ls, ?_, by rw [labelsText_cons, hl]⟩
        have hlabel := hsegment.label (l := l)
        rwa [hsize, ← hwire] at hlabel

/-- As many turns as there are bytes read every segment. -/
theorem nameLoop_of_segmentAt {buffer : List Byte} {ls : List Label} {n : ℕ} {offset : Option ℕ}
    (h : SegmentAt buffer ls n offset) :
    nameLoop buffer.length buffer = some (labelsText ls, n, offset) := by
  cases h with
  | @ends rest hbuffer =>
    have hloop := nameLoop_length (nameLoop_zero rest) (Nat.succ_pos _) ls
    rw [← hbuffer, List.append_nil] at hloop
    exact hloop
  | @points high low rest hbuffer hhigh =>
    have hloop := nameLoop_length (nameLoop_compression hhigh low rest) (Nat.succ_pos _) ls
    rw [← hbuffer, List.append_nil] at hloop
    exact hloop

theorem nameLoop_eq_some_iff {buffer : List Byte} {name : Name} {n : ℕ} {offset : Option ℕ} :
    nameLoop buffer.length buffer = some (name, n, offset) ↔
      ∃ ls, SegmentAt buffer ls n offset ∧ name = labelsText ls := by
  refine ⟨segmentAt_of_nameLoop, ?_⟩
  rintro ⟨ls, hsegment, rfl⟩
  exact nameLoop_of_segmentAt hsegment

theorem getRest_eq_some_iff {base buffer : List Byte} {name : Name} :
    getRest base buffer = some name ↔ ∃ ls n offset, SegmentAt buffer ls n offset ∧
      name = labelsText ls ∧ ∀ o ∈ offset, o < base.length := by
  have hinside : ∀ offset : Option ℕ,
      offset.elim true (· < base.length) = true ↔ ∀ o ∈ offset, o < base.length := by
    intro offset
    cases offset <;> simp
  constructor
  · intro h
    obtain ⟨⟨name', n, offset⟩, hloop, h⟩ := Option.bind_eq_some_iff.mp h
    obtain ⟨ls, hsegment, rfl⟩ := nameLoop_eq_some_iff.mp hloop
    obtain ⟨hoffset, hname⟩ := Option.ite_none_right_eq_some.mp h
    obtain rfl := Option.some.inj hname
    exact ⟨ls, n, offset, hsegment, rfl, (hinside offset).mp hoffset⟩
  · rintro ⟨ls, n, offset, hsegment, rfl, hoffset⟩
    rw [getRest, nameLoop_of_segmentAt hsegment]
    exact if_pos ((hinside offset).mpr hoffset)

theorem getName_of_ends {base buffer : List Byte} {ls : List Label} {n : ℕ}
    (h : SegmentAt buffer ls n none) : getName base buffer = some (labelsText ls, n) := by
  simp only [getName, nameLoop_of_segmentAt h, Option.bind_eq_bind, Option.bind_some]

theorem getName_of_points {base buffer : List Byte} {ls : List Label} {n o : ℕ}
    (h : SegmentAt buffer ls n (some o)) :
    getName base buffer =
      (getRest base (base.drop o)).map fun sub => (labelsText ls ++ sub, n) := by
  simp only [getName, nameLoop_of_segmentAt h, Option.bind_eq_bind, Option.bind_some]

theorem getName_of_segments {base buffer : List Byte} {ls ls' : List Label} {n n' o : ℕ}
    {offset : Option ℕ} (h : SegmentAt buffer ls n (some o)) (h' : SegmentAt (base.drop o) ls' n' offset)
    (hinside : ∀ o' ∈ offset, o' < base.length) :
    getName base buffer = some (labelsText (ls ++ ls'), n) := by
  have hrest : getRest base (base.drop o) = some (labelsText ls') :=
    getRest_eq_some_iff.mpr ⟨ls', n', offset, h', rfl, hinside⟩
  rw [getName_of_points h, hrest, Option.map_some, labelsText_append]

/-! ## Whole names -/

/-- In `message` there is a name at `pos`, of `n` bytes there, whose labels are those of the segments.
A pointer leads to where the rest stands; the derivation is finite, so that no pointer leads back. -/
inductive NameAt (message : List Byte) : ℕ → List (List Label) → ℕ → Prop
  | ends {pos : ℕ} {ls : List Label} {rest : List Byte}
      (h : message.drop pos = labelsWire ls ++ 0 :: rest) :
      NameAt message pos [ls] ((labelsWire ls).length + 1)
  | points {pos : ℕ} {ls : List Label} {offset : Fin (2 ^ 14)} {rest : List Byte}
      {segments : List (List Label)} {n : ℕ}
      (h : message.drop pos = labelsWire ls ++ (DomainName.pointerWire offset ++ rest))
      (hrest : NameAt message offset segments n) :
      NameAt message pos (ls :: segments) ((labelsWire ls).length + 2)

theorem NameAt.segmentAt {message : List Byte} {pos n : ℕ} {segments : List (List Label)}
    (h : NameAt message pos segments n) :
    (∃ ls, segments = [ls] ∧ SegmentAt (message.drop pos) ls n none) ∨
      ∃ ls offset segments' n', segments = ls :: segments' ∧
        SegmentAt (message.drop pos) ls n (some offset) ∧ NameAt message offset segments' n' := by
  cases h with
  | ends h => exact .inl ⟨_, rfl, .ends h⟩
  | @points _ ls offset rest segments n' h hrest =>
    obtain ⟨hand, hhigh⟩ := pointer_and (offset.val / 256) (by omega)
    have hlow : (BitVec.ofNat 8 (offset.val % 256)).toNat = offset.val % 256 :=
      toNat_ofNat_of_lt (by omega)
    have hplace : place (BitVec.ofNat 8 (192 + offset.val / 256))
        (BitVec.ofNat 8 (offset.val % 256)) = offset.val := by
      rw [place, be16_toNat, hhigh, hlow]
      omega
    refine .inr ⟨ls, offset, segments, n', rfl, ?_, hrest⟩
    rw [← hplace]
    exact .points h hand

theorem NameAt.lt_length {message : List Byte} {pos n : ℕ} {segments : List (List Label)}
    (h : NameAt message pos segments n) : pos < message.length := by
  by_contra hpos
  have hnil : message.drop pos = [] := List.drop_of_length_le (by omega)
  cases h with
  | ends h => simp [hnil] at h
  | points h _ => simp [hnil, DomainName.pointerWire] at h

theorem labelsText_eq_nil_iff (ls : List Label) : labelsText ls = [] ↔ ls = [] := by
  cases ls with
  | nil => exact iff_of_true rfl rfl
  | cons l ls => exact iff_of_false (labelsText_ne_nil l ls) nofun

/-- The text of the first two segments, and the number of bytes at this place. -/
theorem getName_take_two {message : List Byte} {pos n : ℕ} {segments : List (List Label)}
    (h : NameAt message pos segments n) :
    getName message (message.drop pos) = some (labelsText (segments.take 2).flatten, n) := by
  rcases h.segmentAt with ⟨ls, rfl, hsegment⟩ | ⟨ls, offset, segments', n', rfl, hsegment, hrest⟩
  · have htext : ([ls].take 2).flatten = ls := by simp
    rw [getName_of_ends hsegment, htext]
  · rcases hrest.segmentAt with ⟨ls', rfl, hsegment'⟩ |
      ⟨ls', offset', segments'', n'', rfl, hsegment', hrest'⟩
    · rw [getName_of_segments hsegment hsegment' nofun]
      simp
    · rw [getName_of_segments hsegment hsegment' (by rintro _ ⟨⟩; exact hrest'.lt_length)]
      simp

/-- Wherever a name stands, `get_name` has the text of its first two segments and its number of bytes.
That is the text of the whole name exactly if there are no labels in the others. -/
theorem getName_nameAt (message : List Byte) (pos n : ℕ) (segments : List (List Label))
    (h : NameAt message pos segments n) :
    getName message (message.drop pos) = some (labelsText (segments.take 2).flatten, n) ∧
      (getName message (message.drop pos) = some (labelsText segments.flatten, n) ↔
        (segments.drop 2).flatten = []) := by
  have hname := getName_take_two h
  have hsplit : labelsText segments.flatten =
      labelsText (segments.take 2).flatten ++ labelsText (segments.drop 2).flatten := by
    rw [← labelsText_append, ← List.flatten_append, List.take_append_drop]
  refine ⟨hname, ?_⟩
  rw [hname, hsplit, Option.some.injEq, Prod.mk.injEq, ← labelsText_eq_nil_iff]
  constructor
  · rintro ⟨htext, -⟩
    exact List.self_eq_append_right.mp htext
  · intro hnil
    rw [hnil, List.append_nil]
    exact ⟨rfl, rfl⟩

namespace Sample

/-- `c` at 12, `b.c` at 15 and `a.b.c` at 19. -/
def nested : List Byte :=
  List.replicate 12 0 ++ [1, 0x63, 0, 1, 0x62, 0xc0, 12, 1, 0x61, 0xc0, 15]

def twoSegments : List (List Label) := [[label 0x62], [label 0x63]]

theorem nameAt_twoSegments : NameAt nested 15 twoSegments 4 :=
  @NameAt.points nested 15 [label 0x62] 12 [1, 0x61, 0xc0, 15] _ _ rfl (.ends rfl)

def threeSegments : List (List Label) := [label 0x61] :: twoSegments

theorem nameAt_threeSegments : NameAt nested 19 threeSegments 4 :=
  @NameAt.points nested 19 [label 0x61] 15 [] _ _ rfl nameAt_twoSegments

end Sample

theorem getName_nameAt_twoSegments :
    getName Sample.nested (Sample.nested.drop 15) =
        some (labelsText (Sample.twoSegments.take 2).flatten, 4) ∧
      (getName Sample.nested (Sample.nested.drop 15) =
          some (labelsText Sample.twoSegments.flatten, 4) ↔
        (Sample.twoSegments.drop 2).flatten = []) :=
  getName_nameAt Sample.nested 15 4 Sample.twoSegments Sample.nameAt_twoSegments

/-- With one more pointer the last label is lost: `a.b.` for `a.b.c`. -/
theorem getName_not_whole :
    NameAt Sample.nested 19 Sample.threeSegments 4 ∧
      getName Sample.nested (Sample.nested.drop 19) = some ([0x61, 0x2e, 0x62, 0x2e], 4) ∧
      getName Sample.nested (Sample.nested.drop 19) ≠
        some (labelsText Sample.threeSegments.flatten, 4) :=
  ⟨Sample.nameAt_threeSegments, by decide +kernel, by decide +kernel⟩

end MyIp.Dns
