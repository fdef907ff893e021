import MyIp.Dns.Input

/-! # Responses of a name server

A response as its sender makes it: names, with the compression that `get_name` follows, questions
and records. What a reader is to keep of it is told by its answers alone. -/

namespace MyIp.Dns
set_option autoImplicit false

open Bytes
open Net (anyAddr)

structure Label where
  bytes : List Byte
  pos : 0 < bytes.length
  lt : bytes.length < 64

def Label.wire (l : Label) : List Byte := BitVec.ofNat 8 l.bytes.length :: l.bytes

def labelsWire (ls : List Label) : List Byte := ls.flatMap Label.wire

/-- The labels with dots between them. -/
def dotted (ls : List Label) : Name := [dot].intercalate (ls.map Label.bytes)

/-- A name: its first labels and, if it does not end with these, an offset in the message and the
labels that are found there. -/
structure DomainName where
  labels : List Label
  pointer : Option (Fin (2 ^ 14) × List Label)

namespace DomainName

def pointerWire (offset : ℕ) : List Byte :=
  [BitVec.ofNat 8 (192 + offset / 256), BitVec.ofNat 8 (offset % 256)]

def wire (n : DomainName) : List Byte :=
  labelsWire n.labels ++ n.pointer.elim [0] fun p => pointerWire p.1

def allLabels (n : DomainName) : List Label := n.labels ++ n.pointer.elim [] fun p => p.2

def name (n : DomainName) : Name := dotted n.allLabels

/-- At the offset there are the other labels, uncompressed. -/
def StandsIn (n : DomainName) (message : List Byte) : Prop :=
  ∀ p ∈ n.pointer, labelsWire p.2 ++ [0] <+: message.drop p.1

instance (n : DomainName) (message : List Byte) : Decidable (n.StandsIn message) :=
  inferInstanceAs (Decidable (∀ p ∈ n.pointer, labelsWire p.2 ++ [0] <+: message.drop p.1))

end DomainName

structure Question where
  name : DomainName
  type : BitVec 16
  dnsClass : BitVec 16

def Question.wire (q : Question) : List Byte :=
  q.name.wire ++ be16Bytes q.type ++ be16Bytes q.dnsClass

/-- The type and the data of a record; that of a `CNAME` is a name. -/
inductive RData
  | cname (target : DomainName)
  | other (type : BitVec 16) (type_ne : type ≠ 5) (data : List Byte)

def RData.type : RData → BitVec 16
  | cname _ => 5
  | other type _ _ => type

def RData.wire : RData → List Byte
  | cname target => target.wire
  | other _ _ data => data

structure Answer where
  owner : DomainName
  dnsClass : BitVec 16
  ttl : BitVec 32
  rdata : RData
  rdata_lt : rdata.wire.length < 2 ^ 16

namespace Answer

def head (a : Answer) : List Byte :=
  a.owner.wire ++ be16Bytes a.rdata.type ++ be16Bytes a.dnsClass ++ be32Bytes a.ttl ++
    be16Bytes (BitVec.ofNat 16 a.rdata.wire.length)

def wire (a : Answer) : List Byte := a.head ++ a.rdata.wire

def names (a : Answer) : List DomainName :=
  match a.rdata with
  | .cname target => [a.owner, target]
  | .other _ _ _ => [a.owner]

theorem owner_mem_names (a : Answer) : a.owner ∈ a.names := by
  rw [names]
  split <;> exact List.mem_cons_self

/-- What an `A` or `AAAA` record says. -/
def aRecord (ts : ℤ) (a : Answer) : Option (Name × ARec) :=
  match a.rdata with
  | .cname _ => none
  | .other type _ data =>
    if h : type = 1 ∧ data.length = 4 then
      some (a.owner.name, ⟨⟨.ipv4, data, h.2⟩, ts, a.ttl.toInt⟩)
    else if h : type = 28 ∧ data.length = 16 then
      some (a.owner.name, ⟨⟨.ipv6, data, h.2⟩, ts, a.ttl.toInt⟩)
    else none

/-- What a `CNAME` record says. -/
def cnameRecord (ts : ℤ) (a : Answer) : Option (Name × CnameRec) :=
  match a.rdata with
  | .cname target => some (a.owner.name, ⟨target.name, ts, a.ttl.toInt⟩)
  | .other _ _ _ => none

end Answer

/-- A message; `more` is what follows the answers. -/
structure Message where
  id : BitVec 16
  flags : BitVec 16
  questions : List Question
  answers : List Answer
  nscount : BitVec 16
  arcount : BitVec 16
  more : List Byte

namespace Message

def wire (m : Message) : List Byte :=
  be16Bytes m.id ++ be16Bytes m.flags ++ be16Bytes (BitVec.ofNat 16 m.questions.length) ++
    be16Bytes (BitVec.ofNat 16 m.answers.length) ++ be16Bytes m.nscount ++ be16Bytes m.arcount ++
    (m.questions.flatMap Question.wire ++ (m.answers.flatMap Answer.wire ++ m.more))

def names (m : Message) : List DomainName :=
  m.questions.map Question.name ++ m.answers.flatMap Answer.names

end Message

/-- A response whose counts and names are right. -/
structure Response extends Message where
  questions_lt : questions.length < 2 ^ 16
  answers_lt : answers.length < 2 ^ 16
  names_stand : ∀ n ∈ toMessage.names, n.StandsIn toMessage.wire

/-- What the caches are to be after a response: for each name what the last record says of it, and
what was there if there is none. -/
structure Cached (r : Response) (ts : ℤ) (dns dns' : Dns) : Prop where
  dnsIp : dns'.dnsIp = dns.dnsIp
  a : ∀ name, dns'.aAaaaCache name =
    (KeyedList.lastValue (r.answers.filterMap (Answer.aRecord ts)) name).or (dns.aAaaaCache name)
  cname : ∀ name, dns'.cnameCache name =
    (KeyedList.lastValue (r.answers.filterMap (Answer.cnameRecord ts)) name).or
      (dns.cnameCache name)

/-! ## Names -/

/-- What `get_name` makes of labels: each with a dot after it. -/
def labelsText (ls : List Label) : Name := ls.flatMap fun l => l.bytes ++ [dot]

theorem labelsText_cons (l : Label) (ls : List Label) :
    labelsText (l :: ls) = l.bytes ++ dot :: labelsText ls := by
  simp [labelsText]

theorem labelsText_append (ls ls' : List Label) :
    labelsText (ls ++ ls') = labelsText ls ++ labelsText ls' :=
  List.flatMap_append

theorem labelsText_ne_nil (l : Label) (ls : List Label) : labelsText (l :: ls) ≠ [] := by
  simp [labelsText_cons]

theorem dropLast_labelsText (ls : List Label) : (labelsText ls).dropLast = dotted ls := by
  induction ls with
  | nil => rfl
  | cons l ls ih =>
    rw [labelsText_cons]
    cases ls with
    | nil =>
      rw [labelsText, List.flatMap_nil, List.dropLast_concat]
      simp [dotted]
    | cons l' ls =>
      rw [List.dropLast_append_of_ne_nil (List.cons_ne_nil _ _),
        List.dropLast_cons_of_ne_nil (labelsText_ne_nil l' ls), ih, dotted, dotted]
      simp only [List.map_cons, List.intercalate_cons_cons, List.append_assoc,
        List.singleton_append]

theorem length_and_eq_zero : ∀ n < 64, (BitVec.ofNat 8 n &&& 0xc0) = 0 := by
  decide +kernel

theorem pointer_and : ∀ n < 64, (BitVec.ofNat 8 (192 + n) &&& 0xc0) ≠ 0 ∧
    (BitVec.ofNat 8 (192 + n) &&& ~~~0xc0).toNat = n := by
  decide +kernel

/-- One turn of the loop takes one label. -/
theorem nameLoop_label (turns : ℕ) (l : Label) (tail : List Byte) :
    nameLoop (turns + 1) (l.wire ++ tail) = (nameLoop turns tail).map fun r =>
      (l.bytes ++ dot :: r.1, 1 + l.bytes.length + r.2.1, r.2.2) := by
  have hlen : (BitVec.ofNat 8 l.bytes.length).toNat = l.bytes.length :=
    toNat_ofNat_of_lt (by have := l.lt; omega)
  have hzero : ¬BitVec.ofNat 8 l.bytes.length = 0 := by
    intro h
    rw [h] at hlen
    exact absurd hlen.symm l.pos.ne'
  rw [Label.wire, List.cons_append, nameLoop, if_neg hzero,
    if_neg (not_not.2 (length_and_eq_zero _ l.lt)), hlen, if_neg (by simp), List.drop_left,
    List.take_left]

theorem nameLoop_labels {tail : List Byte} {r : Name × ℕ × Option ℕ}
    (htail : ∀ turns, 0 < turns → nameLoop turns tail = some r) (ls : List Label) {turns : ℕ}
    (hturns : ls.length < turns) :
    nameLoop turns (labelsWire ls ++ tail) =
      some (labelsText ls ++ r.1, (labelsWire ls).length + r.2.1, r.2.2) := by
  induction ls generalizing turns with
  | nil => simpa [labelsWire, labelsText] using htail turns (by simpa using hturns)
  | cons l ls ih =>
    obtain ⟨turns, rfl⟩ : ∃ k, turns = k + 1 := ⟨turns - 1, by omega⟩
    rw [labelsWire, List.flatMap_cons, List.append_assoc, nameLoop_label, ← labelsWire,
      ih (by simpa using hturns), Option.map_some, labelsText_cons]
    simp [Label.wire]
    omega

theorem nameLoop_zero (rest : List Byte) (turns : ℕ) (h : 0 < turns) :
    nameLoop turns (0 :: rest) = some ([], 1, none) := by
  obtain ⟨turns, rfl⟩ : ∃ k, turns = k + 1 := ⟨turns - 1, by omega⟩
  rw [nameLoop, if_pos rfl]

theorem nameLoop_pointer (offset : Fin (2 ^ 14)) (rest : List Byte) (turns : ℕ) (h : 0 < turns) :
    nameLoop turns (DomainName.pointerWire offset ++ rest) = some ([], 2, some offset.val) := by
  obtain ⟨turns, rfl⟩ : ∃ k, turns = k + 1 := ⟨turns - 1, by omega⟩
  have hlt := offset.isLt
  obtain ⟨hand, hhigh⟩ := pointer_and (offset.val / 256) (by omega)
  have hzero : ¬BitVec.ofNat 8 (192 + offset.val / 256) = 0 := by
    intro hzero
    rw [hzero] at hand
    exact hand rfl
  have hlow : (BitVec.ofNat 8 (offset.val % 256)).toNat = offset.val % 256 :=
    toNat_ofNat_of_lt (by omega)
  rw [DomainName.pointerWire, List.cons_append, nameLoop, if_neg hzero, if_pos hand,
    List.cons_append, List.head?_cons, Option.map_some, be16_toNat, hhigh, hlow]
  congr
  omega

theorem length_le_labelsWire (ls : List Label) : ls.length ≤ (labelsWire ls).length := by
  induction ls with
  | nil => exact Nat.le_refl 0
  | cons l ls ih =>
    rw [labelsWire, List.flatMap_cons, List.length_append, ← labelsWire, Label.wire]
    simp only [List.length_cons]
    omega

/-- As many turns as there are bytes are enough. -/
theorem nameLoop_length {tail : List Byte} {r : Name × ℕ × Option ℕ}
    (htail : ∀ turns, 0 < turns → nameLoop turns tail = some r) (hpos : 0 < tail.length)
    (ls : List Label) :
    nameLoop (labelsWire ls ++ tail).length (labelsWire ls ++ tail) =
      some (labelsText ls ++ r.1, (labelsWire ls).length + r.2.1, r.2.2) := by
  apply nameLoop_labels htail
  have hle := length_le_labelsWire ls
  rw [List.length_append]
  omega

theorem getRest_labelsWire {ls : List Label} {bytes : List Byte}
    (h : labelsWire ls ++ [0] <+: bytes) (base : List Byte) :
    getRest base bytes = some (labelsText ls) := by
  obtain ⟨rest, rfl⟩ := h
  have hloop := nameLoop_length (nameLoop_zero rest) (Nat.succ_pos _) ls
  rw [List.append_assoc, List.singleton_append, getRest, hloop, List.append_nil]
  rfl

namespace DomainName

def text (n : DomainName) : Name := labelsText n.allLabels

theorem dropLast_text (n : DomainName) : n.text.dropLast = n.name :=
  dropLast_labelsText n.allLabels

theorem getName_wire {n : DomainName} {base : List Byte} (h : n.StandsIn base) (rest : List Byte) :
    getName base (n.wire ++ rest) = some (n.text, n.wire.length) := by
  obtain ⟨labels, pointer⟩ := n
  cases pointer with
  | none =>
    have hbytes : wire ⟨labels, none⟩ ++ rest = labelsWire labels ++ 0 :: rest := by
      simp [wire]
    rw [hbytes, getName, nameLoop_length (nameLoop_zero rest) (Nat.succ_pos _) labels]
    simp [text, allLabels, wire]
  | some p =>
    have hbytes : wire ⟨labels, some p⟩ ++ rest =
        labelsWire labels ++ (pointerWire p.1 ++ rest) := by
      simp [wire]
    have hrest := getRest_labelsWire (h p rfl) base
    rw [hbytes, getName, nameLoop_length (nameLoop_pointer p.1 rest) (Nat.succ_pos _) labels]
    simp [text, allLabels, wire, hrest, labelsText_append, pointerWire]

end DomainName

/-! ## Questions and records -/

theorem skipQuestions_wire {base : List Byte} (qs : List Question)
    (h : ∀ q ∈ qs, q.name.StandsIn base) (rest : List Byte) :
    skipQuestions base qs.length (qs.flatMap Question.wire ++ rest) = some rest := by
  induction qs with
  | nil => rfl
  | cons q qs ih =>
    have hname := DomainName.getName_wire (h q List.mem_cons_self)
      (be16Bytes q.type ++ (be16Bytes q.dnsClass ++ (qs.flatMap Question.wire ++ rest)))
    simp only [List.flatMap_cons, Question.wire, List.append_assoc, List.length_cons,
      skipQuestions, hname, Option.bind_eq_bind, Option.bind_some, List.drop_left]
    rw [if_neg (by simp only [List.length_append, be16Bytes_length]; omega)]
    exact ih fun q hq => h q (List.mem_cons_of_mem _ hq)

theorem readHeader_wire {base : List Byte} {a : Answer} (h : a.owner.StandsIn base)
    (rest : List Byte) :
    readHeader base (a.head ++ rest) = some (⟨a.owner.text, a.rdata.type, a.ttl.toInt,
      BitVec.ofNat 16 a.rdata.wire.length⟩, rest) := by
  have hname := DomainName.getName_wire h (be16Bytes a.rdata.type ++ (be16Bytes a.dnsClass ++
    (be32Bytes a.ttl ++ (be16Bytes (BitVec.ofNat 16 a.rdata.wire.length) ++ rest))))
  simp only [Answer.head, List.append_assoc, readHeader, hname, Option.bind_eq_bind,
    Option.bind_some, List.drop_left]
  simp only [be16Bytes, be32Bytes, List.cons_append, List.nil_append, be16_be16Bytes,
    be32_be32Bytes]

def Answer.cache (ts : ℤ) (dns : Dns) (a : Answer) : Dns :=
  { dns with
    aAaaaCache := (a.aRecord ts).elim dns.aAaaaCache (KeyedList.assign dns.aAaaaCache)
    cnameCache := (a.cnameRecord ts).elim dns.cnameCache (KeyedList.assign dns.cnameCache) }

theorem anyAddr_append {af : AddrFamily} {data : List Byte} (h : data.length = af.size)
    (rest : List Byte) : anyAddr af (data ++ rest) = some ⟨af, data, h⟩ := by
  simp only [anyAddr, List.take_left' h, h, dif_pos]

theorem ofNat_eq_iff {n m : ℕ} (hn : n < 2 ^ 16) (hm : m < 2 ^ 16) :
    BitVec.ofNat 16 n = BitVec.ofNat 16 m ↔ n = m := by
  rw [BitVec.toNat_eq, toNat_ofNat_of_lt hn, toNat_ofNat_of_lt hm]

theorem store_wire {base : List Byte} (ts : ℤ) (dns : Dns) {a : Answer}
    (h : ∀ n ∈ a.names, n.StandsIn base) (rest : List Byte) :
    store base ts dns ⟨a.owner.text, a.rdata.type, a.ttl.toInt,
      BitVec.ofNat 16 a.rdata.wire.length⟩ (a.rdata.wire ++ rest) = some (a.cache ts dns) := by
  obtain ⟨owner, dnsClass, ttl, rdata, hlt⟩ := a
  cases rdata with
  | cname target =>
    have hname := DomainName.getName_wire (h target (by simp [Answer.names])) rest
    simp [store, RData.type, RData.wire, hname, DomainName.dropLast_text, Answer.cache,
      Answer.aRecord, Answer.cnameRecord]
  | other type htype data =>
    have hfour : BitVec.ofNat 16 data.length = 4 ↔ data.length = 4 :=
      ofNat_eq_iff hlt (by decide)
    have hsixteen : BitVec.ofNat 16 data.length = 16 ↔ data.length = 16 :=
      ofNat_eq_iff hlt (by decide)
    simp only [store, RData.type, RData.wire, Answer.cache, Answer.aRecord, Answer.cnameRecord,
      DomainName.dropLast_text, if_neg htype, hfour, hsixteen, and_comm (b := type = _)]
    by_cases ha : type = 1 ∧ data.length = 4
    · rw [if_pos ha, dif_pos ha, anyAddr_append ha.2 rest]
      rfl
    · rw [if_neg ha, dif_neg ha]
      by_cases haaaa : type = 28 ∧ data.length = 16
      · rw [if_pos haaaa, dif_pos haaaa, anyAddr_append haaaa.2 rest]
        rfl
      · rw [if_neg haaaa, dif_neg haaaa]
        rfl

def DataLast (answers : List Answer) : Prop := ∀ a ∈ answers.dropLast, a.rdata.wire = []

theorem readAnswers_wire {base : List Byte} (ts : ℤ) {as : List Answer} (hlast : DataLast as)
    (h : ∀ a ∈ as, ∀ n ∈ a.names, n.StandsIn base) (rest : List Byte) (dns : Dns) :
    readAnswers base ts as.length (as.flatMap Answer.wire ++ rest) dns =
      some (as.foldl (Answer.cache ts) dns) := by
  induction as generalizing dns with
  | nil => rfl
  | cons a as ih =>
    have hnames := h a List.mem_cons_self
    have hheader := readHeader_wire (hnames a.owner a.owner_mem_names)
      (a.rdata.wire ++ (as.flatMap Answer.wire ++ rest))
    have hstore := store_wire ts dns hnames (as.flatMap Answer.wire ++ rest)
    simp only [List.flatMap_cons, Answer.wire, List.append_assoc, List.length_cons, readAnswers,
      hheader, Option.bind_eq_bind, Option.bind_some, hstore, List.foldl_cons]
    cases as with
    | nil => rfl
    | cons a' as =>
      have hempty : a.rdata.wire = [] := hlast a (by simp)
      rw [hempty, List.nil_append]
      exact ih (fun b hb => hlast b (by simp [hb])) (fun b hb => h b (List.mem_cons_of_mem a hb)) _

/-! ## Responses -/

theorem cached_foldl (r : Response) (ts : ℤ) (dns : Dns) :
    Cached r ts dns (r.answers.foldl (Answer.cache ts) dns) where
  dnsIp := by
    generalize r.answers = as
    induction as using List.reverseRecOn with
    | nil => rfl
    | append_singleton as a ih => rwa [List.foldl_append]
  a name := by
    rw [← KeyedList.foldl_assign, ← KeyedList.foldl_elim_assign]
    exact congrFun (List.foldl_hom Dns.aAaaaCache fun _ _ => rfl).symm name
  cname name := by
    rw [← KeyedList.foldl_assign, ← KeyedList.foldl_elim_assign]
    exact congrFun (List.foldl_hom Dns.cnameCache fun _ _ => rfl).symm name

theorem input_wire (dns : Dns) (id flags qdcount ancount nscount arcount : BitVec 16)
    (work data : List Byte) (ts : ℤ)
    (hdata : data = be16Bytes id ++ be16Bytes flags ++ be16Bytes qdcount ++ be16Bytes ancount ++
      be16Bytes nscount ++ be16Bytes arcount ++ work) :
    dns.input dns.dnsIp data ts =
      if flags = 0x8400 then some dns
      else (skipQuestions data qdcount.toNat work).bind
        (readAnswers data ts ancount.toNat · dns) := by
  have hbytes : ∃ i₀ i₁ n₀ n₁ r₀ r₁ : Byte, data = i₀ :: i₁ :: (flags >>> 8).setWidth 8 ::
      flags.setWidth 8 :: (qdcount >>> 8).setWidth 8 :: qdcount.setWidth 8 ::
      (ancount >>> 8).setWidth 8 :: ancount.setWidth 8 :: n₀ :: n₁ :: r₀ :: r₁ :: work :=
    ⟨_, _, _, _, _, _, hdata⟩
  clear hdata
  obtain ⟨i₀, i₁, n₀, n₁, r₀, r₁, hdata⟩ := hbytes
  subst hdata
  simp only [input, ne_eq, not_true_eq_false, if_false, be16_be16Bytes]
  rfl

def Answer.Cacheable (a : Answer) : Prop :=
  match a.rdata with
  | .cname _ => True
  | .other type _ data => type = 1 ∧ data.length = 4 ∨ type = 28 ∧ data.length = 16

theorem Answer.not_cacheable_iff (a : Answer) (ts : ℤ) :
    ¬a.Cacheable ↔ a.aRecord ts = none ∧ a.cnameRecord ts = none := by
  rw [Cacheable, aRecord, cnameRecord]
  cases a.rdata with
  | cname target => simp
  | other type htype data =>
    by_cases ha : type = 1 ∧ data.length = 4
    · simp [ha]
    · by_cases haaaa : type = 28 ∧ data.length = 16
      · simp [haaaa]
      · dsimp only
        rw [dif_neg ha, dif_neg haaaa]
        exact ⟨fun _ => ⟨rfl, rfl⟩, fun _ h => h.elim ha haaaa⟩

/-- All answers of a response are cached, whatever the caches hold when it comes. -/
def Caches (r : Response) : Prop :=
  ∀ (dns : Dns) (ts : ℤ), ∃ dns', dns.input dns.dnsIp r.wire ts = some dns' ∧ Cached r ts dns dns'

theorem Response.input_eq (r : Response) (hlast : r.flags ≠ 0x8400 → DataLast r.answers)
    (dns : Dns) (ts : ℤ) :
    dns.input dns.dnsIp r.wire ts =
      if r.flags = 0x8400 then some dns else some (r.answers.foldl (Answer.cache ts) dns) := by
  have hquestions : ∀ q ∈ r.questions, q.name.StandsIn r.wire := fun q hq =>
    r.names_stand q.name (List.mem_append_left _ (List.mem_map_of_mem hq))
  have hanswers : ∀ a ∈ r.answers, ∀ n ∈ a.names, n.StandsIn r.wire := fun a ha n hn =>
    r.names_stand n (List.mem_append_right _ (List.mem_flatMap.2 ⟨a, ha, hn⟩))
  rw [input_wire dns _ _ _ _ _ _ _ r.wire ts rfl]
  by_cases hflags : r.flags = 0x8400
  -- it returns before it comes to the answers
  · rw [if_pos hflags, if_pos hflags]
  · rw [if_neg hflags, if_neg hflags, toNat_ofNat_of_lt r.questions_lt,
      toNat_ofNat_of_lt r.answers_lt, skipQuestions_wire r.questions hquestions, Option.bind_some,
      readAnswers_wire ts (hlast hflags) hanswers]

/-- To leave the caches as they are is right if there is nothing to cache. -/
theorem cached_self_iff (r : Response) (ts : ℤ) :
    (∀ dns, Cached r ts dns dns) ↔ ∀ a ∈ r.answers, ¬a.Cacheable := by
  have hrecords : (∀ a ∈ r.answers, ¬a.Cacheable) ↔
      (∀ name, KeyedList.lastValue (r.answers.filterMap (Answer.aRecord ts)) name = none) ∧
      ∀ name, KeyedList.lastValue (r.answers.filterMap (Answer.cnameRecord ts)) name = none := by
    rw [KeyedList.forall_lastValue_eq_none_iff, KeyedList.forall_lastValue_eq_none_iff,
      ← forall₂_and]
    exact forall₂_congr fun a _ => a.not_cacheable_iff ts
  rw [hrecords]
  constructor
  · intro h
    obtain ⟨-, ha, hcname⟩ := h ⟨.ipv4 127 0 0 1, fun _ => none, fun _ => none⟩
    exact ⟨fun name => (Option.or_eq_none_iff.1 (ha name).symm).1,
      fun name => (Option.or_eq_none_iff.1 (hcname name).symm).1⟩
  · rintro ⟨ha, hcname⟩ dns
    exact ⟨rfl, fun name => by rw [ha, Option.none_or], fun name => by rw [hcname, Option.none_or]⟩

/-- For a response that is read and has data only in its last answer, and for one that is not read:
it is cached exactly if it is read, or has nothing to cache. -/
theorem caches_iff_of_dataLast (r : Response) (hlast : r.flags ≠ 0x8400 → DataLast r.answers) :
    Caches r ↔ (r.flags = 0x8400 → ∀ a ∈ r.answers, ¬a.Cacheable) := by
  constructor
  · intro h hflags
    rw [← cached_self_iff r 0]
    intro dns
    obtain ⟨dns', hinput, hcached⟩ := h dns 0
    rw [r.input_eq hlast, if_pos hflags, Option.some.injEq] at hinput
    exact hinput ▸ hcached
  · intro h dns ts
    rw [r.input_eq hlast]
    by_cases hflags : r.flags = 0x8400
    · rw [if_pos hflags]
      exact ⟨dns, rfl, (cached_self_iff r ts).2 (h hflags) dns⟩
    · rw [if_neg hflags]
      exact ⟨_, rfl, cached_foldl r ts dns⟩

namespace Sample

def label (b : Byte) : Label := ⟨[b], Nat.one_pos, by simp⟩

/-- A question for `a`, which is the name at offset 12. -/
def question : Question := ⟨⟨[label 0x61], none⟩, 1, 1⟩

def answerA : Answer where
  owner := ⟨[], some (12, [label 0x61])⟩
  dnsClass := 1
  ttl := 60
  rdata := .other 1 (by decide) [10, 0, 0, 1]
  rdata_lt := by decide

def answerB : Answer where
  owner := ⟨[label 0x62], none⟩
  dnsClass := 1
  ttl := 60
  rdata := .other 1 (by decide) [10, 0, 0, 2]
  rdata_lt := by decide

/-- The response to the question, with an option record behind the answers. -/
def message (answers : List Answer) : Message where
  id := 0
  flags := 0x8180
  questions := [question]
  answers := answers
  nscount := 0
  arcount := 1
  more := [0, 0, 41, 16, 0, 0, 0, 0, 0, 0, 0]

def single : Response where
  toMessage := message [answerA]
  questions_lt := by decide
  answers_lt := by decide
  names_stand := by decide +kernel

def pair : Response where
  toMessage := message [answerA, answerB]
  questions_lt := by decide
  answers_lt := by decide
  names_stand := by decide +kernel

def answerText (data : List Byte) (h : data.length < 2 ^ 16) : Answer :=
  ⟨⟨[], none⟩, 1, 60, .other 16 (by decide) data, h⟩

/-- Two texts; the data of the first reads as an empty text. -/
def texts : Response where
  toMessage := message
    [answerText [0, 0, 16, 0, 1, 0, 0, 0, 0, 0, 0] (by decide), answerText [] (by decide)]
  questions_lt := by decide
  answers_lt := by decide
  names_stand := by decide +kernel

end Sample

theorem caches_iff_of_dataLast_single : Caches Sample.single ↔
    (Sample.single.flags = 0x8400 → ∀ a ∈ Sample.single.answers, ¬a.Cacheable) :=
  caches_iff_of_dataLast Sample.single fun _ => List.forall_mem_nil _

/-- Data before the last answer may do no harm: what is read in its place can say nothing too. -/
theorem caches_texts : Caches Sample.texts ∧ ¬DataLast Sample.texts.answers := by
  refine ⟨fun dns ts => ⟨dns, ?_, ?_⟩, ?_⟩
  · rw [input_wire dns _ _ _ _ _ _ _ Sample.texts.wire ts rfl, if_neg (by decide +kernel)]
    rfl
  · refine (cached_self_iff Sample.texts ts).2 ?_ dns
    simp [Sample.texts, Sample.message, Sample.answerText, Answer.Cacheable]
  · simp [DataLast, Sample.texts, Sample.message, Sample.answerText, RData.wire]

/-- The second of two answers is looked for in the address of the first, and is lost. -/
theorem not_caches_pair : ¬Caches Sample.pair := by
  intro h
  obtain ⟨dns', hinput, -, ha, -⟩ := h ⟨.ipv4 192 0 2 1, fun _ => none, fun _ => none⟩ 0
  have hlost : (input ⟨.ipv4 192 0 2 1, fun _ => none, fun _ => none⟩ (.ipv4 192 0 2 1)
      Sample.pair.wire 0).bind (·.aAaaaCache [0x62]) = none := by
    decide +kernel
  have hthere : KeyedList.lastValue (Sample.pair.answers.filterMap (Answer.aRecord 0)) [0x62] ≠
      none := by
    decide +kernel
  rw [show (input _ (.ipv4 192 0 2 1) Sample.pair.wire 0) = some dns' from hinput,
    Option.bind_some, ha] at hlost
  exact hthere (Option.or_eq_none_iff.1 hlost).1

end MyIp.Dns
