import MyIp.Snmp.Oid

/-! # SNMP replies

`snmp::gen_reply` builds the reply to a request as four nested levels of elements. The bytes it
sends are read here as triples of a type, a one-byte length and that many bytes of content
(`readTriples`); `readTriples_bers` says that elements of at most 255 bytes are read back as they
were encoded, `getInteger_content` that `get_INTEGER` gives back the value of an integer, and
`reply_decodes` puts the levels together. -/

namespace MyIp.Snmp
set_option autoImplicit false

open Bytes CText Net

/-- `oid_req_t` -/
structure OidReq where
  oids : List Text
  reqId : BitVec 64
  err : BitVec 32
  errIdx : BitVec 32
  version : BitVec 32
  community : List Byte

def getInteger (p : List Byte) : BitVec 64 :=
  p.foldl (fun v b => (v <<< 8) ||| b.setWidth 64) 0

/-- The text `public`. -/
def publicCommunity : List Byte := [0x70, 0x75, 0x62, 0x6c, 0x69, 0x63]

/-- The element of a varbind: what is found under the object identifier or, if there is nothing and
it ends with `.0`, under the part before that. -/
def foundElement (env : Env) (data : List Node) (e : Text) : Elem :=
  let dot := rfind '.' e
  let endsWith := match dot with
    | some dot => e.drop dot
    | none => []
  let rc := findByOid env data e
  let rc :=
    if rc.isNone ∧ endsWith = ['.', '0'] then findByOid env data (e.take (dot.getD 0)) else rc
  match rc with
  | some (some currentElement) => currentElement
  | some none => .null
  | none => .null

def varbind (env : Env) (data : List Node) (e : Text) : Elem :=
  .sequence [snmpOid e, foundElement env data e]

def getResponsePdu (env : Env) (data : List Node) (req : OidReq) : Elem :=
  .pdu 0xa2 [.integer .integer req.reqId, .integer .integer (req.err.signExtend 64),
    .integer .integer (req.errIdx.signExtend 64), .sequence (req.oids.map (varbind env data))]

def replyElem (env : Env) (data : List Node) (req : OidReq) : Elem :=
  .sequence [.integer .integer (req.version.signExtend 64),
    .octetString (if req.community.isEmpty then publicCommunity else req.community),
    getResponsePdu env data req]

/-- `gen_reply`: the bytes of `packet_out` up to `output_size`. -/
def genReply (env : Env) (data : List Node) (req : OidReq) : List Byte :=
  payloadBytes (replyElem env data req)

/-! ## Reading triples -/

/-- All of `p` as triples of type, length and content, each as type and content. -/
def readTriples (p : List Byte) : Option (List (Byte × List Byte)) :=
  match p with
  | [] => some []
  | [_] => none
  | type :: length :: rest =>
    if length.toNat ≤ rest.length then
      (readTriples (rest.drop length.toNat)).map ((type, rest.take length.toNat) :: ·)
    else none
termination_by p.length
decreasing_by
  simp only [List.length_drop, List.length_cons]
  omega

theorem readTriples_cons {type length : Byte} {content rest : List Byte}
    (h : length.toNat = content.length) :
    readTriples (type :: length :: (content ++ rest)) =
      (readTriples rest).map ((type, content) :: ·) := by
  rw [readTriples, if_pos (by rw [h, List.length_append]; omega), h, List.drop_left, List.take_left]

theorem readTriples_bers : (es : List Elem) → (∀ e ∈ es, size e ≤ 255) →
    readTriples (bers es) = some (es.map fun e => (e.type, content e))
  | [], _ => by rw [bers, readTriples]; rfl
  | e :: es, h => by
    have hlen := content_length e
    have he := h e List.mem_cons_self
    have hto : (BitVec.ofNat 8 (content e).length).toNat = (content e).length :=
      toNat_ofNat_of_lt (by omega)
    rw [bers, List.cons_append, List.cons_append, readTriples_cons hto,
      readTriples_bers es fun e' he' => h e' (List.mem_cons_of_mem _ he')]
    rfl

theorem size_le_sizes {e : Elem} {es : List Elem} (h : e ∈ es) : size e ≤ sizes es := by
  induction es with
  | nil => cases h
  | cons e' es ih =>
    rw [sizes]
    rcases List.mem_cons.mp h with rfl | h
    · omega
    · have := ih h
      omega

/-- The content of a sequence of at most 255 bytes is read as its elements. -/
theorem readTriples_sequence {es : List Elem} (h : sizes es ≤ 255) :
    readTriples (bers es) = some (es.map fun e => (e.type, content e)) :=
  readTriples_bers es fun _ he => (size_le_sizes he).trans h

/-! ## Integers -/

theorem integerBytes_succ (n : ℕ) (v : BitVec 64) :
    integerBytes (n + 1) v = integerBytes n (v >>> 8) ++ [v.setWidth 8] := by
  rw [integerBytes, List.range_succ, List.map_append, integerBytes]
  congr 1
  · refine List.map_congr_left fun i hi => ?_
    have hi' : i < n := List.mem_range.mp hi
    rw [← BitVec.shiftRight_add]
    congr 2
    omega
  · simp

theorem getInteger_snoc (p : List Byte) (b : Byte) :
    getInteger (p ++ [b]) = (getInteger p <<< 8) ||| b.setWidth 64 := by
  simp [getInteger]

theorem getInteger_integerBytes {n : ℕ} (hn : n ≤ 8) (v : BitVec 64) :
    (getInteger (integerBytes n v)).toNat = v.toNat % 2 ^ (8 * n) := by
  induction n generalizing v with
  | zero => simp [integerBytes, getInteger, Nat.mod_one]
  | succ n ih =>
    have hrest := ih (by omega) (v >>> 8)
    have hpow : 2 ^ (8 * n) ≤ 2 ^ 56 := Nat.pow_le_pow_right (by decide) (by omega)
    have hsmall : v.toNat / 2 ^ 8 % 2 ^ (8 * n) < 2 ^ 56 :=
      lt_of_lt_of_le (Nat.mod_lt _ (by positivity)) hpow
    rw [BitVec.toNat_ushiftRight, Nat.shiftRight_eq_div_pow] at hrest
    rw [integerBytes_succ, getInteger_snoc, BitVec.toNat_or, BitVec.toNat_shiftLeft, hrest,
      Nat.shiftLeft_eq, Nat.mod_eq_of_lt (by omega), BitVec.toNat_setWidth, BitVec.toNat_setWidth,
      Nat.mod_eq_of_lt (show v.toNat % 2 ^ 8 < 2 ^ 64 by omega), Nat.mul_comm,
      ← Nat.two_pow_add_eq_or_of_lt (Nat.mod_lt _ (by decide)),
      show 8 * (n + 1) = 8 + 8 * n by omega, pow_add, Nat.mod_mul]
    omega

theorem getInteger_content (type : IntegerType) (v : BitVec 64) :
    getInteger (content (.integer type v)) = v := by
  apply BitVec.eq_of_toNat_eq
  rw [content]
  have hlt := v.isLt
  split
  · rename_i hv
    have hv' : v.toNat ≤ 0xffffffff := hv
    rw [getInteger_integerBytes (by decide)]
    omega
  · rw [getInteger_integerBytes (by decide)]
    omega

/-! ## The element of a varbind -/

/-- What a request for an object identifier should be answered with: the element found under it, or
under it without its last arc if nothing is found and that arc is 0, and null otherwise. -/
def elementFor (env : Env) (data : List Node) (arcs : List ℕ) : Elem :=
  match findByOid env data (render arcs) with
  | some found => found.getD .null
  | none =>
    if arcs.getLast? = some 0 then
      ((findByOid env data (render arcs.dropLast)).getD none).getD .null
    else .null

theorem decimal_eq_zero_iff (k : ℕ) : decimal k = ['0'] ↔ k = 0 := by
  constructor
  · exact fun h => decimal_injective (h.trans (show ['0'] = decimal 0 from rfl))
  · rintro rfl
    rfl

theorem foundElement_render (env : Env) (data : List Node) {p : List ℕ} (hp : p ≠ []) (k : ℕ) :
    foundElement env data (render (p ++ [k])) = elementFor env data (p ++ [k]) := by
  have hdot : rfind '.' (render (p ++ [k])) = some (render p).length := by
    rw [render_snoc hp]
    exact rfind_append_cons (dot_not_mem_decimal k)
  have hend : (render (p ++ [k])).drop (render p).length = '.' :: decimal k := by
    rw [render_snoc hp, List.drop_left]
  have hstem : (render (p ++ [k])).take (render p).length = render p := by
    rw [render_snoc hp, List.take_left]
  have hzero : '.' :: decimal k = ['.', '0'] ↔ k = 0 := by
    rw [List.cons_inj_right, decimal_eq_zero_iff]
  rw [foundElement, elementFor]
  simp only [hdot, hend, Option.getD_some, hstem, hzero, List.getLast?_concat, List.dropLast_concat,
    Option.some.injEq]
  cases hfound : findByOid env data (render (p ++ [k])) with
  | some found => cases found <;> simp
  | none =>
    by_cases hk : k = 0
    · simp only [Option.isNone_none, hk, and_self, if_true]
      cases findByOid env data (render p) with
      | none => rfl
      | some found => cases found <;> rfl
    · simp [hk]

/-! ## The whole reply -/

theorem varbind_reads (env : Env) (data : List Node) {as : List ℕ} (hne : as ≠ [])
    (harcs : ∀ a ∈ as, a < 2 ^ 31) (hsize : size (varbind env data (render (1 :: 3 :: as))) ≤ 255) :
    ∃ body type value,
      readTriples (content (varbind env data (render (1 :: 3 :: as)))) =
        some [(0x06, body), (type, value)] ∧
      getOid body = (true, render (1 :: 3 :: as)) ∧
      type :: BitVec.ofNat 8 value.length :: value =
        payloadBytes (elementFor env data (1 :: 3 :: as)) := by
  have hsizes : sizes [snmpOid (render (1 :: 3 :: as)),
      foundElement env data (render (1 :: 3 :: as))] ≤ 253 := by
    rw [varbind, size] at hsize
    omega
  have hread := readTriples_sequence (hsizes.trans (by decide))
  have helem : foundElement env data (render (1 :: 3 :: as)) =
      elementFor env data (1 :: 3 :: as) := by
    have hsplit := List.dropLast_concat_getLast (show 1 :: 3 :: as ≠ [] by simp)
    have hlast := foundElement_render env data (p := (1 :: 3 :: as).dropLast)
      (by cases as <;> simp) ((1 :: 3 :: as).getLast (by simp))
    rwa [hsplit] at hlast
  have hfound : size (foundElement env data (render (1 :: 3 :: as))) ≤ 255 :=
    (size_le_sizes (List.mem_cons_of_mem _ (List.mem_singleton_self _))).trans
      (hsizes.trans (by decide))
  refine ⟨oidBytes (render (1 :: 3 :: as)), _, _, hread, ?_, ?_⟩
  · rw [render_13 hne harcs, oidBytes_13 hne, map_reread_eq harcs,
      getOid_cons_43 (Base128.wellFormed_flatMap_encode as), Base128.arcs_flatMap_encode]
  · rw [← helem, payloadBytes_eq hfound]
    rfl

/-- Read as triples, the bytes are one sequence with the version, the community and a response that
holds the request id, the two error fields and, in the order of the request, a varbind for each
object identifier `1.3.as` with its text and the encoding of the element that answers it. -/
def ReadsAsReply (env : Env) (data : List Node) (req : OidReq) (oids : List (List ℕ))
    (bytes : List Byte) : Prop :=
  ∃ message version pdu reqId err errIdx list varbinds,
    readTriples bytes = some [(0x30, message)] ∧
    readTriples message = some [(0x02, version), (0x04, req.community), (0xa2, pdu)] ∧
    readTriples pdu = some [(0x02, reqId), (0x02, err), (0x02, errIdx), (0x30, list)] ∧
    readTriples list = some (varbinds.map fun vb => (0x30, vb)) ∧
    List.Forall₂ (fun as vb => ∃ body type value,
      readTriples vb = some [(0x06, body), (type, value)] ∧
      getOid body = (true, render (1 :: 3 :: as)) ∧
      type :: BitVec.ofNat 8 value.length :: value =
        payloadBytes (elementFor env data (1 :: 3 :: as))) oids varbinds ∧
    getInteger version = req.version.signExtend 64 ∧ getInteger reqId = req.reqId ∧
    getInteger err = req.err.signExtend 64 ∧ getInteger errIdx = req.errIdx.signExtend 64

/-- A reply that takes at most 255 bytes in full is read back. -/
theorem reply_decodes (env : Env) (data : List Node) (req : OidReq) (oids : List (List ℕ))
    (hoids : req.oids = oids.map fun as => render (1 :: 3 :: as)) (hne : ∀ as ∈ oids, as ≠ [])
    (harcs : ∀ as ∈ oids, ∀ a ∈ as, a < 2 ^ 31)
    (hcommunity : 1 ≤ req.community.length ∧ req.community.length ≤ 253)
    (hsize : size (replyElem env data req) ≤ 255) :
    ReadsAsReply env data req oids (genReply env data req) := by
  have hcom : (if req.community.isEmpty then publicCommunity else req.community) =
      req.community := by
    have hne' : req.community.isEmpty = false := by
      simpa using List.ne_nil_of_length_pos hcommunity.1
    rw [hne']
    rfl
  have hbytes : genReply env data req = bers [replyElem env data req] := by
    rw [genReply, payloadBytes_eq hsize, bers_cons, bers, List.append_nil]
  -- every level is smaller than the one around it
  have hmessage : sizes [.integer .integer (req.version.signExtend 64),
      .octetString (if req.community.isEmpty then publicCommunity else req.community),
      getResponsePdu env data req] ≤ 255 := by
    rw [replyElem, size] at hsize
    omega
  have hpdu : sizes [.integer .integer req.reqId, .integer .integer (req.err.signExtend 64),
      .integer .integer (req.errIdx.signExtend 64),
      .sequence (req.oids.map (varbind env data))] ≤ 255 := by
    have h := (size_le_sizes (e := getResponsePdu env data req) (by simp)).trans hmessage
    rw [getResponsePdu, size] at h
    omega
  have hlist : sizes (req.oids.map (varbind env data)) ≤ 255 := by
    have hmem : Elem.sequence (req.oids.map (varbind env data)) ∈
        [.integer .integer req.reqId, .integer .integer (req.err.signExtend 64),
          .integer .integer (req.errIdx.signExtend 64),
          .sequence (req.oids.map (varbind env data))] := by simp
    have h := (size_le_sizes hmem).trans hpdu
    rw [size] at h
    omega
  refine ⟨content (replyElem env data req), content (.integer .integer (req.version.signExtend 64)),
    content (getResponsePdu env data req), content (.integer .integer req.reqId),
    content (.integer .integer (req.err.signExtend 64)),
    content (.integer .integer (req.errIdx.signExtend 64)),
    content (.sequence (req.oids.map (varbind env data))),
    (req.oids.map (varbind env data)).map content, ?_, ?_, ?_, ?_, ?_, getInteger_content _ _,
    getInteger_content _ _, getInteger_content _ _, getInteger_content _ _⟩
  · rw [hbytes]
    exact readTriples_bers _ fun e he => by
      obtain rfl := List.mem_singleton.mp he
      exact hsize
  · have h := readTriples_sequence hmessage
    rw [hcom] at h
    rw [replyElem, content, hcom]
    exact h
  · exact readTriples_sequence hpdu
  · have h := readTriples_sequence hlist
    rw [content, h]
    simp only [List.map_map]
    rfl
  · rw [hoids, List.map_map, List.map_map, List.forall₂_map_right_iff]
    refine List.forall₂_same.mpr fun as has => ?_
    refine varbind_reads env data (hne as has) (harcs as has) ?_
    refine (size_le_sizes ?_).trans hlist
    rw [hoids, List.map_map]
    exact List.mem_map_of_mem (f := varbind env data ∘ fun as => render (1 :: 3 :: as)) has

/-- A request for a counter, under its own name and with `.0`, and for something unknown. -/
def counterRequest : OidReq where
  oids := [render [1, 3, 6, 1], render [1, 3, 6, 1, 0], render [1, 3, 7]]
  reqId := 0x1234567890
  err := 0
  errIdx := 0
  version := 1
  community := publicCommunity

theorem reply_decodes_counterRequest :
    ReadsAsReply ⟨fun _ => 300, 0⟩
      (registerAll [] [(⟨[1, 3, 6, 1], by decide⟩, .stats .counter32 0)]) counterRequest
      [[6, 1], [6, 1, 0], [7]]
      (genReply ⟨fun _ => 300, 0⟩
        (registerAll [] [(⟨[1, 3, 6, 1], by decide⟩, .stats .counter32 0)]) counterRequest) :=
  reply_decodes _ _ counterRequest [[6, 1], [6, 1, 0], [7]] (by decide) (by decide) (by decide)
    (by decide) (by decide)

end MyIp.Snmp
