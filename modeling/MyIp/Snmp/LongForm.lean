import MyIp.Snmp.Request

/-! # Messages and the long form of lengths

From 128 bytes of content on a length takes more than one octet. `process_BER` takes the first octet
of such a length for the whole of it, and `gen_reply` writes the length itself into one octet:
`extracts_iff` and `encodesAsBer_iff` say exactly which requests are read as they are meant and
which replies are encoded by the rules. -/

namespace MyIp.Snmp
set_option autoImplicit false

open Bytes CText Net Ber

/-! ## Requests -/

/-- The types that `process_BER` hands to `process_PDU`. -/
def isPduType (type : Byte) : Bool := type = 0xa0 ∨ type = 0xa1 ∨ type = 0xa3

theorem content_begins (m : GetRequest) (h : m.content.length < 256) :
    ∃ length v rest, m.content = 0x02 :: length :: v :: rest ∧
      (octetCount m.version ≠ 2 → length ≠ 0x02) := by
  have hversion := content_length_lt_tlv 0x02 (integerOctets m.version)
  have hlen : (integerOctets m.version).length < 256 := by
    simp only [GetRequest.content, List.length_append] at h
    omega
  have hcount := integerOctets_length m.version
  by_cases hshort : (integerOctets m.version).length < 128
  · obtain ⟨v, vs, hoctets⟩ := List.exists_cons_of_length_pos
      (show 0 < (integerOctets m.version).length by rw [hcount, octetCount]; omega)
    refine ⟨BitVec.ofNat 8 (integerOctets m.version).length, v,
      vs ++ tlv 0x04 m.community ++ tlv 0xa0 m.pdu, ?_, ?_⟩
    · rw [GetRequest.content, tlv_short hshort]
      nth_rewrite 2 [hoctets]
      rfl
    · intro hne heq
      have hval := congrArg BitVec.toNat heq
      rw [toNat_length_short hshort] at hval
      exact hne (hcount ▸ hval)
  · refine ⟨0x81, BitVec.ofNat 8 (integerOctets m.version).length,
      integerOctets m.version ++ tlv 0x04 m.community ++ tlv 0xa0 m.pdu, ?_, fun _ => by decide⟩
    rw [GetRequest.content, tlv_long (by omega) hlen]
    rfl

/-- The octet that follows the first one of a long length is taken for a type. -/
theorem berElement_long (data : List Node) {type length v : Byte} {rest : List Byte}
    (htype : 128 ≤ type.toNat) (h : isPduType type → length ≠ 0x02) (req : OidReq) :
    berElement data false 1 type (length :: v :: rest) 2 true true req = some (false, req) := by
  have hne : ∀ t : Byte, t.toNat < 128 → type ≠ t := by
    rintro t ht rfl
    omega
  have hpdu : isPduType type → ∀ isGetnext, processPdu data isGetnext (length :: v :: rest) 2 req =
      some (false, req) := by
    intro ht isGetnext
    refine processPdu_of_none ?_
    rw [pduHead, pduInteger, if_neg (by omega), if_pos (h ht)]
  rw [berElement, if_neg (hne _ (by decide)), if_neg (hne _ (by decide)),
    if_neg (hne _ (by decide)), if_neg (hne _ (by decide)), if_neg (hne _ (by decide))]
  by_cases ha0 : type = 0xa0
  · rw [if_pos ha0]
    exact hpdu (by simp [isPduType, ha0]) false
  by_cases ha1 : type = 0xa1
  · rw [if_neg ha0, if_pos ha1]
    exact hpdu (by simp [isPduType, ha1]) true
  by_cases ha3 : type = 0xa3
  · rw [if_neg ha0, if_neg ha1, if_pos ha3]
    exact hpdu (by simp [isPduType, ha3]) false
  rw [if_neg ha0, if_neg ha1, if_neg ha3]

theorem processBer_long (data : List Node) {m : GetRequest} (h : 128 ≤ m.content.length)
    (h' : m.content.length < 256)
    (hversion : isPduType (BitVec.ofNat 8 m.content.length) → octetCount m.version ≠ 2) :
    processBer data false 2 m.octets m.octets.length OidReq.new = some (false, OidReq.new) := by
  obtain ⟨length, v, rest, hcontent, hlength⟩ := content_begins m h'
  have hn : (BitVec.ofNat 8 m.content.length).toNat = m.content.length :=
    toNat_ofNat_of_lt (by omega)
  have htwo : (0x02 : Byte).toNat = 2 := rfl
  have hinner : processBer data false 1 (BitVec.ofNat 8 m.content.length :: m.content) 129
      OidReq.new = some (false, OidReq.new) := by
    rw [processBer, if_neg (by omega)]
    nth_rewrite 2 [hcontent]
    rw [berLoop, if_neg (by omega), htwo, if_neg (by omega),
      berElement_long data (by omega) fun ht => hlength (hversion ht)]
    rfl
  have h81 : (0x81 : Byte).toNat = 129 := rfl
  have hlen : m.octets.length = m.content.length + 3 := by
    rw [GetRequest.octets, tlv_long h h']
    rfl
  rw [processBer, if_neg (by omega), hlen, GetRequest.octets, tlv_long h h', berLoop,
    if_neg (by omega), h81, if_neg (by omega), berElement_sequence, show (2 : ℤ) - 1 = 1 from rfl,
    hinner]
  rfl

/-- The names that come out as their text. -/
def NameFits (o : ObjectId) : Prop := o.first = 1 ∧ o.second = 3 ∧ ∀ a ∈ o.rest, a < 2 ^ 31

/-- The condition on a request: its content has a length of one octet, the numbers are in range and
the names are under `1.3` with arcs below `2 ^ 31`. -/
structure GetRequest.Readable (m : GetRequest) : Prop where
  short : m.content.length < 128
  version : VersionFits m.version
  requestId : 0 ≤ m.requestId ∧ m.requestId < 2 ^ 64
  names : ∀ o ∈ m.names, NameFits o

theorem extracts_short_iff (data : List Node) {m : GetRequest} (h : m.content.length < 128) :
    Extracts data m ↔ m.Readable := by
  have hread := processBer_short data h
  constructor
  · rintro ⟨req, hreq, hversion, -, hid, hnames⟩
    rw [hread, Option.some.injEq, Prod.mk.injEq] at hreq
    rw [← hreq.2] at hversion hid hnames
    refine ⟨h, (version_extracted_iff _).mp hversion, (reqId_extracted_iff _).mp hid, ?_⟩
    intro o ho
    exact (name_extracted_iff o).mp (List.map_inj_left.mp hnames o ho)
  · rintro ⟨-, hversion, hid, hnames⟩
    refine ⟨m.extracted, hread, (version_extracted_iff _).mpr hversion, rfl,
      (reqId_extracted_iff _).mpr hid, ?_⟩
    exact List.map_congr_left fun o ho => (name_extracted_iff o).mpr (hnames o ho)

theorem extracts_iff (data : List Node) {m : GetRequest} (h : m.octets.length ≤ 255)
    (hversion : isPduType (BitVec.ofNat 8 m.content.length) → octetCount m.version ≠ 2) :
    Extracts data m ↔ m.Readable := by
  by_cases hshort : m.content.length < 128
  · exact extracts_short_iff data hshort
  · have hlen := content_length_lt_tlv 0x30 m.content
    have hlen' : m.content.length + 2 ≤ m.octets.length := hlen
    refine iff_of_false ?_ fun hr => hshort hr.short
    rintro ⟨req, hreq, -⟩
    rw [processBer_long data (by omega) (by omega) hversion, Option.some.injEq,
      Prod.mk.injEq] at hreq
    exact Bool.false_ne_true hreq.1

/-! ## Replies -/

/-- `Part e e'`: the element `e` is `e'` or inside it. -/
inductive Part (e : Elem) : Elem → Prop
  | self : Part e e
  | sequence {e' : Elem} {es : List Elem} (mem : e' ∈ es) (part : Part e e') : Part e (.sequence es)
  | pdu {e' : Elem} {type : Byte} {es : List Elem} (mem : e' ∈ es) (part : Part e e') :
      Part e (.pdu type es)

def Elem.isConstructed : Elem → Bool
  | .sequence _ => true
  | .pdu _ _ => true
  | _ => false

/-- Every constructed element of the reply is in the bytes, with a length as the rules have it. -/
def EncodesAsBer (reply : Elem) (bytes : List Byte) : Prop :=
  ∀ e, Part e reply → e.isConstructed → tlv e.type (content e) <:+: bytes

theorem ber_infix_bers {e : Elem} {es : List Elem} (h : e ∈ es) : ber e <:+: bers es := by
  induction es with
  | nil => cases h
  | cons e' es ih =>
    rw [bers_cons]
    rcases List.mem_cons.mp h with rfl | h
    · exact (List.prefix_append _ _).isInfix
    · exact (ih h).trans (List.suffix_append _ _).isInfix

theorem content_infix_ber (e : Elem) : content e <:+: ber e :=
  (List.suffix_append [e.type, BitVec.ofNat 8 (content e).length] (content e)).isInfix

theorem Part.ber_infix {e e' : Elem} (h : Part e e') : ber e <:+: ber e' := by
  induction h with
  | self => exact List.infix_rfl
  | sequence mem _ ih =>
    exact ih.trans ((ber_infix_bers mem).trans (content_infix_ber (.sequence _)))
  | pdu mem _ ih => exact ih.trans ((ber_infix_bers mem).trans (content_infix_ber (.pdu _ _)))

/-- The bytes that the reply takes behind its first two: what its integers, the community, the names
and the elements found for them take, with a type and a length for each. -/
def replyRoom (env : Env) (data : List Node) (req : OidReq) : ℕ :=
  size (.integer .integer (req.version.signExtend 64)) +
    (2 + (if req.community.isEmpty then publicCommunity else req.community).length) +
    (2 + size (.integer .integer req.reqId) + size (.integer .integer (req.err.signExtend 64)) +
      size (.integer .integer (req.errIdx.signExtend 64)) +
      (2 + (req.oids.map fun oid =>
        2 + (2 + (oidBytes oid).length + size (foundElement env data oid))).sum))

theorem sizes_eq_sum (es : List Elem) : sizes es = (es.map size).sum := by
  induction es with
  | nil => rfl
  | cons e es ih => rw [sizes, ih, List.map_cons, List.sum_cons]

theorem size_replyElem (env : Env) (data : List Node) (req : OidReq) :
    size (replyElem env data req) = 2 + replyRoom env data req := by
  have hvarbinds : sizes (req.oids.map (varbind env data)) = (req.oids.map fun oid =>
      2 + (2 + (oidBytes oid).length + size (foundElement env data oid))).sum := by
    rw [sizes_eq_sum, List.map_map]
    rfl
  simp only [replyElem, getResponsePdu, size, sizes, hvarbinds, replyRoom]
  omega

theorem encodesAsBer_iff (env : Env) (data : List Node) (req : OidReq)
    (h : 2 + replyRoom env data req ≤ 255) :
    EncodesAsBer (replyElem env data req) (genReply env data req) ↔
      replyRoom env data req < 128 := by
  have hsize := size_replyElem env data req
  have hlen := content_length (replyElem env data req)
  have hbytes : genReply env data req = ber (replyElem env data req) :=
    payloadBytes_eq (by omega)
  rw [hbytes]
  constructor
  · intro hber
    by_contra hlong
    have hinfix := (hber _ Part.self rfl).length_le
    rw [tlv_long (by omega) (by omega), ber_length, List.length_cons, List.length_cons,
      List.length_cons] at hinfix
    omega
  · intro hshort e hpart _
    have hinfix := hpart.ber_infix
    have hle := hinfix.length_le
    have he := content_length e
    rw [ber_length, ber_length] at hle
    rw [tlv_short (by omega)]
    exact hinfix

/-- What the agent sends is encoded by the rules, and what it gets is read by them, exactly if the
lengths fit into one octet and, for a request, if its numbers and names are in range. -/
theorem speaks_ber_iff (env : Env) (data : List Node) (req : OidReq) (m : GetRequest)
    (hreply : 2 + replyRoom env data req ≤ 255) (hrequest : m.octets.length ≤ 255)
    (hversion : isPduType (BitVec.ofNat 8 m.content.length) → octetCount m.version ≠ 2) :
    (EncodesAsBer (replyElem env data req) (genReply env data req) ↔
        replyRoom env data req < 128) ∧
      (Extracts data m ↔ m.Readable) :=
  ⟨encodesAsBer_iff env data req hreply, extracts_iff data hrequest hversion⟩

namespace Sample

/-- The description of the system, `1.3.6.1.2.1.1.1.0`. -/
def sysDescr : ObjectId := ⟨1, 3, [6, 1, 2, 1, 1, 1, 0], by decide⟩

/-- A GET request of version 1 for the description, `count` times. -/
def getRequest (count : ℕ) : GetRequest where
  version := 0
  community := publicCommunity
  requestId := 0x12345678
  errorStatus := 0
  errorIndex := 0
  names := List.replicate count sysDescr

/-- What such a request is read as. -/
def oidReq (count : ℕ) : OidReq where
  oids := List.replicate count (render sysDescr.arcs)
  reqId := 0x12345678
  err := 0
  errIdx := 0
  version := 0
  community := publicCommunity

end Sample

theorem speaks_ber_one_name :
    EncodesAsBer (replyElem ⟨fun _ => 0, 0⟩ [] (Sample.oidReq 1))
        (genReply ⟨fun _ => 0, 0⟩ [] (Sample.oidReq 1)) ∧
      Extracts [] (Sample.getRequest 1) := by
  have h := speaks_ber_iff ⟨fun _ => 0, 0⟩ [] (Sample.oidReq 1) (Sample.getRequest 1) (by decide)
    (by decide) (by decide)
  refine ⟨h.1.mpr (by decide), h.2.mpr ⟨by decide, ?_, by decide, ?_⟩⟩
  · norm_num [VersionFits, Sample.getRequest]
  · simp [NameFits, Sample.getRequest, Sample.sysDescr]

/-- Eight names make both a request and its reply too long. -/
theorem speaks_ber_fails_eight_names :
    (Sample.getRequest 8).octets.length ≤ 255 ∧ ¬Extracts [] (Sample.getRequest 8) ∧
      2 + replyRoom ⟨fun _ => 0, 0⟩ [] (Sample.oidReq 8) ≤ 255 ∧
      ¬EncodesAsBer (replyElem ⟨fun _ => 0, 0⟩ [] (Sample.oidReq 8))
        (genReply ⟨fun _ => 0, 0⟩ [] (Sample.oidReq 8)) := by
  refine ⟨by decide +kernel, ?_, by decide, ?_⟩
  · rw [extracts_iff [] (by decide +kernel) (by decide +kernel)]
    intro h
    exact absurd h.short (by decide +kernel)
  · rw [encodesAsBer_iff _ _ _ (by decide)]
    decide

end MyIp.Snmp
