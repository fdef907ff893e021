import MyIp.Foundations.Ber
import MyIp.Snmp.Reply

/-! # SNMP requests

`snmp::process_BER` and `snmp::process_PDU` read a request; every length is taken to be one octet. A
pointer is the list of the bytes from it to the end of the packet. No result is what the code leaves
undefined: a byte behind the packet is read, or `find_next_oid` does not come back. A result is what
the function returns together with the request as filled in so far. -/

namespace MyIp.Snmp
set_option autoImplicit false

open Bytes CText Net

/-- The `len` bytes from a pointer on. -/
def bytesAt (p : List Byte) (len : ℕ) : Option (List Byte) :=
  if len ≤ p.length then some (p.take len) else none

/-- Goes on if the code has not returned `false`. -/
def andThen (result : Option (Bool × OidReq)) (next : OidReq → Option (Bool × OidReq)) :
    Option (Bool × OidReq) :=
  match result with
  | some (true, req) => next req
  | other => other

/-- The object identifier whose body is `body` is added to the request, or with GETNEXT the one
after it. -/
def takeOid (data : List Node) (isGetnext : Bool) (body : List Byte) (req : OidReq) :
    Option (Bool × OidReq) :=
  let (ok, oidOut) := getOid body
  if !ok then some (false, req)
  else if isGetnext then
    match findNextOid data oidOut with
    | none => none
    | some [] => some (true, { req with err := 2, errIdx := 1 })
    | some oidNext => some (true, { req with oids := req.oids ++ [oidNext] })
  else some (true, { req with oids := req.oids ++ [oidOut] })

/-- An integer of `process_PDU`: its value and the pointer behind it, or nothing if the function
returns `false` here. The length `len` of the whole PDU is never adapted to the pointer. -/
def pduInteger (p : List Byte) (len : ℕ) : Option (Option (BitVec 64 × List Byte)) :=
  if len < 2 then some none
  else
    match p with
    | pduType :: pduLength :: p =>
      if pduType ≠ 0x02 then some none
      else
        (bytesAt p pduLength.toNat).map fun body =>
          some (getInteger body, p.drop pduLength.toNat)
    | _ => none

/-- The three integers of `process_PDU`, of which only the first is kept. -/
def pduHead (p : List Byte) (len : ℕ) (req : OidReq) : Option (Option (List Byte) × OidReq) :=
  match pduInteger p len with
  | none => none
  | some none => some (none, req)
  | some (some (reqId, p)) =>
    let req := { req with reqId := reqId }
    match pduInteger p len with
    | none => none
    | some none => some (none, req)
    | some (some (_, p)) =>
      match pduInteger p len with
      | none => none
      | some none => some (none, req)
      | some (some (_, p)) => some (some p, req)

theorem pduInteger_length {p p' : List Byte} {len : ℕ} {v : BitVec 64}
    (h : pduInteger p len = some (some (v, p'))) : p'.length < p.length := by
  unfold pduInteger at h
  split at h
  · cases h
  · split at h
    · rename_i pduType pduLength p
      split at h
      · cases h
      · obtain ⟨body, -, hbody⟩ := Option.map_eq_some_iff.mp h
        simp only [Option.some.injEq, Prod.mk.injEq] at hbody
        rw [← hbody.2, List.length_drop, List.length_cons, List.length_cons]
        omega
    · cases h

theorem pduHead_length {p p' : List Byte} {len : ℕ} {req req' : OidReq}
    (h : pduHead p len req = some (some p', req')) : p'.length < p.length := by
  rw [pduHead] at h
  split at h
  · cases h
  · cases h
  · rename_i reqId p₁ h₁
    dsimp only at h
    split at h
    · cases h
    · cases h
    · rename_i err p₂ h₂
      split at h
      · cases h
      · cases h
      · rename_i errIdx p₃ h₃
        simp only [Option.some.injEq, Prod.mk.injEq] at h
        rw [← h.1]
        exact (pduInteger_length h₃).trans ((pduInteger_length h₂).trans (pduInteger_length h₁))

mutual

/-- `process_BER` -/
def processBer (data : List Node) (isGetnext : Bool) (isTop : ℤ) (p : List Byte) (len : ℕ)
    (req : OidReq) : Option (Bool × OidReq) :=
  if len < 2 then some (false, req) else berLoop data isGetnext isTop p len true true req
termination_by (p.length, 1)

/-- The loop of `process_BER`, which has `left` bytes to go. -/
def berLoop (data : List Node) (isGetnext : Bool) (isTop : ℤ) (p : List Byte) (left : ℕ)
    (firstInteger firstOctetStr : Bool) (req : OidReq) : Option (Bool × OidReq) :=
  if left = 0 then some (true, req)
  else
    match p with
    | type :: length :: pnt =>
      if left < length.toNat + 2 then some (false, req)
      else
        andThen (berElement data isGetnext isTop type pnt length.toNat firstInteger firstOctetStr
          req)
          fun req => berLoop data isGetnext isTop (pnt.drop length.toNat)
            (left - (length.toNat + 2)) (firstInteger && type != 0x02)
            (firstOctetStr && type != 0x04) req
    | _ => none
termination_by (p.length, 0)

/-- What the loop does with an element of the given type that has `length` bytes of content. -/
def berElement (data : List Node) (isGetnext : Bool) (isTop : ℤ) (type : Byte) (pnt : List Byte)
    (length : ℕ) (firstInteger firstOctetStr : Bool) (req : OidReq) : Option (Bool × OidReq) :=
  if type = 0x02 then
    if isTop ≠ 0 ∧ firstInteger then
      (bytesAt pnt length).map fun body =>
        (true, { req with version := (getInteger body).setWidth 32 })
    else some (true, req)
  else if type = 0x04 then
    if isTop ≠ 0 ∧ firstOctetStr then
      (bytesAt pnt length).map fun body => (true, { req with community := body })
    else some (true, req)
  else if type = 0x05 then some (true, req)
  else if type = 0x06 then
    (bytesAt pnt length).bind fun body => takeOid data isGetnext body req
  else if type = 0x30 then processBer data isGetnext (isTop - 1) pnt length req
  else if type = 0xa0 then processPdu data isGetnext pnt length req
  else if type = 0xa1 then processPdu data true pnt length req
  else if type = 0xa3 then processPdu data isGetnext pnt length req
  else some (false, req)
termination_by (pnt.length, 2)

/-- `process_PDU` -/
def processPdu (data : List Node) (isGetnext : Bool) (p : List Byte) (len : ℕ) (req : OidReq) :
    Option (Bool × OidReq) :=
  match _h : pduHead p len req with
  | none => none
  | some (none, req) => some (false, req)
  | some (some (typeVbList :: p), req) =>
    if typeVbList ≠ 0x30 then some (false, req)
    else
      match p with
      | lenVbList :: p => varbindLoop data isGetnext p lenVbList.toNat req
      | [] => none
  | some (some [], _) => none
termination_by (p.length, 0)
decreasing_by
  have h := pduHead_length _h
  simp only [List.length_cons] at h
  exact Prod.Lex.left _ _ (by omega)

/-- The loop over the varbinds. What `process_BER` returns for one of them is not looked at. -/
def varbindLoop (data : List Node) (isGetnext : Bool) (p : List Byte) (left : ℕ) (req : OidReq) :
    Option (Bool × OidReq) :=
  if left = 0 then some (true, req)
  else
    match p with
    | seqType :: seqLength :: pnt =>
      if left < seqLength.toNat + 2 then some (false, req)
      else if seqType = 0x30 then
        (processBer data isGetnext 0 pnt seqLength.toNat req).bind fun r =>
          varbindLoop data isGetnext (pnt.drop seqLength.toNat) (left - (seqLength.toNat + 2)) r.2
      else some (false, req)
    | _ => none
termination_by (p.length, 0)

end

/-! ## Requests as a manager sends them -/

open Ber

/-- A GET request as a value. -/
structure GetRequest where
  version : ℤ
  community : List Byte
  requestId : ℤ
  errorStatus : ℤ
  errorIndex : ℤ
  names : List ObjectId

/-- A name with the value that a request has for it. -/
def nameOctets (o : ObjectId) : List Byte := tlv 0x30 (tlv 0x06 o.octets ++ tlv 0x05 [])

namespace GetRequest

def pdu (m : GetRequest) : List Byte :=
  tlv 0x02 (integerOctets m.requestId) ++ tlv 0x02 (integerOctets m.errorStatus) ++
    tlv 0x02 (integerOctets m.errorIndex) ++ tlv 0x30 (m.names.flatMap nameOctets)

def content (m : GetRequest) : List Byte :=
  tlv 0x02 (integerOctets m.version) ++ tlv 0x04 m.community ++ tlv 0xa0 m.pdu

/-- The request as it is encoded by the basic encoding rules. -/
def octets (m : GetRequest) : List Byte := tlv 0x30 m.content

end GetRequest

/-- `oid_req_t` as it is constructed. -/
def OidReq.new : OidReq where
  oids := []
  reqId := 0
  err := 0
  errIdx := 0
  version := 0
  community := []

/-- The request is accepted and read as it is meant. -/
def Extracts (data : List Node) (m : GetRequest) : Prop :=
  ∃ req, processBer data false 2 m.octets m.octets.length OidReq.new = some (true, req) ∧
    req.version.toInt = m.version ∧ req.community = m.community ∧
    (req.reqId.toNat : ℤ) = m.requestId ∧ req.oids = m.names.map fun o => render o.arcs

/-! ## Elements with a short length -/

theorem toNat_length_short {content : List Byte} (h : content.length < 128) :
    (BitVec.ofNat 8 content.length).toNat = content.length :=
  toNat_ofNat_of_lt (by omega)

theorem bytesAt_append (content rest : List Byte) :
    bytesAt (content ++ rest) content.length = some content := by
  rw [bytesAt, if_pos (by rw [List.length_append]; omega), List.take_left]

/-- One turn of the loop. -/
theorem berLoop_tlv (data : List Node) (isGetnext : Bool) (isTop : ℤ) (type : Byte)
    {content : List Byte} (h : content.length < 128) (rest : List Byte) (left : ℕ)
    (firstInteger firstOctetStr : Bool) (req : OidReq) :
    berLoop data isGetnext isTop (tlv type content ++ rest) ((tlv type content).length + left)
        firstInteger firstOctetStr req =
      andThen (berElement data isGetnext isTop type (content ++ rest) content.length firstInteger
        firstOctetStr req)
        fun req => berLoop data isGetnext isTop rest left (firstInteger && type != 0x02)
          (firstOctetStr && type != 0x04) req := by
  rw [tlv_length_short h, tlv_short h, List.cons_append, List.cons_append, berLoop,
    toNat_length_short h, if_neg (by omega), if_neg (by omega), List.drop_left,
    show content.length + 2 + left - (content.length + 2) = left by omega]

theorem berLoop_done (data : List Node) (isGetnext : Bool) (isTop : ℤ) (p : List Byte)
    (firstInteger firstOctetStr : Bool) (req : OidReq) :
    berLoop data isGetnext isTop p 0 firstInteger firstOctetStr req = some (true, req) := by
  unfold berLoop
  exact if_pos rfl

/-- The turn for an element at the end of the packet. -/
theorem berLoop_last (data : List Node) (isGetnext : Bool) (isTop : ℤ) (type : Byte)
    {content : List Byte} (h : content.length < 128) (firstInteger firstOctetStr : Bool)
    (req : OidReq) :
    berLoop data isGetnext isTop (tlv type content) (tlv type content).length firstInteger
        firstOctetStr req =
      andThen (berElement data isGetnext isTop type content content.length firstInteger
        firstOctetStr req) fun req => some (true, req) := by
  have hturn := berLoop_tlv data isGetnext isTop type h [] 0 firstInteger firstOctetStr req
  simp only [berLoop_done, List.append_nil, Nat.add_zero] at hturn
  exact hturn

theorem pduInteger_tlv {content : List Byte} (h : content.length < 128) (rest : List Byte) {len : ℕ}
    (hlen : 2 ≤ len) :
    pduInteger (tlv 0x02 content ++ rest) len = some (some (getInteger content, rest)) := by
  rw [tlv_short h, List.cons_append, List.cons_append, pduInteger, if_neg (by omega),
    if_neg (by simp), toNat_length_short h, bytesAt_append, List.drop_left, Option.map_some]

theorem wellFormed_octets (o : ObjectId) : Base128.WellFormed o.octets :=
  Base128.wellFormed_flatMap_encode _

/-- The first octet is that of `1.3` only for identifiers that begin so. -/
theorem octets_head (o : ObjectId) :
    o.octets.head? = some 43 ↔ o.first = 1 ∧ o.second = 3 := by
  have hvalid := o.valid
  have harcs := Base128.arcs_flatMap_encode ((40 * o.first + o.second) :: o.rest)
  constructor
  · intro h
    obtain ⟨rest, hrest⟩ : ∃ rest, o.octets = 43 :: rest := List.head?_eq_some_iff.mp h
    rw [ObjectId.octets] at hrest
    rw [hrest, Base128.arcs, if_pos (by decide)] at harcs
    have hsum : 0 * 128 + (43 : Byte).toNat = 40 * o.first + o.second := (List.cons.inj harcs).1
    have h43 : (43 : Byte).toNat = 43 := rfl
    omega
  · rintro ⟨hfirst, hsecond⟩
    rw [ObjectId.octets, hfirst, hsecond]
    rfl

theorem octets_13 {o : ObjectId} (h : o.first = 1 ∧ o.second = 3) :
    o.octets = 43 :: o.rest.flatMap Base128.encode := by
  rw [ObjectId.octets, h.1, h.2]
  rfl

theorem getOid_octets (o : ObjectId) : getOid o.octets = (true, (getOid o.octets).2) := by
  by_cases h : o.octets.head? = some 43
  · rw [octets_13 ((octets_head o).mp h), getOid_cons_43 (Base128.wellFormed_flatMap_encode _)]
  · rw [getOid_eq (wellFormed_octets o) h]

section Elements
variable (data : List Node) (isTop : ℤ) (content rest : List Byte) (req : OidReq)

theorem berElement_version (firstOctetStr : Bool) (h : isTop ≠ 0) :
    berElement data false isTop 0x02 (content ++ rest) content.length true firstOctetStr req =
      some (true, { req with version := (getInteger content).setWidth 32 }) := by
  rw [berElement, if_pos rfl, if_pos ⟨h, rfl⟩, bytesAt_append, Option.map_some]

theorem berElement_community (firstInteger : Bool) (h : isTop ≠ 0) :
    berElement data false isTop 0x04 (content ++ rest) content.length firstInteger true req =
      some (true, { req with community := content }) := by
  rw [berElement, if_neg (by decide), if_pos rfl, if_pos ⟨h, rfl⟩, bytesAt_append, Option.map_some]

theorem berElement_null (pnt : List Byte) (length : ℕ) (firstInteger firstOctetStr : Bool) :
    berElement data false isTop 0x05 pnt length firstInteger firstOctetStr req =
      some (true, req) := by
  rw [berElement, if_neg (by decide), if_neg (by decide), if_pos rfl]

theorem berElement_oid (o : ObjectId) (firstInteger firstOctetStr : Bool) :
    berElement data false isTop 0x06 (o.octets ++ rest) o.octets.length firstInteger firstOctetStr
        req =
      some (true, { req with oids := req.oids ++ [(getOid o.octets).2] }) := by
  rw [berElement, if_neg (by decide), if_neg (by decide), if_neg (by decide), if_pos rfl,
    bytesAt_append, Option.bind_some, takeOid, getOid_octets]
  rfl

theorem berElement_sequence (pnt : List Byte) (length : ℕ) (firstInteger firstOctetStr : Bool) :
    berElement data false isTop 0x30 pnt length firstInteger firstOctetStr req =
      processBer data false (isTop - 1) pnt length req := by
  rw [berElement, if_neg (by decide), if_neg (by decide), if_neg (by decide), if_neg (by decide),
    if_pos rfl]

theorem berElement_getRequest (pnt : List Byte) (length : ℕ) (firstInteger firstOctetStr : Bool) :
    berElement data false isTop 0xa0 pnt length firstInteger firstOctetStr req =
      processPdu data false pnt length req := by
  rw [berElement, if_neg (by decide), if_neg (by decide), if_neg (by decide), if_neg (by decide),
    if_neg (by decide), if_pos rfl]

end Elements

@[simp] theorem andThen_true (req : OidReq) (next : OidReq → Option (Bool × OidReq)) :
    andThen (some (true, req)) next = next req := rfl

/-! ## Requests of less than 128 bytes of content -/

/-- The request with the texts of the names added. -/
def OidReq.addNames (req : OidReq) (names : List ObjectId) : OidReq :=
  { req with oids := req.oids ++ names.map fun o => (getOid o.octets).2 }

theorem processBer_name (data : List Node) {o : ObjectId}
    (h : (tlv 0x06 o.octets ++ tlv 0x05 []).length < 128) (rest : List Byte) (req : OidReq) :
    processBer data false 0 (tlv 0x06 o.octets ++ tlv 0x05 [] ++ rest)
        (tlv 0x06 o.octets ++ tlv 0x05 []).length req =
      some (true, req.addNames [o]) := by
  have hoid := content_length_lt_tlv 0x06 o.octets
  rw [List.length_append] at h ⊢
  rw [processBer, if_neg (by omega), List.append_assoc,
    berLoop_tlv data false 0 0x06 (by omega), berElement_oid, andThen_true,
    ← Nat.add_zero (tlv 0x05 []).length, berLoop_tlv data false 0 0x05 (by decide),
    berElement_null, andThen_true, berLoop_done]
  rfl

theorem varbindLoop_names (data : List Node) {names : List ObjectId}
    (h : (names.flatMap nameOctets).length < 128) (req : OidReq) :
    varbindLoop data false (names.flatMap nameOctets) (names.flatMap nameOctets).length req =
      some (true, req.addNames names) := by
  induction names generalizing req with
  | nil =>
    unfold varbindLoop
    simp [OidReq.addNames]
  | cons o names ih =>
    rw [List.flatMap_cons, List.length_append] at h ⊢
    have hname := content_length_lt_tlv 0x30 (tlv 0x06 o.octets ++ tlv 0x05 [])
    have hname' : (tlv 0x06 o.octets ++ tlv 0x05 []).length + 2 ≤ (nameOctets o).length := hname
    have hshort : (tlv 0x06 o.octets ++ tlv 0x05 []).length < 128 := by omega
    rw [nameOctets, tlv_length_short hshort, tlv_short hshort, List.cons_append, List.cons_append,
      varbindLoop, toNat_length_short hshort, if_neg (by omega), if_neg (by omega), if_pos rfl,
      processBer_name data hshort, Option.bind_some, List.drop_left, Nat.add_sub_cancel_left,
      ih (by omega)]
    simp [OidReq.addNames]

theorem pduHead_pdu {m : GetRequest} (h : m.pdu.length < 128) (req : OidReq) :
    pduHead m.pdu m.pdu.length req =
      some (some (tlv 0x30 (m.names.flatMap nameOctets)),
        { req with reqId := getInteger (integerOctets m.requestId) }) := by
  have hid := content_length_lt_tlv 0x02 (integerOctets m.requestId)
  have hstatus := content_length_lt_tlv 0x02 (integerOctets m.errorStatus)
  have hindex := content_length_lt_tlv 0x02 (integerOctets m.errorIndex)
  have hlen : m.pdu.length = (tlv 0x02 (integerOctets m.requestId)).length +
      (tlv 0x02 (integerOctets m.errorStatus)).length +
      (tlv 0x02 (integerOctets m.errorIndex)).length +
      (tlv 0x30 (m.names.flatMap nameOctets)).length := by
    simp only [GetRequest.pdu, List.length_append]
  generalize m.pdu.length = len at h hlen ⊢
  rw [GetRequest.pdu, List.append_assoc, List.append_assoc, pduHead,
    pduInteger_tlv (by omega) _ (by omega)]
  dsimp only
  rw [pduInteger_tlv (by omega) _ (by omega)]
  dsimp only
  rw [pduInteger_tlv (by omega) _ (by omega)]

theorem processPdu_of_head {data : List Node} {isGetnext : Bool} {p vb : List Byte} {len : ℕ}
    {req req' : OidReq} {lenVbList : Byte}
    (h : pduHead p len req = some (some (0x30 :: lenVbList :: vb), req')) :
    processPdu data isGetnext p len req = varbindLoop data isGetnext vb lenVbList.toNat req' := by
  rw [processPdu]
  split
  · rename_i hnone
    rw [h] at hnone
    cases hnone
  · rename_i hnone
    rw [h] at hnone
    cases hnone
  · rename_i typeVbList rest req'' hsome
    rw [h] at hsome
    simp only [Option.some.injEq, Prod.mk.injEq, List.cons.injEq] at hsome
    obtain ⟨⟨rfl, rfl⟩, rfl⟩ := hsome
    rw [if_neg (by simp)]
  · rename_i hnil
    rw [h] at hnil
    simp at hnil

theorem processPdu_of_none {data : List Node} {isGetnext : Bool} {p : List Byte} {len : ℕ}
    {req req' : OidReq} (h : pduHead p len req = some (none, req')) :
    processPdu data isGetnext p len req = some (false, req') := by
  rw [processPdu]
  split
  · rename_i hnone
    rw [h] at hnone
    cases hnone
  · rename_i hnone
    rw [h] at hnone
    simp only [Option.some.injEq, Prod.mk.injEq, true_and] at hnone
    rw [hnone]
  · rename_i hsome
    rw [h] at hsome
    simp at hsome
  · rename_i hnil
    rw [h] at hnil
    simp at hnil

theorem processPdu_pdu (data : List Node) {m : GetRequest} (h : m.pdu.length < 128) (req : OidReq) :
    processPdu data false m.pdu m.pdu.length req =
      some (true,
        { req with reqId := getInteger (integerOctets m.requestId) }.addNames m.names) := by
  have hlist := content_length_lt_tlv 0x30 (m.names.flatMap nameOctets)
  have hshort : (m.names.flatMap nameOctets).length < 128 := by
    simp only [GetRequest.pdu, List.length_append] at h
    omega
  have hhead := pduHead_pdu h req
  rw [tlv_short hshort] at hhead
  rw [processPdu_of_head hhead, toNat_length_short hshort, varbindLoop_names data hshort]

/-- What is extracted from a message with a short length. -/
def GetRequest.extracted (m : GetRequest) : OidReq where
  oids := m.names.map fun o => (getOid o.octets).2
  reqId := getInteger (integerOctets m.requestId)
  err := 0
  errIdx := 0
  version := (getInteger (integerOctets m.version)).setWidth 32
  community := m.community

theorem processBer_content (data : List Node) {m : GetRequest} (h : m.content.length < 128) :
    processBer data false 1 m.content m.content.length OidReq.new = some (true, m.extracted) := by
  have hversion := content_length_lt_tlv 0x02 (integerOctets m.version)
  have hcommunity := content_length_lt_tlv 0x04 m.community
  have hpdu := content_length_lt_tlv 0xa0 m.pdu
  have hlen : m.content.length = (tlv 0x02 (integerOctets m.version)).length +
      ((tlv 0x04 m.community).length + (tlv 0xa0 m.pdu).length) := by
    simp only [GetRequest.content, List.length_append]
    omega
  have hfirst : (true && (0x02 : Byte) != 0x04) = true := rfl
  rw [processBer, if_neg (by omega), hlen, GetRequest.content, List.append_assoc,
    berLoop_tlv data false 1 0x02 (by omega), berElement_version data 1 _ _ _ _ one_ne_zero,
    andThen_true, berLoop_tlv data false 1 0x04 (by omega), hfirst,
    berElement_community data 1 _ _ _ _ one_ne_zero, andThen_true,
    berLoop_last data false 1 0xa0 (by omega), berElement_getRequest,
    processPdu_pdu data (by omega), andThen_true]
  rfl

theorem processBer_short (data : List Node) {m : GetRequest} (h : m.content.length < 128) :
    processBer data false 2 m.octets m.octets.length OidReq.new = some (true, m.extracted) := by
  have hlen := tlv_length_short h 0x30
  rw [GetRequest.octets, processBer, if_neg (by omega), berLoop_last data false 2 0x30 h,
    berElement_sequence, show (2 : ℤ) - 1 = 1 from rfl, processBer_content data h, andThen_true]

/-! ## Numbers -/

theorem shift_or_byte (x : BitVec 64) (b : Byte) :
    (x <<< 8) ||| b.setWidth 64 = x * 256 + b.setWidth 64 := by
  apply BitVec.eq_of_toNat_eq
  have hb := b.isLt
  have hmul : x.toNat * 2 ^ 8 % 2 ^ 64 = 2 ^ 8 * (x.toNat % 2 ^ 56) := by omega
  have h256 : (256 : BitVec 64).toNat = 256 := rfl
  rw [BitVec.toNat_or, BitVec.toNat_shiftLeft, Nat.shiftLeft_eq, hmul, BitVec.toNat_setWidth,
    Nat.mod_eq_of_lt (show b.toNat < 2 ^ 64 by omega), ← Nat.two_pow_add_eq_or_of_lt hb,
    BitVec.toNat_add, BitVec.toNat_mul, BitVec.toNat_setWidth, h256]
  omega

theorem emod_mul_base (v : ℤ) {m : ℤ} (hm : 0 < m) :
    v % (m * 256) = v / 256 % m * 256 + v % 256 := by
  have hlow := Int.emod_add_mul_ediv v 256
  have hhigh := Int.emod_add_mul_ediv (v / 256) m
  have hv : v = v / 256 % m * 256 + v % 256 + m * 256 * (v / 256 / m) := by
    linear_combination -hlow - 256 * hhigh
  have hlt := Int.emod_lt_of_pos (v / 256) hm
  have hnonneg := Int.emod_nonneg (v / 256) hm.ne'
  conv_lhs => rw [hv]
  rw [Int.add_mul_emod_self_left]
  exact Int.emod_eq_of_lt (by omega) (by omega)

theorem getInteger_twosComplement (k : ℕ) (v : ℤ) :
    getInteger (twosComplement k v) = BitVec.ofInt 64 (v % 256 ^ k) := by
  induction k generalizing v with
  | zero => simp [twosComplement, getInteger]
  | succ k ih =>
    have hbyte : (BitVec.ofInt 8 v).setWidth 64 = BitVec.ofInt 64 (v % 256) := by
      apply BitVec.eq_of_toNat_eq
      rw [BitVec.toNat_setWidth, BitVec.toNat_ofInt, BitVec.toNat_ofInt]
      omega
    have hsplit := emod_mul_base v (show (0 : ℤ) < 256 ^ k by positivity)
    rw [← pow_succ] at hsplit
    rw [twosComplement, getInteger_snoc, ih, shift_or_byte, hbyte, hsplit, BitVec.ofInt_add,
      BitVec.ofInt_mul]
    rfl

theorem getInteger_integerOctets (v : ℤ) :
    getInteger (integerOctets v) = BitVec.ofInt 64 (v % 256 ^ octetCount v) :=
  getInteger_twosComplement _ v

theorem reqId_extracted_iff (v : ℤ) :
    ((getInteger (integerOctets v)).toNat : ℤ) = v ↔ 0 ≤ v ∧ v < 2 ^ 64 := by
  constructor
  · intro h
    have hlt := (getInteger (integerOctets v)).isLt
    omega
  · rintro ⟨hnonneg, hlt⟩
    rw [getInteger_integerOctets, emod_octets_of_nonneg hnonneg, BitVec.toNat_ofInt]
    omega

/-- The integers that come back when their octets are read without a sign and cut to an `int`: those
that are not negative, and negative ones of four octets. -/
def VersionFits (v : ℤ) : Prop := -2 ^ 31 ≤ v ∧ v < 2 ^ 31 ∧ (0 ≤ v ∨ v < -2 ^ 23)

theorem setWidth_ofInt (x : ℤ) : (BitVec.ofInt 64 x).setWidth 32 = BitVec.ofInt 32 x := by
  apply BitVec.eq_of_toNat_eq
  rw [BitVec.toNat_setWidth, BitVec.toNat_ofInt, BitVec.toNat_ofInt]
  omega

theorem version_extracted_iff (v : ℤ) :
    ((getInteger (integerOctets v)).setWidth 32).toInt = v ↔ VersionFits v := by
  rw [getInteger_integerOctets, setWidth_ofInt, BitVec.toInt_ofInt, VersionFits]
  by_cases hnonneg : 0 ≤ v
  · rw [emod_octets_of_nonneg hnonneg, Int.bmod_def]
    omega
  · have hmag := magnitude_of_neg (not_le.mp hnonneg)
    have hcount := le_octetCount_iff (v := v) (k := 2)
    by_cases hfour : 2 + 2 ≤ octetCount v
    -- only the lower 32 bits count, which are those of the number itself
    · have hdvd : (2 ^ 32 : ℤ) ∣ 256 ^ octetCount v := by
        rw [show (2 ^ 32 : ℤ) = 256 ^ 4 from rfl]
        exact pow_dvd_pow 256 hfour
      have hbmod : (v % 256 ^ octetCount v).bmod (2 ^ 32) = v.bmod (2 ^ 32) := by
        rw [Int.bmod_def, Int.bmod_def]
        have hmod := Int.emod_emod_of_dvd v hdvd
        omega
      have hbig := hcount.mp hfour
      rw [hbmod, Int.bmod_def]
      omega
    · have hsmall : magnitude v < 2 ^ (8 * 2 + 7) := not_le.mp fun h => hfour (hcount.mpr h)
      have hpow : (256 : ℤ) ^ octetCount v ≤ 256 ^ 3 :=
        pow_le_pow_right₀ (by norm_num) (by omega)
      have hpos : (0 : ℤ) < 256 ^ octetCount v := by positivity
      have hlow := Int.emod_nonneg v hpos.ne'
      have hhigh := Int.emod_lt_of_pos v hpos
      rw [Int.bmod_def]
      omega

/-! ## Names -/

theorem formatD_eq_decimal_iff (a : ℕ) : formatD (BitVec.ofNat 32 a) = decimal a ↔ a < 2 ^ 31 := by
  constructor
  · intro h
    have hhi := BitVec.toInt_lt (x := BitVec.ofNat 32 a)
    rw [formatD] at h
    split at h
    · have hminus : '-' ∈ decimal a := h ▸ List.mem_cons_self
      exact absurd (isDigit_of_mem_decimal hminus) (by decide)
    · have hval := decimal_injective h
      omega
  · exact formatD_ofNat

theorem text_13 (as : List ℕ) :
    ['1', '.', '3'] ++ as.flatMap dotArc =
      dotted (decimal 1 :: decimal 3 :: as.map fun a => formatD (BitVec.ofNat 32 a)) := by
  cases as with
  | nil => rfl
  | cons a as =>
    rw [flatMap_dotArc (by simp), printArcs]
    rfl

theorem text_13_eq_render_iff (as : List ℕ) :
    ['1', '.', '3'] ++ as.flatMap dotArc = render (1 :: 3 :: as) ↔ ∀ a ∈ as, a < 2 ^ 31 := by
  rw [text_13]
  constructor
  · intro h
    have hparts : ∀ t ∈ decimal 1 :: decimal 3 :: as.map (fun a => formatD (BitVec.ofNat 32 a)),
        t ≠ [] ∧ '.' ∉ t := by
      intro t ht
      simp only [List.mem_cons, List.mem_map] at ht
      rcases ht with rfl | rfl | ⟨a, -, rfl⟩
      · exact ⟨decimal_ne_nil 1, dot_not_mem_decimal 1⟩
      · exact ⟨decimal_ne_nil 3, dot_not_mem_decimal 3⟩
      · exact ⟨formatD_ne_nil _, dot_not_mem_formatD _⟩
    have hsplit := split_dotted hparts
    rw [h, split_render] at hsplit
    have htail := (List.cons.inj (List.cons.inj hsplit.symm).2).2
    intro a ha
    exact (formatD_eq_decimal_iff a).mp (List.map_inj_left.mp htail a ha)
  · intro h
    rw [render, List.map_cons, List.map_cons,
      List.map_congr_left fun a ha => (formatD_eq_decimal_iff a).mpr (h a ha)]

/-- A name comes out as its text exactly if it begins with `1.3` and its other arcs fit into 31
bits. -/
theorem name_extracted_iff (o : ObjectId) :
    (getOid o.octets).2 = render o.arcs ↔
      o.first = 1 ∧ o.second = 3 ∧ ∀ a ∈ o.rest, a < 2 ^ 31 := by
  by_cases h : o.first = 1 ∧ o.second = 3
  · rw [octets_13 h, getOid_cons_43 (Base128.wellFormed_flatMap_encode _),
      Base128.arcs_flatMap_encode, ObjectId.arcs, h.1, h.2, text_13_eq_render_iff]
    simp
  · have hhead : o.octets.head? ≠ some 43 := fun hh => h ((octets_head o).mp hh)
    have harcs : Base128.arcs 0 o.octets = (40 * o.first + o.second) :: o.rest :=
      Base128.arcs_flatMap_encode _
    refine iff_of_false ?_ fun h' => h ⟨h'.1, h'.2.1⟩
    rw [getOid_eq (wellFormed_octets o) hhead, harcs, flatMap_dotArc (by simp)]
    intro htext
    obtain ⟨c, t, hdec⟩ := List.exists_cons_of_ne_nil (decimal_ne_nil o.first)
    have hdigit := isDigit_of_mem_decimal (n := o.first) (c := c) (by rw [hdec]; simp)
    have hrender : render o.arcs = decimal o.first ++ '.' :: render (o.second :: o.rest) := rfl
    rw [hrender, hdec, List.cons_append] at htext
    obtain rfl := (List.cons.inj htext).1
    exact absurd hdigit (by decide)

end MyIp.Snmp
