import MyIp.Phys.Xcp

/-! # PPP, which frames the receiver gets through

A frame goes through `unwrap_ppp_frame`, `process_incoming_packet` and the handler of its protocol
(`receiveFrame`). Nothing catches the exceptions of `at`, and the raw reads are not checked at all;
`Completes` is a return without them. What a frame must be like for that is said for each function
in terms of what it is given, and for a loop in terms of each option that it comes to
(`optionLoop_completes_iff`). -/

namespace MyIp.Phys.Ppp
open Bytes TurnLoop Framing StateTransition
set_option autoImplicit false

/-! ## The receiver -/

def Outcome.bind {α β : Type} (o : Outcome α) (f : α → Outcome β) : Outcome β :=
  match o with
  | returns a outside =>
    match f a with
    | returns b outside' => returns b (outside || outside')
    | throws => throws
    | hangs => hangs
  | throws => throws
  | hangs => hangs

def handleAct (st : Station) (link : Link) : Act → Outcome (Link × List Sent)
  | .handleLcp packetBuffer => handleLcp st link packetBuffer
  | .handleIpcp packetBuffer => handleIpcp st link packetBuffer
  | .handleIpv6cp packetBuffer => handleIpv6cp st link packetBuffer
  | .handleCcp packetBuffer => handleCcp st link packetBuffer
  | .queued _ _ => .returns (link, []) false
  | .wrote _ => .returns (link, []) false

def handleActs (st : Station) (link : Link) (sent : List Sent) :
    List Act → Outcome (Link × List Sent)
  | [] => .returns (link, sent) false
  | a :: acts => (handleAct st link a).bind fun r => handleActs st r.1 (sent ++ r.2) acts

/-- `process_incoming_packet` with what the handlers do. -/
def incomingPacket (st : Station) (link : Link) (packetBuffer : List Byte) :
    Outcome (Link × List Sent) :=
  match processIncomingPacket st.dev link.settings packetBuffer with
  | none => .throws
  | some acts => handleActs st link [] acts

/-- What `operator()` does with the bytes between two flags. -/
def receiveFrame (st : Station) (link : Link) (body : List Byte) : Outcome (Link × List Sent) :=
  match unwrapPppFrame body with
  | none => .throws
  | some packetBuffer => incomingPacket st link packetBuffer

/-- The call returns, without an exception and without a read behind the packet. -/
def Completes {α : Type} (o : Outcome α) : Prop := ∃ a, o = .returns a false

theorem completes_map_iff {α β : Type} (f : α → β) (o : Outcome α) :
    Completes (o.map f) ↔ Completes o := by
  unfold Completes
  cases o <;> simp [Outcome.map]

theorem completes_returns_iff {α : Type} (a : α) (outside : Bool) :
    Completes (.returns a outside) ↔ outside = false := by
  unfold Completes
  simp

theorem not_completes_throws {α : Type} : ¬ Completes (.throws : Outcome α) := by
  unfold Completes
  simp

theorem completes_handleActs_singleton (st : Station) (link : Link) (a : Act) :
    Completes (handleActs st link [] [a]) ↔ Completes (handleAct st link a) := by
  unfold Completes
  rw [handleActs]
  cases handleAct st link a <;> simp [Outcome.bind, handleActs]

/-! ## The option loops -/

section Loop

variable {σ : Type} {logDebug : Bool} {data : List Byte} {body : ℕ → σ → Option (σ × Bool)}
  {fits : ℕ → Prop}

/-- An option is long enough to move on, whole if the log shows it, and good for the body. -/
def OptionFits (logDebug : Bool) (data : List Byte) (fits : ℕ → Prop) (o : ℕ) : Prop :=
  optionLen data o ≠ 0 ∧ (logDebug = true → optionLen data o ≤ data.length - o) ∧
    (optionLen data o ≤ data.length - o → fits o)

/-- When the body gets through is a matter of the place alone. -/
def FitsAt (body : ℕ → σ → Option (σ × Bool)) (fits : ℕ → Prop) : Prop :=
  ∀ o acc, (∃ acc', body o acc = some (acc', false)) ↔ fits o

theorem optionAt_start_iff {start o : ℕ} : OptionAt data never start o ↔
    start < data.length - 2 ∧ (o = start ∨ optionLen data start ≤ data.length - start ∧
      OptionAt data never (start + optionLen data start) o) := by
  rw [optionAt_iff_reaches, optionAt_iff_reaches]
  constructor
  · rintro ⟨hreach, inside⟩
    rcases Relation.ReflTransGen.cases_head hreach with rfl | ⟨next, made, hreach⟩
    · exact ⟨inside, .inl rfl⟩
    · obtain ⟨⟨hstart, whole, -⟩, rfl⟩ := cursorTurn_eq_some_iff.mp made
      exact ⟨hstart, .inr ⟨whole, hreach, inside⟩⟩
  · rintro ⟨hstart, rfl | ⟨whole, hreach, inside⟩⟩
    · exact ⟨Relation.ReflTransGen.refl, hstart⟩
    · exact ⟨hreach.head (cursorTurn_eq_some_iff.mpr ⟨⟨hstart, whole, id⟩, rfl⟩), inside⟩

theorem forall_optionAt_whole_iff {P : ℕ → Prop} {start : ℕ} (inside : start < data.length - 2)
    (whole : optionLen data start ≤ data.length - start) :
    (∀ o, OptionAt data never start o → P o) ↔
      P start ∧ ∀ o, OptionAt data never (start + optionLen data start) o → P o := by
  constructor
  · intro h
    refine ⟨h start (.first inside), fun o ho => h o ?_⟩
    exact optionAt_start_iff.mpr ⟨inside, .inr ⟨whole, ho⟩⟩
  · rintro ⟨hstart, h⟩ o ho
    obtain ⟨-, rfl | ⟨-, ho⟩⟩ := optionAt_start_iff.mp ho
    · exact hstart
    · exact h o ho

theorem forall_optionAt_cut_iff {P : ℕ → Prop} {start : ℕ} (inside : start < data.length - 2)
    (cut : ¬ optionLen data start ≤ data.length - start) :
    (∀ o, OptionAt data never start o → P o) ↔ P start := by
  constructor
  · intro h
    exact h start (.first inside)
  · intro hstart o ho
    obtain ⟨-, rfl | ⟨whole, -⟩⟩ := optionAt_start_iff.mp ho
    · exact hstart
    · exact absurd whole cut

/-- An option of length zero is never left behind. -/
theorem run_of_zero {s : Scan σ} (inside : s.optionsOffset < data.length - 2)
    (hzero : optionLen data s.optionsOffset = 0) (n : ℕ) (r : σ × Bool) :
    run (optionStep logDebug data body) n s ≠ some (some r) := by
  induction n generalizing s with
  | zero => simp [run]
  | succ n ih =>
    cases hbody : body s.optionsOffset s.acc with
    | none =>
      have hstep : optionStep logDebug data body s = .inr none := by
        rw [optionStep, if_pos inside, if_neg (by omega), hbody]
      rw [run_left hstep]
      simp
    | some b =>
      have hstep : optionStep logDebug data body s =
          .inl ⟨s.optionsOffset + 0, b.1, s.outside || b.2⟩ := by
        rw [optionStep, if_pos inside, if_neg (by omega), hbody, hzero]
      rw [run_next hstep]
      exact ih inside hzero

theorem some_outside_iff (b : σ × Bool) :
    (∃ acc, (some b : Option (σ × Bool)) = some (acc, false)) ↔ b.2 = false := by
  constructor
  · rintro ⟨acc, h⟩
    rw [Option.some.inj h]
  · intro h
    exact ⟨b.1, by rw [← h]⟩

/-- From any place on: the loop gets through if and only if it has read nothing behind the packet
so far and every option that it comes to fits. -/
theorem run_completes_iff (h : FitsAt body fits) {n : ℕ} {s : Scan σ}
    (enough : data.length - s.optionsOffset < n) :
    (∃ acc, run (optionStep logDebug data body) n s = some (some (acc, false))) ↔
      s.outside = false ∧
        ∀ o, OptionAt data never s.optionsOffset o → OptionFits logDebug data fits o := by
  induction n generalizing s with
  | zero => omega
  | succ n ih =>
    by_cases inside : s.optionsOffset < data.length - 2
    · by_cases whole : optionLen data s.optionsOffset ≤ data.length - s.optionsOffset
      · rw [forall_optionAt_whole_iff inside whole]
        by_cases hzero : optionLen data s.optionsOffset = 0
        · constructor
          · rintro ⟨acc, hrun⟩
            exact absurd hrun (run_of_zero inside hzero (n + 1) _)
          · rintro ⟨-, hfits, -⟩
            exact absurd hzero hfits.1
        · have hfits : OptionFits logDebug data fits s.optionsOffset ↔ fits s.optionsOffset :=
            ⟨fun hf => hf.2.2 whole, fun hf => ⟨hzero, fun _ => whole, fun _ => hf⟩⟩
          rw [hfits, ← h s.optionsOffset s.acc]
          cases hbody : body s.optionsOffset s.acc with
          | none =>
            have hstep : optionStep logDebug data body s = .inr none := by
              rw [optionStep, if_pos inside, if_neg (by omega), hbody]
            rw [run_left hstep]
            simp
          | some b =>
            have hstep : optionStep logDebug data body s = .inl ⟨s.optionsOffset +
                optionLen data s.optionsOffset, b.1, s.outside || b.2⟩ := by
              rw [optionStep, if_pos inside, if_neg (by omega), hbody]
            rw [run_next hstep, ih (by dsimp only; omega), some_outside_iff, Bool.or_eq_false_iff,
              and_assoc]
      · have hstep : optionStep logDebug data body s =
            .inr (some (s.acc, s.outside || logDebug)) := by
          rw [optionStep, if_pos inside, if_pos (by omega)]
        have hfits : OptionFits logDebug data fits s.optionsOffset ↔ logDebug = false := by
          constructor
          · intro hf
            rw [Bool.eq_false_iff]
            exact fun hlog => whole (hf.2.1 hlog)
          · rintro rfl
            exact ⟨by omega, Bool.noConfusion, fun hwhole => absurd hwhole whole⟩
        rw [run_left hstep, forall_optionAt_cut_iff inside whole, hfits, ← Bool.or_eq_false_iff]
        simp
    · have hstep : optionStep logDebug data body s = .inr (some (s.acc, s.outside)) := by
        rw [optionStep, if_neg inside]
      rw [run_left hstep]
      constructor
      · rintro ⟨acc, hrun⟩
        refine ⟨(some_outside_iff _).mp ⟨acc, Option.some.inj hrun⟩, ?_⟩
        intro o ho
        exact absurd (optionAt_start_iff.mp ho).1 inside
      · rintro ⟨houtside, -⟩
        exact ⟨s.acc, by rw [houtside]⟩

/-- Each option that a loop comes to fits. -/
def OptionsFit (logDebug : Bool) (data : List Byte) (fits : ℕ → Prop) : Prop :=
  ∀ o, OptionAt data never 8 o → OptionFits logDebug data fits o

theorem optionLoop_completes_iff (h : FitsAt body fits) (acc : σ) (header : 8 ≤ data.length) :
    Completes (optionLoop logDebug data body acc) ↔ OptionsFit logDebug data fits := by
  have enough : data.length - (scanStart acc).optionsOffset < data.length := by
    show data.length - 8 < data.length
    omega
  have hrun : (∃ acc', run (optionStep logDebug data body) data.length (scanStart acc) =
      some (some (acc', false))) ↔ OptionsFit logDebug data fits :=
    (run_completes_iff h enough).trans (and_iff_right rfl)
  rw [← hrun]
  unfold Completes optionLoop
  cases run (optionStep logDebug data body) data.length (scanStart acc) with
  | none => simp
  | some r =>
    cases r with
    | none => simp
    | some r => simp [Prod.ext_iff]

end Loop

/-! ## The handlers -/

/-- A body that does nothing dangerous. -/
def anywhere (_ : ℕ) : Prop := True

/-- The address option is compared with four bytes, whatever its length says. -/
def IpcpFits (data : List Byte) (o : ℕ) : Prop := data.getD o 0 = 0x03 → o + 6 ≤ data.length

def LcpFits (st : Station) (data : List Byte) (o : ℕ) : Prop := ¬ lcpThrows st data o

theorem ccpOption_fits (data : List Byte) : FitsAt (ccpOption data) anywhere := by
  intro o rej
  simp [ccpOption, anywhere]

theorem ipv6cpOption_fits (data : List Byte) : FitsAt (ipv6cpOption data) anywhere := by
  intro o rej
  unfold ipv6cpOption anywhere
  split <;> simp

theorem ipcpRejected_fits : FitsAt ipcpRejected anywhere := by
  intro o s
  simp [ipcpRejected, anywhere]

theorem ipcpOption_fits (st : Station) (data : List Byte) :
    FitsAt (ipcpOption st data) (IpcpFits data) := by
  intro o s
  unfold ipcpOption IpcpFits
  dsimp only
  by_cases htype : data.getD o 0 = 0x03
  · rw [if_pos htype, forall_prop_of_true htype, ← Nat.not_lt]
    split
    · rw [some_outside_iff, decide_eq_false_iff_not]
    · rw [some_outside_iff, decide_eq_false_iff_not]
  · rw [if_neg htype, some_outside_iff]
    exact iff_of_true rfl fun hc => absurd hc htype

theorem lcpOption_fits (st : Station) (data : List Byte) :
    FitsAt (lcpOption st data) (LcpFits st data) := by
  intro o s
  unfold lcpOption LcpFits
  by_cases h : lcpThrows st data o
  · simp [h]
  · rw [if_neg h]
    simp only [h, not_false_eq_true, iff_true]
    split_ifs <;> exact ⟨_, rfl⟩

/-- What a handler needs of a packet: the eight bytes, and what the code asks for if the packet is
not left alone. -/
def XcpFits (data : List Byte) (needs : Byte → Prop) : Prop :=
  8 ≤ data.length ∧ (4 + xcpLength data ≤ data.length → needs (xcpCode data))

theorem handleXcp_completes_iff {α : Type} {data : List Byte} {ignored : α}
    {handle : Byte → Outcome α} {needs : Byte → Prop}
    (h : 8 ≤ data.length → ∀ code, Completes (handle code) ↔ needs code) :
    Completes (handleXcp data ignored handle) ↔ XcpFits data needs := by
  unfold handleXcp XcpFits
  by_cases header : data.length < 8
  · rw [if_pos header]
    exact iff_of_false not_completes_throws fun hc => by omega
  · rw [if_neg header]
    by_cases whole : data.length < 4 + xcpLength data
    · rw [if_pos whole, completes_returns_iff]
      exact iff_of_true rfl ⟨by omega, fun hw => by omega⟩
    · rw [if_neg whole, h (by omega)]
      exact ⟨fun hn => ⟨by omega, fun _ => hn⟩, fun hn => hn.2 (by omega)⟩

def CcpNeeds (st : Station) (data : List Byte) (code : Byte) : Prop :=
  code = 0x01 → OptionsFit st.logDebug data anywhere

def IpcpNeeds (st : Station) (data : List Byte) (code : Byte) : Prop :=
  (code = 0x01 → OptionsFit st.logDebug data (IpcpFits data)) ∧
  (code = 0x04 → OptionsFit st.logDebug data anywhere)

/-- A logged echo request or identification has at least the magic number. -/
def LcpNeeds (st : Station) (data : List Byte) (code : Byte) : Prop :=
  (code = 0x01 → OptionsFit st.logDebug data (LcpFits st data)) ∧
  (code = 0x09 ∨ code = 0x0c → st.logDebug = true → 8 ≤ xcpLength data)

theorem handleCcp_completes_iff (st : Station) (link : Link) (data : List Byte) :
    Completes (handleCcp st link data) ↔ XcpFits data (CcpNeeds st data) := by
  refine handleXcp_completes_iff fun header code => ?_
  unfold CcpNeeds
  by_cases h1 : code = 0x01
  · rw [if_pos h1, completes_map_iff, optionLoop_completes_iff (ccpOption_fits data) _ header]
    simp [h1]
  · rw [if_neg h1, completes_returns_iff]
    exact iff_of_true rfl fun hc => absurd hc h1

theorem handleIpv6cp_completes_iff (st : Station) (link : Link) (data : List Byte) :
    Completes (handleIpv6cp st link data) ↔ XcpFits data (CcpNeeds st data) := by
  refine handleXcp_completes_iff fun header code => ?_
  unfold CcpNeeds
  by_cases h1 : code = 0x01
  · rw [if_pos h1, completes_map_iff, optionLoop_completes_iff (ipv6cpOption_fits data) _ header]
    simp [h1]
  · rw [if_neg h1]
    refine iff_of_true ?_ fun hc => absurd hc h1
    split <;> exact (completes_returns_iff _ _).mpr rfl

theorem handleIpcp_completes_iff (st : Station) (link : Link) (data : List Byte) :
    Completes (handleIpcp st link data) ↔ XcpFits data (IpcpNeeds st data) := by
  refine handleXcp_completes_iff fun header code => ?_
  unfold IpcpNeeds
  by_cases h1 : code = 0x01
  · have h4 : code ≠ 0x04 := by
      rw [h1]
      decide
    rw [if_pos h1, completes_map_iff,
      optionLoop_completes_iff (ipcpOption_fits st data) _ header]
    exact ⟨fun h => ⟨fun _ => h, fun hc => absurd hc h4⟩, fun h => h.1 h1⟩
  · rw [if_neg h1]
    by_cases h2 : code = 0x02
    · have h4 : code ≠ 0x04 := by
        rw [h2]
        decide
      rw [if_pos h2, completes_returns_iff]
      exact iff_of_true rfl ⟨fun hc => absurd hc h1, fun hc => absurd hc h4⟩
    · rw [if_neg h2]
      by_cases h4 : code = 0x04
      · rw [if_pos h4, completes_map_iff, optionLoop_completes_iff ipcpRejected_fits _ header]
        exact ⟨fun h => ⟨fun hc => absurd hc h1, fun _ => h⟩, fun h => h.2 h4⟩
      · rw [if_neg h4, completes_returns_iff]
        exact iff_of_true rfl ⟨fun hc => absurd hc h1, fun hc => absurd hc h4⟩

/-- A reply to a packet whose text is logged. -/
theorem logged_completes_iff {α : Type} (st : Station) (data : List Byte) (a : α) :
    Completes (if st.logDebug = true ∧ xcpLength data < 8 then .throws else .returns a false) ↔
      (st.logDebug = true → 8 ≤ xcpLength data) := by
  by_cases h : st.logDebug = true ∧ xcpLength data < 8
  · rw [if_pos h]
    refine iff_of_false not_completes_throws fun hlong => ?_
    have := hlong h.1
    omega
  · rw [if_neg h, completes_returns_iff]
    refine iff_of_true rfl fun hlog => ?_
    by_contra hshort
    exact h ⟨hlog, by omega⟩

theorem handleLcp_completes_iff (st : Station) (link : Link) (data : List Byte) :
    Completes (handleLcp st link data) ↔ XcpFits data (LcpNeeds st data) := by
  refine handleXcp_completes_iff fun header code => ?_
  unfold LcpNeeds
  by_cases h1 : code = 0x01
  · rw [if_pos h1, completes_map_iff, optionLoop_completes_iff (lcpOption_fits st data) _ header]
    have h9 : ¬ (code = 0x09 ∨ code = 0x0c) := by
      rw [h1]
      decide
    exact ⟨fun h => ⟨fun _ => h, fun hc => absurd hc h9⟩, fun h => h.1 h1⟩
  · rw [if_neg h1, and_iff_right fun hc => absurd hc h1]
    by_cases h2 : code = 0x02
    · have h9 : ¬ (code = 0x09 ∨ code = 0x0c) := by
        rw [h2]
        decide
      rw [if_pos h2, completes_returns_iff]
      exact iff_of_true rfl fun hc => absurd hc h9
    · rw [if_neg h2]
      by_cases h9 : code = 0x09
      · rw [if_pos h9, logged_completes_iff]
        exact ⟨fun h _ => h, fun h => h (.inl h9)⟩
      · rw [if_neg h9]
        by_cases hc : code = 0x0c
        · rw [if_pos hc, logged_completes_iff]
          exact ⟨fun h _ => h, fun h => h (.inr hc)⟩
        · rw [if_neg hc, completes_returns_iff]
          exact iff_of_true rfl fun h => absurd h (by tauto)

/-! ## Packets and frames -/

def packetProtocol (data : List Byte) : BitVec 16 := be16 (data.getD 2 0) (data.getD 3 0)

/-- What a packet with a whole header needs. An IP packet needs room for the header and the frame
check sequence, or there is nobody to give it to. -/
def ProtocolNeeds (st : Station) (data : List Byte) (protocol : BitVec 16) : Prop :=
  if protocol = 0x0021 then st.dev.protMap 0x800 ≠ none → 6 ≤ data.length
  else if protocol = 0xc021 then XcpFits data (LcpNeeds st data)
  else if protocol = 0x8021 then XcpFits data (IpcpNeeds st data)
  else if protocol = 0x8057 then XcpFits data (CcpNeeds st data)
  else if protocol = 0x80fd then XcpFits data (CcpNeeds st data)
  else True

def PacketFits (st : Station) (cfg : Settings) (packetBuffer : List Byte) : Prop :=
  packetBuffer.length < 4 ∨
    ProtocolNeeds st (fullHeader cfg packetBuffer) (packetProtocol (fullHeader cfg packetBuffer))

theorem completes_queued (st : Station) (link : Link) (queued : List (ℕ × Packet)) :
    Completes (handleActs st link [] (queued.map fun q => .queued q.1 q.2)) := by
  generalize hsent : ([] : List Sent) = sent
  clear hsent
  induction queued generalizing sent with
  | nil => exact ⟨_, rfl⟩
  | cons q queued ih =>
    obtain ⟨r, hr⟩ := ih (sent ++ [])
    refine ⟨r, ?_⟩
    rw [List.map_cons, handleActs]
    show (Outcome.returns (link, []) false).bind _ = _
    rw [Outcome.bind, hr]
    rfl

theorem incomingPacket_completes_iff (st : Station) (link : Link) (packetBuffer : List Byte) :
    Completes (incomingPacket st link packetBuffer) ↔
      PacketFits st link.settings packetBuffer := by
  unfold incomingPacket processIncomingPacket PacketFits
  by_cases short : packetBuffer.length < 4
  · rw [if_pos short]
    exact iff_of_true ⟨_, rfl⟩ (.inl short)
  · rw [if_neg short, or_iff_right short]
    generalize fullHeader link.settings packetBuffer = data
    dsimp only
    unfold ProtocolNeeds packetProtocol
    generalize be16 (data.getD 2 0) (data.getD 3 0) = protocol
    by_cases ip : protocol = 0x0021
    · rw [if_pos ip, if_pos ip]
      by_cases negative : st.dev.protMap 0x800 ≠ none ∧ data.length < 6
      · rw [if_pos negative]
        refine iff_of_false not_completes_throws fun h => ?_
        have := h negative.1
        omega
      · rw [if_neg negative]
        refine iff_of_true (completes_queued st link _) fun attached => ?_
        by_contra hlt
        exact negative ⟨attached, by omega⟩
    · rw [if_neg ip, if_neg ip]
      by_cases lcp : protocol = 0xc021
      · rw [if_pos lcp, if_pos lcp]
        exact (completes_handleActs_singleton _ _ _).trans (handleLcp_completes_iff st link data)
      · rw [if_neg lcp, if_neg lcp]
        by_cases ipcp : protocol = 0x8021
        · rw [if_pos ipcp, if_pos ipcp]
          exact (completes_handleActs_singleton _ _ _).trans
            (handleIpcp_completes_iff st link data)
        · rw [if_neg ipcp, if_neg ipcp]
          by_cases ipv6cp : protocol = 0x8057
          · rw [if_pos ipv6cp, if_pos ipv6cp]
            exact (completes_handleActs_singleton _ _ _).trans
              (handleIpv6cp_completes_iff st link data)
          · rw [if_neg ipv6cp, if_neg ipv6cp]
            by_cases ccp : protocol = 0x80fd
            · rw [if_pos ccp, if_pos ccp]
              exact (completes_handleActs_singleton _ _ _).trans
                (handleCcp_completes_iff st link data)
            · rw [if_neg ccp, if_neg ccp]
              exact iff_of_true ⟨_, rfl⟩ trivial

/-- The escaping of a frame's body. -/
def EscapedBody : List Byte → List Byte → Prop := Escaped 0x7d (· ^^^ 0x20)

theorem unwrapPppFrame_isSome_iff (body : List Byte) :
    (unwrapPppFrame body).isSome = true ↔ Even (trailing 0x7d body) :=
  unstuff_isSome_iff body

theorem receiveFrame_completes_iff (st : Station) (link : Link) (body : List Byte) :
    Completes (receiveFrame st link body) ↔ Even (trailing 0x7d body) ∧
      ∀ content, EscapedBody body content → PacketFits st link.settings content := by
  have hcontent : ∀ content, unwrapPppFrame body = some content ↔ EscapedBody body content :=
    fun content => unstuff_eq_some_iff body content
  rw [← unwrapPppFrame_isSome_iff]
  simp only [← hcontent]
  unfold receiveFrame
  cases unwrapPppFrame body with
  | none => simp [not_completes_throws]
  | some content => simp [incomingPacket_completes_iff]

/-- The exact inputs that each function of the receiver, and the receiver as a whole, get through
without an exception, a negative size or a read behind the packet. -/
theorem ppp_receiver_completes_iff (st : Station) (link : Link) :
    (∀ body, (unwrapPppFrame body).isSome = true ↔ Even (trailing 0x7d body)) ∧
    (∀ packetBuffer, Completes (incomingPacket st link packetBuffer) ↔
      PacketFits st link.settings packetBuffer) ∧
    (∀ data, (Completes (handleLcp st link data) ↔ XcpFits data (LcpNeeds st data)) ∧
      (Completes (handleIpcp st link data) ↔ XcpFits data (IpcpNeeds st data)) ∧
      (Completes (handleIpv6cp st link data) ↔ XcpFits data (CcpNeeds st data)) ∧
      (Completes (handleCcp st link data) ↔ XcpFits data (CcpNeeds st data))) ∧
    ∀ body, Completes (receiveFrame st link body) ↔ Even (trailing 0x7d body) ∧
      ∀ content, EscapedBody body content → PacketFits st link.settings content := by
  refine ⟨unwrapPppFrame_isSome_iff, incomingPacket_completes_iff st link, ?_,
    receiveFrame_completes_iff st link⟩
  intro data
  exact ⟨handleLcp_completes_iff st link data, handleIpcp_completes_iff st link data,
    handleIpv6cp_completes_iff st link data, handleCcp_completes_iff st link data⟩

/-- A body that ends with an escape byte, an LCP packet that is a header alone, an IP packet with
one byte behind the header, an option for a table of 33 bytes, and an address option without an
address. -/
theorem frames_not_completed :
    receiveFrame sampleStation sampleLink [0x7d] = .throws ∧
    receiveFrame sampleStation sampleLink [0xff, 0x03, 0xc0, 0x21] = .throws ∧
    receiveFrame sampleStation sampleLink [0xff, 0x03, 0x00, 0x21, 0x45] = .throws ∧
    receiveFrame sampleStation sampleLink ([0xff, 0x03, 0xc0, 0x21, 1, 1, 0, 37, 2, 33] ++
      List.replicate 33 0) = .throws ∧
    ∃ r, receiveFrame sampleStation sampleLink
      [0xff, 0x03, 0x80, 0x21, 1, 1, 0, 6, 3, 2, 0, 0] = .returns r true := by
  refine ⟨by decide +kernel, by decide +kernel, by decide +kernel, by decide +kernel, ?_⟩
  exact ⟨_, rfl⟩

end MyIp.Phys.Ppp
