import MyIp.Vnc.Session

/-! # What a VNC client sends

The messages of a client, and where a session is in them: at each time it has consumed whole
messages and the part of the next one that its state tells, its settings are those of these
messages, and it has sent no update but those that were asked for. -/

namespace MyIp.Vnc
set_option autoImplicit false

open Bytes

/-! ## The messages of a client -/

def fixedLength (cmd : Byte) : Option ℕ :=
  if cmd = 0 then some 19
  else if cmd = 3 then some 9
  else if cmd = 4 then some 7
  else if cmd = 5 then some 5
  else none

inductive Message
  | fixed (cmd : Byte) (args : List Byte) (length : fixedLength cmd = some args.length)
  | setEncodings (padding : Byte) (n : BitVec 16) (bin : List Byte)
      (length : bin.length = n.toNat * 4)
  | clientCutText (padding : List Byte) (padding_length : padding.length = 3) (n : BitVec 32)
      (text : List Byte) (length : text.length = n.toNat)

def Message.bytes : Message → List Byte
  | fixed cmd args _ => cmd :: args
  | setEncodings padding n bin _ => 2 :: padding :: be16Bytes n ++ bin
  | clientCutText padding _ n text _ => 6 :: padding ++ be32Bytes n ++ text

def Version (bs : List Byte) : Prop := bs.length = 12 ∧ bs.take 3 = rfb

/-- What comes before the first command: version, security type 1 and whether to share. -/
def Handshake (bs : List Byte) : Prop :=
  ∃ version share, Version version ∧ bs = version ++ [1, share]

/-- A command is to follow these bytes: they are the handshake and some commands. -/
def AtCommand (bs : List Byte) : Prop :=
  ∃ (handshake : List Byte) (messages : List Message),
    Handshake handshake ∧ bs = handshake ++ messages.flatMap Message.bytes

/-- What an update depends on besides its request. -/
structure Settings where
  depth : Byte
  encodings : List ℤ
  continuousUpdates : Bool

def Session.settings (vs : Session) : Settings := ⟨vs.depth, vs.encodings, vs.continuousUpdates⟩

def Settings.initial : Settings := ⟨32, [0], false⟩

/-- What a command of fixed length, and one with encodings, makes of the settings. -/
def Settings.fixed (s : Settings) (cmd : Byte) (args : List Byte) : Settings :=
  if cmd = 0 then { s with depth := args.getD 4 0 } else s

def Settings.choose (s : Settings) (encodings : List ℤ) : Settings :=
  { s with encodings := encodings, continuousUpdates := encodings.any (· = -313) }

def Message.apply (s : Settings) : Message → Settings
  | fixed cmd args _ => s.fixed cmd args
  | setEncodings _ n bin _ => s.choose (parseEncodings n.toNat bin)
  | clientCutText _ _ _ _ _ => s

/-- A command is to follow these bytes, and the messages in them have made these settings. -/
def Reached (s : Settings) (bs : List Byte) : Prop :=
  ∃ (handshake : List Byte) (messages : List Message), Handshake handshake ∧
    bs = handshake ++ messages.flatMap Message.bytes ∧ s = messages.foldl Message.apply .initial

theorem Reached.atCommand {s : Settings} {bs : List Byte} (h : Reached s bs) : AtCommand bs := by
  obtain ⟨handshake, messages, hhandshake, rfl, -⟩ := h
  exact ⟨handshake, messages, hhandshake, rfl⟩

theorem Reached.snoc {s : Settings} {bs : List Byte} (h : Reached s bs) (m : Message) :
    Reached (m.apply s) (bs ++ m.bytes) := by
  obtain ⟨handshake, messages, hhandshake, rfl, rfl⟩ := h
  exact ⟨handshake, messages ++ [m], hhandshake, by simp, by simp⟩

/-- The update is that of a request, with the settings of the messages before it, or a full one at a
place where these ask for continuous updates. -/
def Asked (bs : List Byte) (u : Update) : Prop :=
  (∃ (s : Settings) (before parameters : List Byte), Reached s before ∧ parameters.length = 9 ∧
    before ++ 3 :: parameters <+: bs ∧ u = requestedUpdate s.encodings s.depth parameters) ∨
  ∃ (s : Settings) (before : List Byte), Reached s before ∧ before <+: bs ∧
    s.continuousUpdates = true ∧ u = fullUpdate s.encodings

theorem Asked.of_isPrefix {bs bs' : List Byte} {u : Update} (h : Asked bs u) (hpre : bs <+: bs') :
    Asked bs' u := by
  obtain ⟨s, before, parameters, hreached, hlength, hbytes, rfl⟩ | ⟨s, before, hreached, hbytes,
    hcontinuous, rfl⟩ := h
  · exact .inl ⟨s, before, parameters, hreached, hlength, hbytes.trans hpre, rfl⟩
  · exact .inr ⟨s, before, hreached, hbytes.trans hpre, hcontinuous, rfl⟩

/-- The session has sent no other updates than were asked for in these bytes. -/
def SentAsked (bs : List Byte) (vs : Session) : Prop :=
  ∀ u, .framebufferUpdate u ∈ vs.sent → Asked bs u

theorem SentAsked.bytes {bs data : List Byte} {vs vs' : Session} (h : SentAsked bs vs)
    (hsent : vs'.sent = vs.sent ++ [.bytes data]) : SentAsked bs vs' := by
  intro u hu
  rw [hsent, List.mem_append, List.mem_singleton] at hu
  exact h u (hu.resolve_right (by simp))

theorem SentAsked.update {bs : List Byte} {vs vs' : Session} {u : Update} (h : SentAsked bs vs)
    (hsent : vs'.sent = vs.sent ++ [.framebufferUpdate u]) (hu : Asked bs u) :
    SentAsked bs vs' := by
  intro u' hu'
  rw [hsent, List.mem_append, List.mem_singleton, Output.framebufferUpdate.injEq] at hu'
  obtain hu' | rfl := hu'
  · exact h u' hu'
  · exact hu

/-- Bytes that are refused: another protocol or security type, or a command that is not known. -/
def Refused (bs : List Byte) : Prop :=
  (∃ version rest : List Byte, version.length = 12 ∧ version.take 3 ≠ rfb ∧ bs = version ++ rest) ∨
  (∃ version rest : List Byte, ∃ chosenSec : Byte, Version version ∧ chosenSec ≠ 1 ∧
    bs = version ++ chosenSec :: rest) ∨
  ∃ before rest : List Byte, ∃ cmd : Byte, AtCommand before ∧
    cmd ∉ ([0, 2, 3, 4, 5, 6] : List Byte) ∧ bs = before ++ cmd :: rest

theorem Refused.append {bs : List Byte} (h : Refused bs) (more : List Byte) :
    Refused (bs ++ more) := by
  obtain ⟨version, rest, hlength, hrfb, rfl⟩ | ⟨version, rest, chosenSec, hversion, hsec, rfl⟩ |
    ⟨before, rest, cmd, hbefore, hcmd, rfl⟩ := h
  · exact .inl ⟨version, rest ++ more, hlength, hrfb, by simp⟩
  · exact .inr (.inl ⟨version, rest ++ more, chosenSec, hversion, hsec, by simp⟩)
  · exact .inr (.inr ⟨before, rest ++ more, cmd, hbefore, hcmd, by simp⟩)

/-- Where a session is in the stream: what it has consumed when it is in its state. -/
def Position (vs : Session) (consumed : List Byte) : Prop :=
  match vs.state with
  | .initialHandshakeServerSend => consumed = [] ∧ vs.settings = .initial
  | .initialHandshakeClientResp => consumed = [] ∧ vs.settings = .initial
  | .securityHandshakeServer => Version consumed ∧ vs.settings = .initial
  | .securityHandshakeClientResp => Version consumed ∧ vs.settings = .initial
  | .clientInit => (∃ version, Version version ∧ consumed = version ++ [1]) ∧
      vs.settings = .initial
  | .serverInit => Handshake consumed ∧ vs.settings = .initial
  | .runningWaitingCmd => Reached vs.settings consumed
  | .runningWaitingData => ∃ before cmd, Reached vs.settings before ∧ consumed = before ++ [cmd] ∧
      vs.runningCmd = cmd.toNat
  | .runningWaitingDataExtra => ∃ before padding n, Reached vs.settings before ∧
      consumed = before ++ 2 :: padding :: be16Bytes n ∧ vs.runningCmd = 2 ∧
      vs.nEncodings = n.toNat
  | .runningWaitingDataIgnore => ∃ before padding n, Reached vs.settings before ∧
      padding.length = 3 ∧ consumed = before ++ 6 :: padding ++ be32Bytes n ∧
      vs.ignoreDataN = n.toInt
  | .terminate => False

/-- The session has consumed what it should of the bytes that came, and has the rest. -/
def Aligned (bs : List Byte) (vs : Session) : Prop :=
  ∃ consumed, bs = consumed ++ vs.buffer ∧ Position vs consumed

/-- Every `ClientCutText` has a text, of less than 2^31 bytes. -/
def CutTexts (bs : List Byte) : Prop :=
  ∀ before padding n rest, AtCommand before → padding.length = 3 →
    bs = before ++ 6 :: padding ++ be32Bytes n ++ rest → 0 < n.toInt

/-- A message that is not a `ClientCutText`, or one with such a text. -/
def Message.Sound : Message → Prop
  | clientCutText _ _ n _ _ => 0 < n.toInt
  | _ => True

theorem CutTexts.of_isPrefix {bs bs' : List Byte} (h : CutTexts bs') (hpre : bs <+: bs') :
    CutTexts bs := by
  obtain ⟨more, rfl⟩ := hpre
  rintro before padding n rest hbefore hpadding rfl
  exact h before padding n (rest ++ more) hbefore hpadding (by simp)

/-- A command comes after the handshake, so a stream without a 6 there has no text. -/
theorem cutTexts_of_notMem {stream : List Byte} (h : 6 ∉ stream.drop 14) : CutTexts stream := by
  rintro before padding n rest ⟨handshake, messages, hhandshake, rfl⟩ - rfl
  have hlength : handshake.length = 14 := by
    obtain ⟨version, share, hversion, rfl⟩ := hhandshake
    simp [hversion.1]
  rw [List.append_assoc, List.append_assoc, List.append_assoc, List.drop_left' hlength] at h
  simp at h

/-! ## One block -/

theorem getFromBuffer_cases (vs : Session) (n : ℕ) :
    getFromBuffer vs n = none ∨ ∃ data rest, vs.buffer = data ++ rest ∧ data.length = n ∧
      getFromBuffer vs n = some (data, { vs with buffer := rest }) := by
  rw [getFromBuffer]
  split_ifs with hlen
  · exact .inl rfl
  · refine .inr ⟨_, _, (List.take_append_drop n vs.buffer).symm, ?_, rfl⟩
    rw [List.length_take]
    omega

/-- What a block leaves: a session that is where it should be, or one in its old state that is to
end. -/
def Left (bs : List Byte) (state : VncState) (vs : Session) : Prop :=
  SentAsked bs vs ∧
    (vs.rc = true ∧ Aligned bs vs ∨ vs.rc = false ∧ vs.state = state ∧ Refused bs)

/-- What all blocks do to a session that is in their state. -/
def Proceeds (bs : List Byte) (state : VncState) (block : Session → Option Session) : Prop :=
  ∀ vs, vs.state = state → vs.rc = true → Aligned bs vs → SentAsked bs vs →
    ∃ vs', block vs = some vs' ∧ Left bs state vs'

theorem exists_left_of_read {bs consumed : List Byte} {vs : Session} {state : VncState}
    {block : Session → Option Session} (n : ℕ) (hrc : vs.rc = true)
    (hbs : bs = consumed ++ vs.buffer) (hposition : Position vs consumed) (hasked : SentAsked bs vs)
    (hnone : getFromBuffer vs n = none → block vs = some vs)
    (hsome : ∀ data rest, data.length = n → bs = consumed ++ data ++ rest →
      getFromBuffer vs n = some (data, { vs with buffer := rest }) →
      ∃ vs', block vs = some vs' ∧ Left bs state vs') :
    ∃ vs', block vs = some vs' ∧ Left bs state vs' := by
  rcases getFromBuffer_cases vs n with hget | ⟨data, rest, hbuffer, hlength, hget⟩
  · exact ⟨vs, hnone hget, hasked, .inl ⟨hrc, consumed, hbs, hposition⟩⟩
  · rw [hbuffer, ← List.append_assoc] at hbs
    exact hsome data rest hlength hbs hget

theorem handshakeServerSend_proceeds (bs : List Byte) :
    Proceeds bs .initialHandshakeServerSend handshakeServerSend := by
  rintro vs hstate hrc ⟨consumed, hbs, hposition⟩ hasked
  rw [Position, hstate] at hposition
  exact ⟨_, rfl, hasked.bytes rfl, .inl ⟨hrc, consumed, hbs, hposition⟩⟩

theorem handshakeClientResp_proceeds (bs : List Byte) :
    Proceeds bs .initialHandshakeClientResp handshakeClientResp := by
  rintro vs hstate hrc ⟨consumed, hbs, hposition⟩ hasked
  apply exists_left_of_read 12 hrc hbs hposition hasked
  · intro hget
    rw [handshakeClientResp, hget]
  · intro data rest hlength hbs hget
    rw [Position, hstate] at hposition
    obtain ⟨rfl, hsettings⟩ := hposition
    by_cases hrfb : data.take 3 = rfb
    · refine ⟨{ vs with buffer := rest, state := .securityHandshakeServer }, ?_, ?_⟩
      · simp only [handshakeClientResp, hget, if_pos hrfb]
      · exact ⟨hasked, .inl ⟨hrc, data, hbs, ⟨hlength, hrfb⟩, hsettings⟩⟩
    · refine ⟨{ vs with buffer := rest, rc := false }, ?_, ?_⟩
      · simp only [handshakeClientResp, hget, if_neg hrfb]
      · exact ⟨hasked, .inr ⟨rfl, hstate, .inl ⟨data, rest, hlength, hrfb, hbs⟩⟩⟩

theorem securityServer_proceeds (bs : List Byte) :
    Proceeds bs .securityHandshakeServer securityServer := by
  rintro vs hstate hrc ⟨consumed, hbs, hposition⟩ hasked
  rw [Position, hstate] at hposition
  exact ⟨_, rfl, hasked.bytes rfl, .inl ⟨hrc, consumed, hbs, hposition⟩⟩

theorem securityClientResp_proceeds (bs : List Byte) :
    Proceeds bs .securityHandshakeClientResp securityClientResp := by
  rintro vs hstate hrc ⟨consumed, hbs, hposition⟩ hasked
  apply exists_left_of_read 1 hrc hbs hposition hasked
  · intro hget
    rw [securityClientResp, hget]
  · intro data rest hlength hbs hget
    obtain ⟨chosenSec, rfl⟩ := List.length_eq_one_iff.1 hlength
    rw [Position, hstate] at hposition
    obtain ⟨hversion, hsettings⟩ := hposition
    by_cases hsec : chosenSec = 1
    · subst hsec
      refine ⟨{ vs with
        buffer := rest, sent := vs.sent ++ [.bytes [0, 0, 0, 0]], state := .clientInit }, ?_, ?_⟩
      · simp only [securityClientResp, hget, Session.send, if_pos]
      · exact ⟨hasked.bytes rfl, .inl ⟨hrc, _, hbs, ⟨consumed, hversion, rfl⟩, hsettings⟩⟩
    · refine ⟨{ vs with
        buffer := rest, sent := vs.sent ++ [.bytes [0, 0, 0, 1]], rc := false }, ?_, ?_⟩
      · simp only [securityClientResp, hget, Session.send, List.cons.injEq, hsec, false_and,
          if_false]
      · refine ⟨hasked.bytes rfl, .inr ⟨rfl, hstate, .inr (.inl ?_)⟩⟩
        refine ⟨consumed, rest, chosenSec, hversion, hsec, ?_⟩
        rw [hbs, List.append_assoc, List.singleton_append]

theorem clientInitialises_proceeds (bs : List Byte) :
    Proceeds bs .clientInit clientInitialises := by
  rintro vs hstate hrc ⟨consumed, hbs, hposition⟩ hasked
  apply exists_left_of_read 1 hrc hbs hposition hasked
  · intro hget
    rw [clientInitialises, hget]
  · intro data rest hlength hbs hget
    obtain ⟨share, rfl⟩ := List.length_eq_one_iff.1 hlength
    rw [Position, hstate] at hposition
    obtain ⟨⟨version, hversion, rfl⟩, hsettings⟩ := hposition
    refine ⟨{ vs with buffer := rest, state := .serverInit }, ?_, ?_⟩
    · simp only [clientInitialises, hget]
    · exact ⟨hasked, .inl ⟨hrc, _, hbs, ⟨version, share, hversion, by simp⟩, hsettings⟩⟩

theorem serverInitialises_proceeds (bs : List Byte) :
    Proceeds bs .serverInit serverInitialises := by
  rintro vs hstate hrc ⟨consumed, hbs, hposition⟩ hasked
  rw [Position, hstate] at hposition
  obtain ⟨hhandshake, hsettings⟩ := hposition
  exact ⟨_, rfl, hasked.bytes rfl,
    .inl ⟨hrc, consumed, hbs, consumed, [], hhandshake, by simp, hsettings⟩⟩

theorem waitingCmd_proceeds (bs : List Byte) : Proceeds bs .runningWaitingCmd waitingCmd := by
  rintro vs hstate hrc ⟨consumed, hbs, hposition⟩ hasked
  apply exists_left_of_read 1 hrc hbs hposition hasked
  · intro hget
    rw [waitingCmd, hget]
  · intro data rest hlength hbs hget
    obtain ⟨cmd, rfl⟩ := List.length_eq_one_iff.1 hlength
    rw [Position, hstate] at hposition
    refine ⟨{ vs with
      buffer := rest, runningCmd := cmd.toNat, state := .runningWaitingData }, ?_, ?_⟩
    · simp only [waitingCmd, hget, List.getD_cons_zero]
    · exact ⟨hasked, .inl ⟨hrc, _, hbs, consumed, cmd, hposition, rfl, rfl⟩⟩

/-! ## The commands -/

/-- What is sent at the end of a command of fixed length. -/
def Settings.sends (s : Settings) (cmd : Byte) (args : List Byte) : List Output :=
  if cmd = 3 then [.framebufferUpdate (requestedUpdate s.encodings s.depth args)] else []

/-- The session `vs` has come to the end of a command as `vs'`. -/
structure Ended (vs : Session) (rest : List Byte) (settings : Settings) (sends : List Output)
    (vs' : Session) : Prop where
  buffer : vs'.buffer = rest
  state : vs'.state = .runningWaitingCmd
  rc : vs'.rc = vs.rc
  settings : vs'.settings = settings
  sent : vs'.sent = vs.sent ++ sends

/-- A block that ends a command of which `n` bytes are to come, with what it makes of the settings
and what it sends. -/
def EndsCommand (n : ℕ) (settings : List Byte → Settings) (sends : List Byte → List Output)
    (block : Session → Option Session) (vs : Session) : Prop :=
  (getFromBuffer vs n = none → block vs = some vs) ∧
    ∀ args rest, getFromBuffer vs n = some (args, { vs with buffer := rest }) →
      ∃ vs', block vs = some vs' ∧ Ended vs rest (settings args) (sends args) vs'

theorem setPixelFormat_endsCommand (vs : Session) :
    EndsCommand 19 (vs.settings.fixed 0) (vs.settings.sends 0) setPixelFormat vs := by
  refine ⟨fun hget => by rw [setPixelFormat, hget], fun args rest hget => ?_⟩
  refine ⟨{ vs with buffer := rest, depth := args.getD 4 0, state := .runningWaitingCmd }, ?_,
    rfl, rfl, rfl, rfl, (List.append_nil _).symm⟩
  simp only [setPixelFormat, hget]

theorem framebufferUpdateRequest_endsCommand (vs : Session) :
    EndsCommand 9 (vs.settings.fixed 3) (vs.settings.sends 3) framebufferUpdateRequest vs := by
  refine ⟨fun hget => by rw [framebufferUpdateRequest, hget], fun args rest hget => ?_⟩
  obtain ⟨vs', hvs'⟩ : ∃ vs', framebufferUpdateRequest vs = some vs' := by
    simp only [framebufferUpdateRequest, hget, Option.some.injEq, exists_eq']
  refine ⟨vs', hvs', ?_⟩
  simp only [framebufferUpdateRequest, hget, Option.some.injEq] at hvs'
  subst hvs'
  exact ⟨rfl, rfl, rfl, rfl, rfl⟩

theorem ignoreCmd_endsCommand (n : ℕ) {cmd : Byte} (hzero : cmd ≠ 0) (hthree : cmd ≠ 3)
    (vs : Session) :
    EndsCommand n (vs.settings.fixed cmd) (vs.settings.sends cmd) (ignoreCmd · n) vs := by
  refine ⟨fun hget => by simp only [ignoreCmd, hget], fun args rest hget => ?_⟩
  refine ⟨{ vs with buffer := rest, state := .runningWaitingCmd, runningCmd := -1 }, ?_,
    rfl, rfl, rfl, ?_, ?_⟩
  · simp only [ignoreCmd, hget]
  · rw [Settings.fixed, if_neg hzero]
    rfl
  · rw [Settings.sends, if_neg hthree, List.append_nil]

theorem toNat_eq_iff (cmd : Byte) (k : ℕ) (hk : k < 256) :
    ((cmd.toNat : ℤ) = k) ↔ cmd = BitVec.ofNat 8 k := by
  rw [Nat.cast_inj, BitVec.toNat_eq, BitVec.toNat_ofNat, Nat.mod_eq_of_lt hk]

theorem waitingData_eq {vs : Session} {cmd : Byte} (hcmd : vs.runningCmd = cmd.toNat) :
    waitingData vs =
      if cmd = 0 then setPixelFormat vs
      else if cmd = 2 then setEncodings vs
      else if cmd = 3 then framebufferUpdateRequest vs
      else if cmd = 4 then ignoreCmd vs 7
      else if cmd = 5 then ignoreCmd vs 5
      else if cmd = 6 then clientCutText vs
      else some { vs with rc := false } := by
  have hzero := toNat_eq_iff cmd 0 (by decide)
  have htwo := toNat_eq_iff cmd 2 (by decide)
  have hthree := toNat_eq_iff cmd 3 (by decide)
  have hfour := toNat_eq_iff cmd 4 (by decide)
  have hfive := toNat_eq_iff cmd 5 (by decide)
  have hsix := toNat_eq_iff cmd 6 (by decide)
  push_cast at hzero htwo hthree hfour hfive hsix
  rw [waitingData, hcmd]
  simp only [hzero, htwo, hthree, hfour, hfive, hsix]
  rfl

theorem fixedLength_cases {cmd : Byte} {n : ℕ} (h : fixedLength cmd = some n) :
    cmd = 0 ∧ n = 19 ∨ cmd = 3 ∧ n = 9 ∨ cmd = 4 ∧ n = 7 ∨ cmd = 5 ∧ n = 5 := by
  rw [fixedLength] at h
  split_ifs at h with hzero hthree hfour hfive <;> simp_all

theorem waitingData_endsCommand {vs : Session} {cmd : Byte} {n : ℕ}
    (hcmd : vs.runningCmd = cmd.toNat) (hfixed : fixedLength cmd = some n) :
    EndsCommand n (vs.settings.fixed cmd) (vs.settings.sends cmd) waitingData vs := by
  rw [EndsCommand, waitingData_eq hcmd]
  obtain ⟨rfl, rfl⟩ | ⟨rfl, rfl⟩ | ⟨rfl, rfl⟩ | ⟨rfl, rfl⟩ := fixedLength_cases hfixed
  · exact setPixelFormat_endsCommand vs
  · exact framebufferUpdateRequest_endsCommand vs
  · exact ignoreCmd_endsCommand 7 (by decide) (by decide) vs
  · exact ignoreCmd_endsCommand 5 (by decide) (by decide) vs

theorem waitingData_setEncodings {vs : Session} (hcmd : vs.runningCmd = 2) :
    waitingData vs = setEncodings vs := by
  simp [waitingData, hcmd]

theorem waitingData_clientCutText {vs : Session} (hcmd : vs.runningCmd = 6) :
    waitingData vs = clientCutText vs := by
  simp [waitingData, hcmd]

/-- The number of encodings, with the padding before it. -/
theorem setEncodings_header {vs : Session} {padding : Byte} {n : BitVec 16} {rest : List Byte}
    (hget : getFromBuffer vs 3 = some (padding :: be16Bytes n, { vs with buffer := rest })) :
    setEncodings vs = some { vs with
      buffer := rest, nEncodings := n.toNat, state := .runningWaitingDataExtra } := by
  simp only [setEncodings, hget, be16Bytes, List.getD_cons_succ, List.getD_cons_zero]
  rw [be16_be16Bytes]

/-- The length of the text, with the padding before it. -/
theorem clientCutText_header {vs : Session} {padding : List Byte} {n : BitVec 32}
    {rest : List Byte} (hpadding : padding.length = 3)
    (hget : getFromBuffer vs 7 = some (padding ++ be32Bytes n, { vs with buffer := rest })) :
    clientCutText vs = some { vs with
      buffer := rest, ignoreDataN := n.toInt, state := .runningWaitingDataIgnore } := by
  obtain ⟨a, b, c, rfl⟩ := List.length_eq_three.1 hpadding
  simp only [clientCutText, hget, be32Bytes, List.cons_append, List.nil_append,
    List.getD_cons_succ, List.getD_cons_zero]
  rw [be32_be32Bytes]

theorem dataIgnore_endsCommand {vs : Session} (hpos : 0 < vs.ignoreDataN) :
    EndsCommand vs.ignoreDataN.toNat (fun _ => vs.settings) (fun _ => []) dataIgnore vs := by
  refine ⟨fun hget => by rw [dataIgnore, if_pos hpos, hget], fun text rest hget => ?_⟩
  refine ⟨{ vs with buffer := rest, state := .runningWaitingCmd, ignoreDataN := -1 }, ?_,
    rfl, rfl, rfl, rfl, (List.append_nil _).symm⟩
  simp only [dataIgnore, if_pos hpos, hget]

theorem dataExtra_endsCommand {vs : Session} (hcmd : vs.runningCmd = 2) :
    EndsCommand (vs.nEncodings.toNat * 4)
      (fun bin => vs.settings.choose (parseEncodings vs.nEncodings.toNat bin)) (fun _ => [])
      dataExtra vs := by
  refine ⟨fun hget => by rw [dataExtra, if_pos hcmd, hget], fun bin rest hget => ?_⟩
  obtain ⟨vs', hvs'⟩ : ∃ vs', dataExtra vs = some vs' := by
    simp only [dataExtra, if_pos hcmd, hget, Option.some.injEq, exists_eq']
  refine ⟨vs', hvs', ?_⟩
  simp only [dataExtra, if_pos hcmd, hget, Option.some.injEq] at hvs'
  subst hvs'
  exact ⟨rfl, rfl, rfl, rfl, (List.append_nil _).symm⟩

/-- A block that ends a command leaves the session at the next one. -/
theorem EndsCommand.exists_left {bs consumed : List Byte} {n : ℕ}
    {settings : List Byte → Settings} {sends : List Byte → List Output}
    {block : Session → Option Session} {vs : Session} {state : VncState}
    (h : EndsCommand n settings sends block vs) (hrc : vs.rc = true)
    (hbs : bs = consumed ++ vs.buffer) (hposition : Position vs consumed)
    (hasked : SentAsked bs vs)
    (hcommand : ∀ args, args.length = n → Reached (settings args) (consumed ++ args))
    (hsends : ∀ args u, args.length = n → consumed ++ args <+: bs →
      .framebufferUpdate u ∈ sends args → Asked bs u) :
    ∃ vs', block vs = some vs' ∧ Left bs state vs' := by
  apply exists_left_of_read n hrc hbs hposition hasked h.1
  intro args rest hlength hbs hget
  obtain ⟨vs', hblock, hended⟩ := h.2 args rest hget
  have hposition' : Position vs' (consumed ++ args) := by
    rw [Position, hended.state]
    dsimp only
    rw [hended.settings]
    exact hcommand args hlength
  refine ⟨vs', hblock, fun u hu => ?_,
    .inl ⟨hended.rc.trans hrc, consumed ++ args, hended.buffer ▸ hbs, hposition'⟩⟩
  rw [hended.sent, List.mem_append] at hu
  obtain hu | hu := hu
  · exact hasked u hu
  · exact hsends args u hlength ⟨rest, hbs.symm⟩ hu

theorem dataExtra_proceeds (bs : List Byte) : Proceeds bs .runningWaitingDataExtra dataExtra := by
  rintro vs hstate hrc ⟨consumed, hbs, hposition⟩ hasked
  have hextra := hposition
  rw [Position, hstate] at hextra
  obtain ⟨before, padding, n, hbefore, rfl, hcmd, hn⟩ := hextra
  refine (dataExtra_endsCommand hcmd).exists_left hrc hbs hposition hasked ?_ (by simp)
  intro bin hlength
  rw [hn, Int.toNat_natCast] at hlength ⊢
  have hmessage := hbefore.snoc (.setEncodings padding n bin hlength)
  rwa [Message.bytes, ← List.append_assoc] at hmessage

theorem dataIgnore_proceeds {bs : List Byte} (htexts : CutTexts bs) :
    Proceeds bs .runningWaitingDataIgnore dataIgnore := by
  rintro vs hstate hrc ⟨consumed, hbs, hposition⟩ hasked
  have hignore := hposition
  rw [Position, hstate] at hignore
  obtain ⟨before, padding, n, hbefore, hpadding, rfl, hn⟩ := hignore
  have hpos : 0 < n.toInt := htexts before padding n vs.buffer hbefore.atCommand hpadding hbs
  refine (dataIgnore_endsCommand (hn ▸ hpos)).exists_left hrc hbs hposition hasked ?_ (by simp)
  intro text hlength
  rw [hn, BitVec.toInt_eq_toNat_of_lt (BitVec.toInt_pos_iff.1 hpos.le), Int.toNat_natCast]
    at hlength
  have hmessage := hbefore.snoc (.clientCutText padding hpadding n text hlength)
  rwa [Message.bytes, ← List.append_assoc, ← List.append_assoc] at hmessage

theorem exists_header_eq {data : List Byte} (h : data.length = 7) :
    ∃ (padding : List Byte) (n : BitVec 32), padding.length = 3 ∧ data = padding ++ be32Bytes n := by
  obtain ⟨a, b, c, d, hdrop⟩ : ∃ a b c d, data.drop 3 = [a, b, c, d] := by
    have hlength : (data.drop 3).length = 4 := by
      rw [List.length_drop, h]
    generalize data.drop 3 = rest at hlength
    obtain ⟨a, rest, rfl⟩ := List.exists_cons_of_length_eq_add_one hlength
    obtain ⟨b, c, d, rfl⟩ := List.length_eq_three.1 (by simpa using hlength)
    exact ⟨a, b, c, d, rfl⟩
  refine ⟨data.take 3, be32 a b c d, by rw [List.length_take, h]; rfl, ?_⟩
  rw [be32Bytes_be32, ← hdrop, List.take_append_drop]

theorem mem_commands_cases {cmd : Byte} (h : cmd ∈ ([0, 2, 3, 4, 5, 6] : List Byte)) :
    cmd = 2 ∨ cmd = 6 ∨ ∃ n, fixedLength cmd = some n := by
  fin_cases h
  · exact .inr (.inr ⟨19, rfl⟩)
  · exact .inl rfl
  · exact .inr (.inr ⟨9, rfl⟩)
  · exact .inr (.inr ⟨7, rfl⟩)
  · exact .inr (.inr ⟨5, rfl⟩)
  · exact .inr (.inl rfl)

theorem waitingData_proceeds (bs : List Byte) : Proceeds bs .runningWaitingData waitingData := by
  rintro vs hstate hrc ⟨consumed, hbs, hposition⟩ hasked
  have hdata := hposition
  rw [Position, hstate] at hdata
  obtain ⟨before, cmd, hbefore, rfl, hcmd⟩ := hdata
  by_cases hknown : cmd ∈ ([0, 2, 3, 4, 5, 6] : List Byte)
  · rcases mem_commands_cases hknown with rfl | rfl | ⟨n, hfixed⟩
    · apply exists_left_of_read 3 hrc hbs hposition hasked
      · intro hget
        rw [waitingData_setEncodings hcmd, setEncodings, hget]
      · intro data rest hlength hbs hget
        obtain ⟨padding, a, b, rfl⟩ := List.length_eq_three.1 hlength
        rw [← be16Bytes_be16] at hget hbs
        refine ⟨_, (waitingData_setEncodings hcmd).trans (setEncodings_header hget), hasked,
          .inl ?_⟩
        exact ⟨hrc, _, hbs, before, padding, be16 a b, hbefore, by simp, hcmd, rfl⟩
    · apply exists_left_of_read 7 hrc hbs hposition hasked
      · intro hget
        rw [waitingData_clientCutText hcmd, clientCutText, hget]
      · intro data rest hlength hbs hget
        obtain ⟨padding, n, hpadding, rfl⟩ := exists_header_eq hlength
        refine ⟨_, (waitingData_clientCutText hcmd).trans (clientCutText_header hpadding hget),
          hasked, .inl ?_⟩
        exact ⟨hrc, _, hbs, before, padding, n, hbefore, hpadding, by simp, rfl⟩
    · refine (waitingData_endsCommand hcmd hfixed).exists_left hrc hbs hposition hasked ?_ ?_
      · intro args hlength
        have hmessage := hbefore.snoc (.fixed cmd args (hlength ▸ hfixed))
        rwa [Message.bytes, ← List.singleton_append, ← List.append_assoc] at hmessage
      · intro args u hlength hpre hu
        rw [Settings.sends] at hu
        split_ifs at hu with hthree
        · subst hthree
          obtain rfl := Option.some.inj hfixed
          obtain rfl := Output.framebufferUpdate.inj (List.mem_singleton.1 hu)
          refine .inl ⟨vs.settings, before, args, hbefore, hlength, ?_, rfl⟩
          rwa [List.append_assoc] at hpre
        · cases hu
  · refine ⟨{ vs with rc := false }, ?_, hasked, .inr ⟨rfl, hstate, .inr (.inr ?_)⟩⟩
    · rw [waitingData_eq hcmd]
      simp only [List.mem_cons, List.not_mem_nil, or_false, not_or] at hknown
      simp only [hknown, if_false]
    · refine ⟨before, vs.buffer, cmd, hbefore.atCommand, hknown, ?_⟩
      rw [hbs, List.append_assoc, List.singleton_append]

/-! ## One pass -/

theorem runBlocks_of_notMem {blocks : List (VncState × (Session → Option Session))}
    {vs : Session} (h : vs.state ∉ blocks.map Prod.fst) : runBlocks blocks vs = some vs := by
  induction blocks with
  | nil => rfl
  | cons p blocks ih =>
    rw [List.map_cons, List.mem_cons, not_or] at h
    rw [runBlocks, if_neg h.1]
    exact ih h.2

/-- A block that refuses what came leaves its state, which is not that of a later block. -/
theorem runBlocks_left {bs : List Byte} {blocks : List (VncState × (Session → Option Session))}
    (hproceeds : ∀ p ∈ blocks, Proceeds bs p.1 p.2) (hstates : (blocks.map Prod.fst).Nodup)
    {vs : Session} (haligned : Aligned bs vs) (hrc : vs.rc = true) (hasked : SentAsked bs vs) :
    ∃ vs', runBlocks blocks vs = some vs' ∧ SentAsked bs vs' ∧
      (vs'.rc = true ∧ Aligned bs vs' ∨
        vs'.rc = false ∧ vs'.state ∈ blocks.map Prod.fst ∧ Refused bs) := by
  induction blocks generalizing vs with
  | nil => exact ⟨vs, rfl, hasked, .inl ⟨hrc, haligned⟩⟩
  | cons p blocks ih =>
    have hproceeds' : ∀ q ∈ blocks, Proceeds bs q.1 q.2 := fun q hq =>
      hproceeds q (List.mem_cons_of_mem p hq)
    rw [List.map_cons, List.nodup_cons] at hstates
    have hlater : ∀ {vs : Session}, vs.rc = true → Aligned bs vs → SentAsked bs vs →
        ∃ vs', runBlocks blocks vs = some vs' ∧ SentAsked bs vs' ∧
          (vs'.rc = true ∧ Aligned bs vs' ∨
            vs'.rc = false ∧ vs'.state ∈ (p :: blocks).map Prod.fst ∧ Refused bs) := by
      intro vs hrc haligned hasked
      obtain ⟨vs', hrun, hasked', hvs' | ⟨hrc', hstate', hrefused⟩⟩ :=
        ih hproceeds' hstates.2 haligned hrc hasked
      · exact ⟨vs', hrun, hasked', .inl hvs'⟩
      · exact ⟨vs', hrun, hasked', .inr ⟨hrc', List.mem_cons_of_mem p.1 hstate', hrefused⟩⟩
    by_cases hstate : vs.state = p.1
    · obtain ⟨vs', hblock, hasked', hleft⟩ :=
        hproceeds p List.mem_cons_self vs hstate hrc haligned hasked
      rw [runBlocks, if_pos hstate, hblock, Option.bind_some]
      obtain ⟨hrc', haligned'⟩ | ⟨hrc', hstate', hrefused⟩ := hleft
      · exact hlater hrc' haligned' hasked'
      · refine ⟨vs', runBlocks_of_notMem (hstate' ▸ hstates.1), hasked', .inr ⟨hrc', ?_, hrefused⟩⟩
        rw [hstate']
        exact List.mem_cons_self
    · rw [runBlocks, if_neg hstate]
      exact hlater hrc haligned hasked

theorem handshakeBlocks_proceed (bs : List Byte) : ∀ p ∈ handshakeBlocks, Proceeds bs p.1 p.2 := by
  simp only [handshakeBlocks, List.forall_mem_cons]
  exact ⟨handshakeServerSend_proceeds bs, handshakeClientResp_proceeds bs,
    securityServer_proceeds bs, securityClientResp_proceeds bs, clientInitialises_proceeds bs,
    serverInitialises_proceeds bs, List.forall_mem_nil _⟩

theorem commandBlocks_proceed {bs : List Byte} (htexts : CutTexts bs) :
    ∀ p ∈ commandBlocks, Proceeds bs p.1 p.2 := by
  simp only [commandBlocks, List.forall_mem_cons]
  exact ⟨waitingCmd_proceeds bs, waitingData_proceeds bs, dataIgnore_proceeds htexts,
    dataExtra_proceeds bs, List.forall_mem_nil _⟩

theorem notMem_commandBlocks :
    ∀ state ∈ handshakeBlocks.map Prod.fst, state ∉ commandBlocks.map Prod.fst := by
  decide

@[simp] theorem updateFrame_state (vs : Session) (asked : Bool) :
    (updateFrame vs asked).state = vs.state := by
  cases asked <;> rfl

@[simp] theorem updateFrame_rc (vs : Session) (asked : Bool) :
    (updateFrame vs asked).rc = vs.rc := by
  cases asked <;> rfl

theorem Aligned.state_ne {bs : List Byte} {vs : Session} (h : Aligned bs vs) :
    vs.state ≠ .terminate := by
  obtain ⟨consumed, -, hposition⟩ := h
  intro hstate
  rw [Position, hstate] at hposition
  exact hposition

theorem Aligned.updateFrame {bs : List Byte} {vs : Session} (h : Aligned bs vs) (asked : Bool) :
    Aligned bs (updateFrame vs asked) := by
  cases asked <;> exact h

theorem Aligned.receive {bs : List Byte} {vs : Session} (h : Aligned bs vs) (data : List Byte) :
    Aligned (bs ++ data) { vs with buffer := vs.buffer ++ data } := by
  obtain ⟨consumed, rfl, hposition⟩ := h
  exact ⟨consumed, by rw [List.append_assoc], hposition⟩

theorem SentAsked.receive {bs : List Byte} {vs : Session} (h : SentAsked bs vs)
    (data : List Byte) : SentAsked (bs ++ data) vs :=
  fun u hu => (h u hu).of_isPrefix (List.prefix_append bs data)

/-- Continuous updates are asked for by the settings, which are those of a place in the stream. -/
theorem Aligned.reached {bs : List Byte} {vs : Session} (h : Aligned bs vs)
    (hcontinuous : vs.continuousUpdates = true) :
    ∃ before, Reached vs.settings before ∧ before <+: bs := by
  obtain ⟨consumed, rfl, hposition⟩ := h
  have hinitial : vs.settings ≠ .initial := by
    intro hinitial
    have hoff := congrArg Settings.continuousUpdates hinitial
    exact absurd (hcontinuous.symm.trans hoff) (by decide)
  cases hstate : vs.state <;> rw [Position, hstate] at hposition
  case runningWaitingCmd => exact ⟨consumed, hposition, List.prefix_append _ _⟩
  case runningWaitingData =>
    obtain ⟨before, cmd, hbefore, rfl, -⟩ := hposition
    exact ⟨before, hbefore, by simp⟩
  case runningWaitingDataExtra =>
    obtain ⟨before, padding, n, hbefore, rfl, -⟩ := hposition
    exact ⟨before, hbefore, by simp⟩
  case runningWaitingDataIgnore =>
    obtain ⟨before, padding, n, hbefore, -, rfl, -⟩ := hposition
    exact ⟨before, hbefore, by simp⟩
  case terminate => exact hposition.elim
  all_goals exact absurd hposition.2 hinitial

theorem SentAsked.updateFrame {bs : List Byte} {vs : Session} {asked : Bool}
    (h : SentAsked bs vs)
    (hfull : asked = true → Asked bs (fullUpdate vs.encodings)) :
    SentAsked bs (updateFrame vs asked) := by
  cases asked with
  | false => exact h
  | true => exact h.update rfl (hfull rfl)

/-- The session is where it should be in the bytes that came, or has refused them. -/
def Follows (bs : List Byte) (vs : Session) : Prop :=
  vs.rc = true ∧ Aligned bs vs ∨ vs.state = .terminate ∧ Refused bs

theorem pass_eq_some {vs vs₁ vs₂ : Session} {data : List Byte}
    (hhandshake : runBlocks handshakeBlocks { vs with buffer := vs.buffer ++ data } = some vs₁)
    (hcommand : runBlocks commandBlocks
      (updateFrame vs₁ (data.isEmpty && vs.continuousUpdates)) = some vs₂) :
    pass vs data = some (if vs₂.rc then vs₂ else { vs₂ with state := .terminate }) := by
  simp only [pass, hhandshake, Option.bind_eq_bind, Option.bind_some, hcommand]
  rfl

/-- The handshake leaves the settings as they are. -/
theorem handshakeBlocks_settings : ∀ p ∈ handshakeBlocks, ∀ vs vs' : Session,
    p.2 vs = some vs' → vs'.settings = vs.settings := by
  simp only [handshakeBlocks, List.forall_mem_cons, List.not_mem_nil, false_imp_iff, forall_true_iff,
    and_true]
  refine ⟨?_, ?_, ?_, ?_, ?_, ?_⟩ <;> intro vs vs' h
  · exact Option.some.inj h ▸ rfl
  · rw [handshakeClientResp] at h
    obtain hget | ⟨data, rest, -, -, hget⟩ := getFromBuffer_cases vs 12 <;> rw [hget] at h
    · exact Option.some.inj h ▸ rfl
    · dsimp only at h
      split_ifs at h <;> exact Option.some.inj h ▸ rfl
  · exact Option.some.inj h ▸ rfl
  · rw [securityClientResp] at h
    obtain hget | ⟨data, rest, -, -, hget⟩ := getFromBuffer_cases vs 1 <;> rw [hget] at h
    · exact Option.some.inj h ▸ rfl
    · dsimp only at h
      split_ifs at h <;> exact Option.some.inj h ▸ rfl
  · rw [clientInitialises] at h
    obtain hget | ⟨data, rest, -, -, hget⟩ := getFromBuffer_cases vs 1 <;> rw [hget] at h
    · exact Option.some.inj h ▸ rfl
    · exact Option.some.inj h ▸ rfl
  · exact Option.some.inj h ▸ rfl

theorem runBlocks_settings {blocks : List (VncState × (Session → Option Session))}
    (hblocks : ∀ p ∈ blocks, ∀ vs vs' : Session, p.2 vs = some vs' → vs'.settings = vs.settings)
    {vs vs' : Session} (h : runBlocks blocks vs = some vs') : vs'.settings = vs.settings := by
  induction blocks generalizing vs with
  | nil => exact Option.some.inj h ▸ rfl
  | cons p blocks ih =>
    rw [List.forall_mem_cons] at hblocks
    rw [runBlocks] at h
    split_ifs at h with hstate
    · obtain ⟨vs₁, hblock, hrest⟩ := Option.bind_eq_some_iff.1 h
      exact (ih hblocks.2 hrest).trans (hblocks.1 vs vs₁ hblock)
    · exact ih hblocks.2 h

theorem pass_follows {bs data : List Byte} {vs : Session} (htexts : CutTexts (bs ++ data))
    (hrc : vs.rc = true) (haligned : Aligned bs vs) (hasked : SentAsked bs vs) :
    ∃ vs', pass vs data = some vs' ∧ SentAsked (bs ++ data) vs' ∧ Follows (bs ++ data) vs' := by
  have hreceived := haligned.receive data
  obtain ⟨vs₁, hhandshake, hasked₁, hleft⟩ := runBlocks_left (handshakeBlocks_proceed (bs ++ data))
    (by decide) hreceived hrc (hasked.receive data)
  have hasked₁ : SentAsked (bs ++ data)
      (updateFrame vs₁ (data.isEmpty && vs.continuousUpdates)) := by
    apply hasked₁.updateFrame
    intro hfull
    have hcontinuous := (Bool.and_eq_true_iff.1 hfull).2
    obtain ⟨before, hbefore, hpre⟩ := haligned.reached hcontinuous
    have hencodings : vs₁.encodings = vs.encodings :=
      congrArg Settings.encodings (runBlocks_settings handshakeBlocks_settings hhandshake)
    exact .inr ⟨vs.settings, before, hbefore, hpre.trans (List.prefix_append bs data),
      hcontinuous, by rw [hencodings]; rfl⟩
  obtain ⟨hrc₁, haligned₁⟩ | ⟨hrc₁, hstate₁, hrefused⟩ := hleft
  · have haligned₁ := haligned₁.updateFrame (data.isEmpty && vs.continuousUpdates)
    rw [← updateFrame_rc vs₁ (data.isEmpty && vs.continuousUpdates)] at hrc₁
    obtain ⟨vs₂, hcommand, hasked₂, hleft⟩ :=
      runBlocks_left (commandBlocks_proceed htexts) (by decide) haligned₁ hrc₁ hasked₁
    refine ⟨_, pass_eq_some hhandshake hcommand, ?_⟩
    obtain ⟨hrc₂, haligned₂⟩ | ⟨hrc₂, -, hrefused⟩ := hleft
    · rw [if_pos hrc₂]
      exact ⟨hasked₂, .inl ⟨hrc₂, haligned₂⟩⟩
    · rw [if_neg (by rw [hrc₂]; decide)]
      exact ⟨hasked₂, .inr ⟨rfl, hrefused⟩⟩
  · have hskip : (updateFrame vs₁ (data.isEmpty && vs.continuousUpdates)).state ∉
        commandBlocks.map Prod.fst := by
      rw [updateFrame_state]
      exact notMem_commandBlocks _ hstate₁
    refine ⟨_, pass_eq_some hhandshake (runBlocks_of_notMem hskip), ?_⟩
    rw [if_neg (by rw [updateFrame_rc, hrc₁]; decide)]
    exact ⟨hasked₁, .inr ⟨rfl, hrefused⟩⟩

/-! ## All runs -/

theorem received_append (works : List (Option (List Byte))) (work : Option (List Byte)) :
    received (works ++ [work]) = received works ++ work.getD [] := by
  simp [received]

theorem session_append (works : List (Option (List Byte))) (work : Option (List Byte)) :
    session (works ++ [work]) = (session works).bind (handle · work) := by
  simp only [session, List.foldlM_append, Option.bind_eq_bind, Option.bind_assoc,
    List.foldlM_cons, List.foldlM_nil]
  simp

/-- The session follows the bytes that came, or was asked to end, and has sent no other updates than
were asked for. -/
def Serves (works : List (Option (List Byte))) (vs : Session) : Prop :=
  SentAsked (received works) vs ∧
    (Follows (received works) vs ∨ vs.state = .terminate ∧ none ∈ works)

theorem handle_serves {works : List (Option (List Byte))} {vs : Session} (hserves : Serves works vs)
    (work : Option (List Byte)) (htexts : CutTexts (received (works ++ [work]))) :
    ∃ vs', handle vs work = some vs' ∧ Serves (works ++ [work]) vs' := by
  obtain ⟨hasked, hserves⟩ := hserves
  rw [received_append] at htexts
  cases work with
  | none =>
    refine ⟨_, rfl, ?_, .inr ⟨rfl, by simp⟩⟩
    rw [received_append]
    exact hasked.receive []
  | some data =>
    simp only [Serves, received_append, handle]
    obtain (⟨hrc, haligned⟩ | ⟨hstate, hrefused⟩) | ⟨hstate, hnone⟩ := hserves
    · rw [if_neg haligned.state_ne]
      obtain ⟨vs', hpass, hasked', hfollows⟩ := pass_follows htexts hrc haligned hasked
      exact ⟨vs', hpass, hasked', .inl hfollows⟩
    · exact ⟨vs, if_pos hstate, hasked.receive data, .inl (.inr ⟨hstate, hrefused.append data⟩)⟩
    · exact ⟨vs, if_pos hstate, hasked.receive data,
        .inr ⟨hstate, List.mem_append_left _ hnone⟩⟩

theorem session_serves {works : List (Option (List Byte))} (htexts : CutTexts (received works)) :
    ∃ vs, session works = some vs ∧ Serves works vs := by
  induction works using List.reverseRecOn with
  | nil =>
    have haligned : Aligned [] Session.init := ⟨[], rfl, rfl, rfl⟩
    have hunasked : SentAsked [] Session.init := fun u hu => absurd hu List.not_mem_nil
    obtain ⟨vs, hpass, hasked, hfollows⟩ := pass_follows htexts rfl haligned hunasked
    exact ⟨vs, by simp [session, hpass], hasked, .inl hfollows⟩
  | append_singleton works work ih =>
    have hbefore : CutTexts (received works) := by
      rw [received_append] at htexts
      exact htexts.of_isPrefix (List.prefix_append _ _)
    obtain ⟨vs, hsession, hserves⟩ := ih hbefore
    rw [session_append, hsession, Option.bind_some]
    exact handle_serves hserves work htexts

end MyIp.Vnc
