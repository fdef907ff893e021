import MyIp.Foundations.Run
import MyIp.Sctp.Handshake

/-! # Verification tags

The program as a machine that takes one packet after the other (`step`). What it announced in which
INIT ACK, and with which cookie an association was opened, is told by the history of a run.

A packet for an association that exists is first cut into its chunks (`walk`), which does not depend
on the associations; `chunkLoop_walk` then says what the loop makes of them. The tag of the packet
is never looked at, and the tag of the reply is that of the last chunk that sets one: the place
holder stays when there is none. -/

namespace MyIp.Sctp
set_option autoImplicit false

open Bytes EventMachine

/-! ## Runs -/

abbrev Input := Oracle × Arrival

abbrev SctpMove := Move Sessions Input Outcome

def step (cfg : Config) (sessions : Sessions) (x : Input) : Option (Sessions × Outcome) :=
  let outcome := receive cfg x.1 sessions x.2
  some (outcome.sessions, outcome)

/-- The association that a packet is for. -/
def addressed (pkt : Arrival) : Option (BitVec 64) :=
  match readHeader (.ofBytes pkt.data) with
  | .error _ => none
  | .ok (h, _) => some (getHash pkt.srcAddr h.sourcePort h.destinationPort)

/-- What an INIT ACK that was sent says: its cookie and the tag. -/
def Action.initAck? : Action → Option (List Byte × BitVec 32)
  | .announced cookie tag => some (cookie, tag)
  | _ => none

def Action.opened? : Action → Option Session
  | .newSession s => some s
  | _ => none

def issued (tr : List SctpMove) : List (List Byte × BitVec 32) :=
  (tr.filter fun m => m.output.reply.isSome).flatMap fun m =>
    m.output.actions.filterMap Action.initAck?

/-- The association under `hash` as it was when it was set up last. -/
def lastOpened (tr : List SctpMove) (hash : BitVec 64) : Option Session :=
  ((tr.flatMap fun m => m.output.actions.filterMap Action.opened?).filter fun s =>
    getHash s.theirAddr s.theirPort s.myPort = hash).getLast?

/-- `tag` was announced in the INIT ACK with whose cookie the association was set up. -/
def announced (cfg : Config) (tr : List SctpMove) (hash : BitVec 64) (tag : BitVec 32) : Bool :=
  (lastOpened tr hash).any fun s =>
    (issued tr).contains (generateStateCookie cfg s.theirAddr s.theirPort s.myPort
      s.theirVerificationTag s.theirTsn s.myTsn, tag)

/-- The tag in the header of a packet. -/
def headerTag (packet : List Byte) : Option (BitVec 32) :=
  match readHeader (.ofBytes packet) with
  | .error _ => none
  | .ok (h, _) => some h.verificationTag

/-- The reply on an association has the tag of the peer, and only a packet with the announced tag
changes or removes it. -/
def Disciplined (cfg : Config) (pre : List SctpMove) (m : SctpMove) : Prop :=
  ∀ hash s, m.before hash = some s →
    (addressed m.event.2 = some hash →
      ∀ reply, m.output.reply = some reply → headerTag reply = some s.theirVerificationTag) ∧
    (m.output.sessions hash ≠ some s → addressed m.event.2 = some hash ∧
      ∃ tag, headerTag m.event.2.data = some tag ∧ announced cfg pre hash tag = true)

/-! ## The chunks of a packet -/

/-- How the loop over the chunks ends. -/
inductive End
  | done | short | aborted | thrown
  deriving DecidableEq, Repr

/-- The fields of a chunk are there. -/
def readable (ctx : Ctx) (type : Byte) (chunk : BufferIn) : Bool :=
  if type = 0 then !ctx.hasNewData || (readData chunk).isOk
  else if type = 1 then (readInit chunk).isOk
  else if type = 10 then
    (chunkCookieEcho ctx.cfg ctx.theirAddr ctx.sourcePort ctx.destinationPort chunk).isOk
  else true

theorem exists_ok_of_isOk {α : Type} {x : Except String α} (h : x.isOk = true) :
    ∃ a, x = .ok a := by
  cases x with
  | error e => cases h
  | ok a => exact ⟨a, rfl⟩

theorem exists_error_of_isOk {α : Type} {x : Except String α} (h : x.isOk = false) :
    ∃ e, x = .error e := by
  cases x with
  | error e => exact ⟨e, rfl⟩
  | ok a => cases h

theorem readable_data {ctx : Ctx} (hlistener : ctx.hasNewData = true) (chunk : BufferIn) :
    readable ctx 0 chunk = (readData chunk).isOk := by
  simp [readable, hlistener]

/-- The chunks that are handled, for a packet whose association exists, and the end. -/
def walk (ctx : Ctx) : ℕ → BufferIn → List (Byte × BufferIn) × End
  | 0, _ => ([], .done)
  | turns + 1, b =>
    if b.endReached then ([], .done)
    else
      match readChunk b with
      | .error _ => ([], .thrown)
      | .ok (_, _, none, _) => ([], .short)
      | .ok (type, len, some chunk, next) =>
        if type = 6 then ([], .aborted)
        else if readable ctx type chunk then
          match skipPadding len next with
          | .error _ => ([(type, chunk)], .thrown)
          | .ok next => ((type, chunk) :: (walk ctx turns next).1, (walk ctx turns next).2)
        else ([], .thrown)

def known (x : Byte × BufferIn) : Bool := x.1 = 0 || x.1 = 1 || x.1 = 4 || x.1 = 10

/-- A chunk that is refused: the association is removed. -/
def refused (ctx : Ctx) (x : Byte × BufferIn) : Bool :=
  if x.1 = 0 then !ctx.hasNewData
  else if x.1 = 1 then !ctx.listener.isSome
  else if x.1 = 10 then
    match chunkCookieEcho ctx.cfg ctx.theirAddr ctx.sourcePort ctx.destinationPort x.2 with
    | .error _ => false
    | .ok (cookieOk, _) => !(cookieOk && ctx.hasNewSession)
  else false

/-- DATA with the TSN that the association expects. -/
def advances (ctx : Ctx) (s : Session) (x : Byte × BufferIn) : Bool :=
  x.1 = 0 && ctx.hasNewData &&
    match readData x.2 with
    | .error _ => false
    | .ok data => data.tsn = s.theirTsn

/-- The tag that a chunk puts into the reply. -/
def tagOf (ctx : Ctx) (theirTag : BitVec 32) (x : Byte × BufferIn) : Option (BitVec 32) :=
  if x.1 = 0 then if ctx.hasNewData then some theirTag else none
  else if x.1 = 1 then
    match readInit x.2 with
    | .error _ => none
    | .ok init => some init.initiateTag
  else if x.1 = 10 then
    match chunkCookieEcho ctx.cfg ctx.theirAddr ctx.sourcePort ctx.destinationPort x.2 with
    | .error _ => none
    | .ok (_, tag, _) => some tag
  else none

/-- What a chunk does to the association `s` and to the reply. -/
structure Effect (ctx : Ctx) (s : Session) (x : Byte × BufferIn) (w w' : Work) : Prop where
  terminateSession : w'.terminateSession = (w.terminateSession || refused ctx x)
  sendReply : w'.sendReply = (w.sendReply && known x)
  session : ∃ s', w'.sessions ctx.hash = some s' ∧
    s'.theirVerificationTag = s.theirVerificationTag ∧ (advances ctx s x = false → s' = s)
  reply : ∀ h rest, w.reply = Header.bytes h ++ rest →
    ∃ rest', w'.reply = Header.bytes { h with verificationTag :=
      (tagOf ctx s.theirVerificationTag x).getD h.verificationTag } ++ rest'

theorem add_setTag_reply {w : Work} {h : Header} {rest : List Byte} (hw : w.reply = h.bytes ++ rest)
    (out : List Byte) (tag : BitVec 32) :
    ((w.add out).setTag tag).reply =
      Header.bytes { h with verificationTag := tag } ++ (rest ++ out) := by
  simp only [Work.add, Work.setTag, hw, List.append_assoc]
  exact addNetLongAt_header_tag h (rest ++ out) tag

theorem setTag_add_reply {w : Work} {h : Header} {rest : List Byte} (hw : w.reply = h.bytes ++ rest)
    (out : List Byte) (tag : BitVec 32) :
    ((w.setTag tag).add out).reply =
      Header.bytes { h with verificationTag := tag } ++ (rest ++ out) := by
  simp only [Work.add, Work.setTag, hw, addNetLongAt_header_tag, List.append_assoc]

section Branches
variable {ctx : Ctx} {position : ℕ} {chunk : BufferIn} {w w' : Work} {s : Session}
  {x : Byte × BufferIn}

/-- A chunk that leaves the associations alone. -/
theorem Effect.of_sessions_eq (hs : w.sessions ctx.hash = some s)
    (hsessions : w'.sessions = w.sessions)
    (hterminate : w'.terminateSession = (w.terminateSession || refused ctx x))
    (hsend : w'.sendReply = (w.sendReply && known x))
    (hreply : ∀ h rest, w.reply = Header.bytes h ++ rest →
      ∃ rest', w'.reply = Header.bytes { h with verificationTag :=
        (tagOf ctx s.theirVerificationTag x).getD h.verificationTag } ++ rest') :
    Effect ctx s x w w' where
  terminateSession := hterminate
  sendReply := hsend
  session := ⟨s, by rw [hsessions, hs], rfl, fun _ => rfl⟩
  reply := hreply

theorem onData_effect (hs : w.sessions ctx.hash = some s) (hread : readable ctx 0 chunk = true) :
    ∃ w', onData ctx chunk w = (w', .go) ∧ Effect ctx s (0, chunk) w w' := by
  by_cases hlistener : ctx.hasNewData = true
  · rw [readable_data hlistener] at hread
    obtain ⟨data, hdata⟩ := exists_ok_of_isOk hread
    have hrefused : refused ctx (0, chunk) = false := by simp [refused, hlistener]
    have htag : tagOf ctx s.theirVerificationTag (0, chunk) = some s.theirVerificationTag := by
      simp [tagOf, hlistener]
    by_cases htsn : data.tsn = s.theirTsn
    · obtain ⟨out, hout⟩ := onData_expected hlistener hs hdata htsn
      have hadvances : advances ctx s (0, chunk) = true := by
        simp [advances, hlistener, hdata, htsn]
      refine ⟨_, hout, ⟨by rw [hrefused, Bool.or_false]; rfl, (Bool.and_true _).symm, ?_, ?_⟩⟩
      · refine ⟨{ s with theirTsn := s.theirTsn + 1 }, Function.update_self _ _ _, rfl, ?_⟩
        rw [hadvances]
        exact fun h => absurd h (by decide)
      · intro h rest hreply
        rw [htag]
        exact ⟨rest ++ out, add_setTag_reply hreply out _⟩
    · obtain ⟨out, hout⟩ := onData_other hlistener hs hdata htsn
      refine ⟨_, hout, Effect.of_sessions_eq hs rfl (by rw [hrefused, Bool.or_false]; rfl)
        (Bool.and_true _).symm ?_⟩
      intro h rest hreply
      rw [htag]
      exact ⟨rest ++ out, add_setTag_reply hreply out _⟩
  · have hrefused : refused ctx (0, chunk) = true := by simp [refused, hlistener]
    have htag : tagOf ctx s.theirVerificationTag (0, chunk) = none := by simp [tagOf, hlistener]
    refine ⟨(w.add chunkGenAbort).terminate, by rw [onData, if_neg hlistener],
      Effect.of_sessions_eq hs rfl (by rw [hrefused, Bool.or_true]; rfl) (Bool.and_true _).symm ?_⟩
    intro h rest hreply
    rw [htag]
    exact ⟨rest ++ chunkGenAbort, by simp [Work.terminate, Work.add, hreply]⟩

theorem onInit_effect (hs : w.sessions ctx.hash = some s) (hread : readable ctx 1 chunk = true) :
    ∃ w', onInit ctx position chunk w = (w', .go) ∧ Effect ctx s (1, chunk) w w' := by
  obtain ⟨init, hinit⟩ : ∃ init, readInit chunk = .ok init := exists_ok_of_isOk hread
  have htag : tagOf ctx s.theirVerificationTag (1, chunk) = some init.initiateTag := by
    simp [tagOf, hinit]
  rw [onInit, hinit]
  by_cases hlistener : ctx.listener.isSome = true
  · have hrefused : refused ctx (1, chunk) = false := by simp [refused, hlistener]
    simp only [if_pos hlistener]
    refine ⟨_, rfl, Effect.of_sessions_eq hs rfl (by rw [hrefused, Bool.or_false]; rfl)
      (Bool.and_true _).symm ?_⟩
    intro h rest hreply
    rw [htag]
    exact ⟨_, setTag_add_reply hreply _ _⟩
  · have hrefused : refused ctx (1, chunk) = true := by simp [refused, hlistener]
    simp only [if_neg hlistener]
    refine ⟨_, rfl, Effect.of_sessions_eq hs rfl (by rw [hrefused, Bool.or_true]; rfl)
      (Bool.and_true _).symm ?_⟩
    intro h rest hreply
    rw [htag]
    exact ⟨_, setTag_add_reply hreply _ _⟩

theorem onCookieEcho_effect (hs : w.sessions ctx.hash = some s)
    (hread : readable ctx 10 chunk = true) :
    ∃ w', onCookieEcho ctx chunk w = (w', .go) ∧ Effect ctx s (10, chunk) w w' := by
  obtain ⟨⟨cookieOk, tag, theirTsn, myTsn⟩, hecho⟩ : ∃ r, chunkCookieEcho ctx.cfg ctx.theirAddr
      ctx.sourcePort ctx.destinationPort chunk = .ok r := exists_ok_of_isOk hread
  have htag : tagOf ctx s.theirVerificationTag (10, chunk) = some tag := by simp [tagOf, hecho]
  have hrefused : refused ctx (10, chunk) = !(cookieOk && ctx.hasNewSession) := by
    simp [refused, hecho]
  rw [onCookieEcho, hecho]
  cases hok : (cookieOk && ctx.hasNewSession) with
  | true =>
    simp only [hs, hok, if_true]
    refine ⟨_, rfl, Effect.of_sessions_eq hs rfl
      (by rw [hrefused, hok]; exact (Bool.or_false _).symm) (Bool.and_true _).symm ?_⟩
    intro h rest hreply
    rw [htag]
    exact ⟨_, add_setTag_reply hreply _ _⟩
  | false =>
    simp only [hok, Bool.false_eq_true, if_false]
    refine ⟨_, rfl, Effect.of_sessions_eq hs rfl
      (by rw [hrefused, hok]; exact (Bool.or_true _).symm) (Bool.and_true _).symm ?_⟩
    intro h rest hreply
    rw [htag]
    exact ⟨_, add_setTag_reply hreply _ _⟩

/-- One chunk of a packet for an association that exists. -/
theorem onChunk_effect {type : Byte} (hs : w.sessions ctx.hash = some s) (habort : type ≠ 6)
    (hread : readable ctx type chunk = true) :
    ∃ w', onChunk ctx position type chunk w = (w', .go) ∧ Effect ctx s (type, chunk) w w' := by
  rw [onChunk]
  split
  · rename_i htype
    subst htype
    exact onData_effect hs hread
  · rename_i hdata
    split
    · rename_i htype
      subst htype
      exact onInit_effect hs hread
    · rename_i hinit
      split
      · rename_i htype
        subst htype
        refine ⟨_, rfl, Effect.of_sessions_eq hs rfl (Bool.or_false _).symm
          (Bool.and_true _).symm ?_⟩
        intro h rest hreply
        exact ⟨rest ++ chunkHeartbeatRequest chunk, by simp [Work.add, hreply, tagOf]⟩
      · rename_i hheartbeat
        split
        · rename_i htype
          subst htype
          exact onCookieEcho_effect hs hread
        · rename_i hecho
          refine ⟨_, rfl, Effect.of_sessions_eq hs rfl ?_ ?_ ?_⟩
          · rw [refused, if_neg hdata, if_neg hinit, if_neg hecho, Bool.or_false]
          · simp only [known, decide_eq_false hdata, decide_eq_false hinit,
              decide_eq_false hheartbeat, decide_eq_false hecho, Bool.or_self, Bool.and_false]
          · intro h rest hreply
            rw [tagOf, if_neg hdata, if_neg hinit, if_neg hecho]
            exact ⟨rest, hreply⟩

/-- A chunk without its fields, other than DATA. -/
theorem onChunk_unreadable_of_ne {type : Byte} (htype : type ≠ 0)
    (hread : readable ctx type chunk = false) :
    onChunk ctx position type chunk w = (w, .thrown) := by
  rw [readable, if_neg htype] at hread
  rw [onChunk, if_neg htype]
  split at hread
  · rename_i hinit
    obtain ⟨what, herror⟩ := exists_error_of_isOk hread
    rw [if_pos hinit, onInit, herror]
  · rename_i hinit
    split at hread
    · rename_i hecho
      subst hecho
      obtain ⟨what, herror⟩ := exists_error_of_isOk hread
      rw [if_neg hinit, if_neg (by decide), if_neg (by decide), if_pos rfl, onCookieEcho, herror]
    · cases hread

/-- A chunk without its fields, for an association that exists. -/
theorem onChunk_unreadable {type : Byte} (hs : w.sessions ctx.hash = some s)
    (hread : readable ctx type chunk = false) :
    onChunk ctx position type chunk w = (w, .thrown) := by
  by_cases htype : type = 0
  · subst htype
    have hlistener : ctx.hasNewData = true := by
      by_contra hnot
      simp [readable, hnot] at hread
    rw [readable_data hlistener] at hread
    obtain ⟨what, hdata⟩ := exists_error_of_isOk hread
    rw [onChunk, if_pos rfl, onData, if_pos hlistener, hs]
    simp only [chunkData_error hdata]
  · exact onChunk_unreadable_of_ne htype hread

end Branches

/-! ## The loop -/

/-- What the chunks of a packet do together. -/
structure Summary (ctx : Ctx) (s : Session) (v : List (Byte × BufferIn) × End) (w w' : Work) :
    Prop where
  terminateSession : w'.terminateSession =
    (w.terminateSession || (v.2 == .short || v.2 == .aborted) || v.1.any (refused ctx))
  sendReply : w'.sendReply = (w.sendReply && v.2 != .aborted && v.1.all known)
  session : ∃ s', w'.sessions ctx.hash = some s' ∧
    ((∀ x ∈ v.1, advances ctx s x = false) → s' = s)
  reply : ∀ h rest, w.reply = Header.bytes h ++ rest →
    ∃ rest', w'.reply = Header.bytes { h with verificationTag :=
      (v.1.filterMap (tagOf ctx s.theirVerificationTag)).getLastD h.verificationTag } ++ rest'

section Loop
variable {ctx : Ctx} {s : Session} {w : Work}

/-- The end of the loop. -/
theorem Summary.of_end (hs : w.sessions ctx.hash = some s) {e : End} {w' : Work}
    (hsessions : w'.sessions = w.sessions) (hreply : w'.reply = w.reply)
    (hterminate : w'.terminateSession = (w.terminateSession || (e == .short || e == .aborted)))
    (hsend : w'.sendReply = (w.sendReply && e != .aborted)) : Summary ctx s ([], e) w w' where
  terminateSession := by rw [hterminate, List.any_nil, Bool.or_false]
  sendReply := by rw [hsend, List.all_nil, Bool.and_true]
  session := ⟨s, by rw [hsessions, hs], fun _ => rfl⟩
  reply := by
    intro h rest hw
    exact ⟨rest, hreply.trans hw⟩

theorem Summary.cons {x : Byte × BufferIn} {v : List (Byte × BufferIn) × End} {w₁ w' : Work}
    (heffect : Effect ctx s x w w₁)
    (hrest : ∀ s₁, w₁.sessions ctx.hash = some s₁ → Summary ctx s₁ v w₁ w') :
    Summary ctx s (x :: v.1, v.2) w w' := by
  obtain ⟨s₁, hs₁, htag, hadvances⟩ := heffect.session
  obtain ⟨hterminate, hsend, ⟨s', hs', hkept⟩, hreply⟩ := hrest s₁ hs₁
  refine ⟨?_, ?_, ⟨s', hs', ?_⟩, ?_⟩
  · rw [hterminate, heffect.terminateSession, List.any_cons]
    ac_rfl
  · rw [hsend, heffect.sendReply, List.all_cons]
    ac_rfl
  · intro hnone
    obtain rfl := hadvances (hnone x List.mem_cons_self)
    exact hkept fun y hy => hnone y (List.mem_cons_of_mem x hy)
  · intro h rest hw
    obtain ⟨rest₁, hw₁⟩ := heffect.reply h rest hw
    obtain ⟨rest', hw'⟩ := hreply _ rest₁ hw₁
    refine ⟨rest', ?_⟩
    rw [hw', htag, List.filterMap_cons]
    cases tagOf ctx s.theirVerificationTag x with
    | none => rfl
    | some tag => rw [List.getLastD_cons]; rfl

theorem chunkLoop_walk (hs : w.sessions ctx.hash = some s) (turns : ℕ) (b : BufferIn) :
    (chunkLoop ctx turns b w).2 = ((walk ctx turns b).2 == .thrown) ∧
      Summary ctx s (walk ctx turns b) w (chunkLoop ctx turns b w).1 := by
  induction turns generalizing b w s with
  | zero =>
    exact ⟨rfl, Summary.of_end hs rfl rfl (Bool.or_false _).symm (Bool.and_true _).symm⟩
  | succ turns ih =>
    rw [chunkLoop, walk]
    split
    · exact ⟨rfl, Summary.of_end hs rfl rfl (Bool.or_false _).symm (Bool.and_true _).symm⟩
    · cases hread : readChunk b with
      | error e =>
        exact ⟨rfl, Summary.of_end hs rfl rfl (Bool.or_false _).symm (Bool.and_true _).symm⟩
      | ok r =>
        obtain ⟨type, len, _ | chunk, next⟩ := r
        · exact ⟨rfl, Summary.of_end hs rfl rfl (Bool.or_true _).symm (Bool.and_true _).symm⟩
        · simp only
          by_cases habort : type = 6
          · subst habort
            rw [if_pos rfl]
            exact ⟨rfl, Summary.of_end hs rfl rfl (Bool.or_true _).symm (Bool.and_false _).symm⟩
          · rw [if_neg habort]
            cases hreadable : readable ctx type chunk with
            | false =>
              rw [onChunk_unreadable hs hreadable]
              exact ⟨rfl, Summary.of_end hs rfl rfl (Bool.or_false _).symm (Bool.and_true _).symm⟩
            | true =>
              obtain ⟨w₁, hw₁, heffect⟩ := onChunk_effect hs habort hreadable
              obtain ⟨s₁, hs₁, -, -⟩ := heffect.session
              rw [hw₁]
              simp only [if_true]
              cases hskip : skipPadding len next with
              | error e =>
                refine ⟨rfl, Summary.cons (v := ([], .thrown)) heffect ?_⟩
                intro s₂ hs₂
                exact Summary.of_end hs₂ rfl rfl (Bool.or_false _).symm (Bool.and_true _).symm
              | ok next' =>
                refine ⟨(ih hs₁ next').1, Summary.cons heffect ?_⟩
                intro s₂ hs₂
                exact (ih hs₂ next').2

end Loop

/-! ## The other associations -/

section Others
variable {ctx : Ctx} {hash : BitVec 64} (hne : hash ≠ ctx.hash)
include hne

theorem onData_sessions_of_ne (chunk : BufferIn) (w : Work) :
    (onData ctx chunk w).1.sessions hash = w.sessions hash := by
  rw [onData]
  split
  · split
    · rfl
    · rename_i s hs
      split
      · rfl
      · rename_i handled hchunk
        have hset : (w.sessions.set ctx.hash (some handled.session)) hash = w.sessions hash :=
          Function.update_of_ne hne _ _
        cases handled.delivered <;> cases handled.result <;> exact hset
  · rfl

theorem onCookieEcho_sessions_of_ne (chunk : BufferIn) (w : Work) :
    (onCookieEcho ctx chunk w).1.sessions hash = w.sessions hash := by
  rw [onCookieEcho]
  split
  · rfl
  · rename_i cookieOk tag theirTsn myTsn hecho
    by_cases hok : (cookieOk && ctx.hasNewSession) = true
    · simp only [if_pos hok]
      cases hs : w.sessions ctx.hash with
      | none => exact Function.update_of_ne hne _ _
      | some s => rfl
    · simp only [if_neg hok]
      rfl

theorem onChunk_sessions_of_ne (position : ℕ) (type : Byte) (chunk : BufferIn) (w : Work) :
    (onChunk ctx position type chunk w).1.sessions hash = w.sessions hash := by
  rw [onChunk]
  split
  · exact onData_sessions_of_ne hne chunk w
  · split
    · rw [onInit]
      split
      · rfl
      · simp only
        split
        · rfl
        · rfl
    · split
      · rfl
      · split
        · rfl
        · split
          · exact onCookieEcho_sessions_of_ne hne chunk w
          · rfl

theorem chunkLoop_sessions_of_ne (turns : ℕ) (b : BufferIn) (w : Work) :
    (chunkLoop ctx turns b w).1.sessions hash = w.sessions hash := by
  apply chunkLoop_keeps (I := fun w' => w'.sessions hash = w.sessions hash)
  · exact fun _ h => h
  · intro position type chunk w' h
    rw [onChunk_sessions_of_ne hne, h]
  · rfl

end Others

/-! ## A packet -/

/-- A reply is sent. -/
def replySent (v : List (Byte × BufferIn) × End) : Bool :=
  (v.2 == .done || v.2 == .short) && v.1.all known

/-- The tag of the reply: that of the last chunk that sets one. -/
def replyTag (ctx : Ctx) (s : Session) (v : List (Byte × BufferIn) × End) : BitVec 32 :=
  (v.1.filterMap (tagOf ctx s.theirVerificationTag)).getLastD (-1)

/-- Nothing in the packet advances or ends the association. -/
def untouched (ctx : Ctx) (s : Session) (v : List (Byte × BufferIn) × End) : Bool :=
  v.1.all (fun x => !advances ctx s x) &&
    (v.2 == .thrown || v.2 == .done && !v.1.any (refused ctx))

/-- The condition on a packet for an association that exists: there is no reply or its last tag is
that of the peer, and the packet has the announced tag or does not touch the association. -/
def meets (cfg : Config) (pre : List SctpMove) (m : SctpMove) : Bool :=
  match readHeader (.ofBytes m.event.2.data) with
  | .error _ => true
  | .ok (h, b) =>
    let ctx := ctxOf cfg m.event.1 m.event.2 h
    match m.before ctx.hash with
    | none => true
    | some s =>
      let v := walk ctx m.event.2.data.length b
      (!replySent v || replyTag ctx s v == s.theirVerificationTag) &&
        (announced cfg pre ctx.hash h.verificationTag || untouched ctx s v)

theorem headerTag_header (h : Header) (rest : List Byte) :
    headerTag (h.bytes ++ rest) = some h.verificationTag := by
  obtain ⟨b, hread, -⟩ := readHeader_bytes h rest
  rw [headerTag, hread]

theorem receive_sessions_of_ne (cfg : Config) (oracle : Oracle) (sessions : Sessions)
    (pkt : Arrival) {hash : BitVec 64} (hne : addressed pkt ≠ some hash) :
    (receive cfg oracle sessions pkt).sessions hash = sessions hash := by
  rw [receive]
  split
  · rfl
  · split
    · rfl
    · rename_i h b hheader
      have hhash : hash ≠ (ctxOf cfg oracle pkt h).hash := by
        intro heq
        apply hne
        rw [addressed, hheader, heq]
        rfl
      have hloop := chunkLoop_sessions_of_ne hhash pkt.data.length b
        { sessions := sessions, reply := replyHeader (ctxOf cfg oracle pkt h) }
      simp only [finish]
      split
      · exact hloop
      · simp only
        split
        · exact (Function.update_of_ne hhash _ _).trans hloop
        · exact hloop

theorem finish_reply {ctx : Ctx} {r : Work × Bool} {reply : List Byte}
    (h : (finish ctx r).reply = some reply) :
    r.2 = false ∧ r.1.sendReply = true ∧ reply = withCrc r.1.reply := by
  rw [finish] at h
  split at h
  · cases h
  · rename_i hthrown
    simp only at h
    split at h
    · rename_i hsend
      exact ⟨Bool.eq_false_iff.mpr hthrown, hsend, (Option.some.inj h).symm⟩
    · cases h

theorem finish_actions (ctx : Ctx) (r : Work × Bool) : (finish ctx r).actions = r.1.actions := by
  rw [finish]
  split
  · rfl
  · rfl

theorem finish_sessions {ctx : Ctx} {r : Work × Bool}
    (h : r.2 = true ∨ r.1.terminateSession = false) : (finish ctx r).sessions = r.1.sessions := by
  rw [finish]
  split
  · rfl
  · rename_i hthrown
    have hterminate : r.1.terminateSession = false := h.resolve_left hthrown
    simp only [hterminate, Bool.false_eq_true, if_false]

section Packet
variable {cfg : Config} {oracle : Oracle} {sessions : Sessions} {pkt : Arrival} {h : Header}
  {b : BufferIn} {s : Session}

/-- A packet for an association that exists: the reply, if there is one. -/
theorem receive_reply (hheader : readHeader (.ofBytes pkt.data) = .ok (h, b))
    (hs : sessions (ctxOf cfg oracle pkt h).hash = some s) {reply : List Byte}
    (hreply : (receive cfg oracle sessions pkt).reply = some reply) :
    replySent (walk (ctxOf cfg oracle pkt h) pkt.data.length b) = true ∧
      headerTag reply = some (replyTag (ctxOf cfg oracle pkt h) s
        (walk (ctxOf cfg oracle pkt h) pkt.data.length b)) := by
  rw [receive] at hreply
  split at hreply
  · cases hreply
  · simp only [hheader] at hreply
    obtain ⟨hthrown, hsummary⟩ := chunkLoop_walk
      (w := { sessions := sessions, reply := replyHeader (ctxOf cfg oracle pkt h) }) hs
      pkt.data.length b
    obtain ⟨hnot, hsend, rfl⟩ := finish_reply hreply
    obtain ⟨rest, hbytes⟩ := hsummary.reply ⟨h.destinationPort, h.sourcePort, -1, 0⟩ []
      ((replyHeader_eq _).trans (List.append_nil _).symm)
    constructor
    · rw [hthrown] at hnot
      rw [hsummary.sendReply, Bool.true_and] at hsend
      obtain ⟨habort, hknown⟩ := Bool.and_eq_true_iff.mp hsend
      rw [replySent, hknown, Bool.and_true]
      cases hend : (walk (ctxOf cfg oracle pkt h) pkt.data.length b).2 with
      | done => rfl
      | short => rfl
      | aborted => simp [hend] at habort
      | thrown => simp [hend] at hnot
    · rw [hbytes, withCrc_header]
      exact headerTag_header _ _

/-- A packet for an association that exists and that it does not touch. -/
theorem receive_untouched (hheader : readHeader (.ofBytes pkt.data) = .ok (h, b))
    (hs : sessions (ctxOf cfg oracle pkt h).hash = some s)
    (huntouched : untouched (ctxOf cfg oracle pkt h) s
      (walk (ctxOf cfg oracle pkt h) pkt.data.length b) = true) :
    (receive cfg oracle sessions pkt).sessions (ctxOf cfg oracle pkt h).hash = some s := by
  rw [receive]
  split
  · exact hs
  · simp only [hheader]
    obtain ⟨hthrown, hsummary⟩ := chunkLoop_walk
      (w := { sessions := sessions, reply := replyHeader (ctxOf cfg oracle pkt h) }) hs
      pkt.data.length b
    obtain ⟨s', hs', hkept⟩ := hsummary.session
    rw [untouched, Bool.and_eq_true, Bool.or_eq_true, Bool.and_eq_true] at huntouched
    obtain ⟨hall, hend⟩ := huntouched
    have hsame : s' = s := by
      apply hkept
      intro x hx
      simpa using List.all_eq_true.mp hall x hx
    rw [finish_sessions, hs', hsame]
    rcases hend with hend | ⟨hdone, hrefused⟩
    · exact Or.inl (hthrown.trans hend)
    · rw [Bool.not_eq_true'] at hrefused
      right
      rw [hsummary.terminateSession, beq_iff_eq.mp hdone, hrefused]
      rfl

end Packet

theorem disciplined_of_meets {cfg : Config} {pre : List SctpMove} {m : SctpMove}
    (hout : m.output = receive cfg m.event.1 m.before m.event.2) (h : meets cfg pre m = true) :
    Disciplined cfg pre m := by
  intro hash s hs
  rw [hout]
  by_cases haddressed : addressed m.event.2 = some hash
  · cases hheader : readHeader (.ofBytes m.event.2.data) with
    | error e => simp [addressed, hheader] at haddressed
    | ok r =>
      obtain ⟨hd, b⟩ := r
      have hhash : (ctxOf cfg m.event.1 m.event.2 hd).hash = hash := by
        rw [addressed, hheader] at haddressed
        exact Option.some.inj haddressed
      subst hhash
      rw [meets, hheader] at h
      simp only [hs, Bool.and_eq_true, Bool.or_eq_true] at h
      obtain ⟨htag, htouch⟩ := h
      constructor
      · intro _ reply hreply
        obtain ⟨hsent, hreplyTag⟩ := receive_reply hheader hs hreply
        rcases htag with hnot | htag
        · rw [hsent] at hnot
          cases hnot
        · rwa [beq_iff_eq.mp htag] at hreplyTag
      · intro hchanged
        rcases htouch with hannounced | huntouched
        · exact ⟨haddressed, hd.verificationTag, by rw [headerTag, hheader], hannounced⟩
        · exact absurd (receive_untouched hheader hs huntouched) hchanged
  · refine ⟨fun heq => absurd heq haddressed, ?_⟩
    intro hchanged
    rw [receive_sessions_of_ne cfg _ _ _ haddressed] at hchanged
    exact absurd hs hchanged

/-- In a run in which every packet meets the condition, replies have the tag of the peer, and only
packets with the announced tag change or remove an association. -/
theorem tags_kept (cfg : Config) {tr : List SctpMove} {sessions : Sessions}
    (run : Run (step cfg) (fun _ => none) tr sessions)
    (h : Throughout (fun pre m => meets cfg pre m = true) tr) :
    Throughout (Disciplined cfg) tr := by
  rintro pre m post rfl
  obtain ⟨next, -, made, -⟩ := run.split
  have hout : m.output = receive cfg m.event.1 m.before m.event.2 := by
    have := Option.some.inj made
    exact (congrArg Prod.snd this).symm
  exact disciplined_of_meets hout (h pre m post rfl)

/-! ## Samples -/

/-- A packet of the peer of `sampleSession` with one chunk. -/
def samplePacket (tag : BitVec 32) (chunk : List Byte) : Input :=
  (sampleOracle, ⟨.ipv4 10 0 0 2, .ipv4 10 0 0 1, Header.bytes ⟨4000, 7, tag, 0⟩ ++ chunk⟩)

def sampleStart : List Input := [(sampleOracle, sampleInit), (sampleOracle, sampleEcho)]

/-- The handshake and the first DATA chunk. -/
def sampleData : List Input :=
  sampleStart ++
    [samplePacket 0x55667788 (chunkBytes 0 3 [0, 0, 0, 7, 0, 0, 0, 0, 0, 0, 0, 0, 1, 2, 3, 4])]

/-- The handshake, a HEARTBEAT of the peer, and an ABORT with any tag. -/
def sampleAbort : List Input :=
  sampleStart ++ [samplePacket 0x55667788 (chunkBytes 4 0 [0, 1, 0, 4]),
    samplePacket 0xdeadbeef (chunkBytes 6 0 [])]

theorem tags_kept_data :
    Throughout (Disciplined sampleConfig)
      ((exec (step sampleConfig) (fun _ => none) sampleData).get rfl).1 :=
  tags_kept sampleConfig (exec_get_run _ _ _ rfl) (by decide +kernel)

theorem not_disciplined_of_reply {cfg : Config} {pre : List SctpMove} {m : SctpMove}
    (hash : BitVec 64) (s : Session) (tag : BitVec 32) (hs : m.before hash = some s)
    (haddressed : addressed m.event.2 = some hash)
    (htag : m.output.reply.bind headerTag = some tag) (hne : tag ≠ s.theirVerificationTag) :
    ¬ Disciplined cfg pre m := by
  intro h
  obtain ⟨reply, hreply, hreplyTag⟩ := Option.bind_eq_some_iff.mp htag
  have hkept := (h hash s hs).1 haddressed reply hreply
  rw [hreplyTag] at hkept
  exact hne (Option.some.inj hkept)

theorem not_disciplined_of_removed {cfg : Config} {pre : List SctpMove} {m : SctpMove}
    (hash : BitVec 64) (s : Session) (tag : BitVec 32) (hs : m.before hash = some s)
    (hremoved : m.output.sessions hash = none) (htag : headerTag m.event.2.data = some tag)
    (hnot : announced cfg pre hash tag = false) : ¬ Disciplined cfg pre m := by
  intro h
  obtain ⟨-, tag', htag', hannounced⟩ := (h hash s hs).2 (by rw [hremoved]; simp)
  obtain rfl : tag = tag' := Option.some.inj (htag.symm.trans htag')
  rw [hnot] at hannounced
  cases hannounced

/-- The reply to the HEARTBEAT has the place holder instead of a tag, and the ABORT removes the
association. -/
theorem tags_not_checked :
    ∃ m₀ m₁ m₂ m₃ sessions,
      exec (step sampleConfig) (fun _ => none) sampleAbort = some ([m₀, m₁, m₂, m₃], sessions) ∧
      ¬ Disciplined sampleConfig [m₀, m₁] m₂ ∧ ¬ Disciplined sampleConfig [m₀, m₁, m₂] m₃ := by
  refine ⟨_, _, _, _, _, rfl, ?_, ?_⟩
  · apply not_disciplined_of_reply (getHash (.ipv4 10 0 0 2) 4000 7) sampleSession 0xffffffff
    · decide +kernel
    · decide +kernel
    · decide +kernel
    · decide
  · apply not_disciplined_of_removed (getHash (.ipv4 10 0 0 2) 4000 7) sampleSession 0xdeadbeef
    · decide +kernel
    · decide +kernel
    · decide +kernel
    · decide +kernel

end MyIp.Sctp
