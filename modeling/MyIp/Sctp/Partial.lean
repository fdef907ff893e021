import MyIp.Sctp.Tags

/-! # Packets that end in an exception

`std::out_of_range` ends a packet between two of its chunks, or in one. The chunks before it have
been executed then: DATA with the TSN that an association expects has been delivered and has moved
that TSN on (`advances`), and a COOKIE ECHO has set up an association that was not there (`opens`).
All other chunks change nothing but the reply, which is dropped.

`reached` is what the loop comes to as long as no chunk takes effect. The loop lemma keeps two
invariants apart: without an effect the associations are the same (`Quiet`), and an effect cannot be
undone (`Touched`). -/

namespace MyIp.Sctp
set_option autoImplicit false

open Bytes

def Action.isNewData : Action → Bool
  | .newData _ _ => true
  | _ => false

/-- The associations and the TSNs they expect are the same, and nothing was given to `new_data`. -/
structure NothingDone (sessions : Sessions) (outcome : Outcome) : Prop where
  theirTsn : ∀ hash, (outcome.sessions hash).map (fun s => s.theirTsn) =
    (sessions hash).map fun s => s.theirTsn
  newData : ∀ a ∈ outcome.actions, a.isNewData = false

/-- `std::out_of_range` comes out of the packet. -/
def endsOutOfRange (cfg : Config) (oracle : Oracle) (sessions : Sessions) (pkt : Arrival) : Bool :=
  if pkt.data.length < 12 then false
  else
    match readHeader (.ofBytes pkt.data) with
    | .error _ => true
    | .ok (h, b) =>
      let ctx := ctxOf cfg oracle pkt h
      (chunkLoop ctx pkt.data.length b { sessions := sessions, reply := replyHeader ctx }).2

/-! ## The chunks before the exception -/

/-- The fields of a chunk are there; DATA without an association is not looked at. -/
def readableFor (ctx : Ctx) (s : Option Session) (type : Byte) (chunk : BufferIn) : Bool :=
  (type = 0 && s.isNone) || readable ctx type chunk

/-- The chunks that are executed while the association stays `s`. -/
def reached (ctx : Ctx) (s : Option Session) : ℕ → BufferIn → List (Byte × BufferIn)
  | 0, _ => []
  | turns + 1, b =>
    if b.endReached then []
    else
      match readChunk b with
      | .error _ => []
      | .ok (_, _, none, _) => []
      | .ok (type, len, some chunk, next) =>
        if type = 6 then []
        else if readableFor ctx s type chunk then
          match skipPadding len next with
          | .error _ => [(type, chunk)]
          | .ok next => (type, chunk) :: reached ctx s turns next
        else []

/-- A COOKIE ECHO with a cookie of the program, for a port with a listener. -/
def opens (ctx : Ctx) (x : Byte × BufferIn) : Bool :=
  x.1 = 10 && ctx.hasNewSession &&
    match chunkCookieEcho ctx.cfg ctx.theirAddr ctx.sourcePort ctx.destinationPort x.2 with
    | .error _ => false
    | .ok (cookieOk, _) => cookieOk

/-- What a chunk does is seen outside of the reply. -/
def takesEffect (ctx : Ctx) (s : Option Session) (x : Byte × BufferIn) : Bool :=
  match s with
  | none => opens ctx x
  | some s => advances ctx s x

/-- No chunk takes effect before the end of the packet or the exception. -/
def withoutEffect (cfg : Config) (oracle : Oracle) (sessions : Sessions) (pkt : Arrival) : Bool :=
  match readHeader (.ofBytes pkt.data) with
  | .error _ => true
  | .ok (h, b) =>
    let ctx := ctxOf cfg oracle pkt h
    let s := sessions ctx.hash
    !(reached ctx s pkt.data.length b).any (takesEffect ctx s)

/-! ## One chunk -/

/-- Only the reply is different. -/
structure Quiet (w w' : Work) : Prop where
  sessions : w'.sessions = w.sessions
  newData : w'.actions.any Action.isNewData = w.actions.any Action.isNewData

/-- Something was done since the association was `s`. -/
def Touched (ctx : Ctx) (s : Option Session) (w : Work) : Prop :=
  match s with
  | none => (w.sessions ctx.hash).isSome = true
  | some _ => w.actions.any Action.isNewData = true

theorem Quiet.refl (w : Work) : Quiet w w := ⟨rfl, rfl⟩

theorem Quiet.trans {w w₁ w₂ : Work} (h : Quiet w w₁) (h' : Quiet w₁ w₂) : Quiet w w₂ :=
  ⟨h'.sessions.trans h.sessions, h'.newData.trans h.newData⟩

theorem Quiet.act {w w' : Work} (h : Quiet w w') {a : Action} (ha : a.isNewData = false) :
    Quiet w (w'.act a) := by
  refine ⟨h.sessions, ?_⟩
  simp only [Work.act, List.any_append, List.any_cons, List.any_nil, ha, Bool.or_false, h.newData]

section Chunk
variable {ctx : Ctx} {position : ℕ} {type : Byte} {chunk : BufferIn} {w : Work}
  {s : Option Session}

theorem onData_quiet (hs : w.sessions ctx.hash = s) (hread : readableFor ctx s 0 chunk = true)
    (hquiet : takesEffect ctx s (0, chunk) = false) :
    ∃ w', onData ctx chunk w = (w', .go) ∧ Quiet w w' := by
  by_cases hlistener : ctx.hasNewData = true
  · cases s with
    | none =>
      rw [onData, if_pos hlistener, hs]
      exact ⟨w, rfl, Quiet.refl w⟩
    | some s =>
      rw [readableFor, readable_data hlistener] at hread
      obtain ⟨data, hdata⟩ := exists_ok_of_isOk hread
      have htsn : data.tsn ≠ s.theirTsn := by
        simpa [takesEffect, advances, hlistener, hdata] using hquiet
      obtain ⟨out, hout⟩ := onData_other hlistener hs hdata htsn
      exact ⟨_, hout, rfl, rfl⟩
  · rw [onData, if_neg hlistener]
    exact ⟨_, rfl, rfl, rfl⟩

theorem onInit_quiet (hread : readableFor ctx s 1 chunk = true) :
    ∃ w', onInit ctx position chunk w = (w', .go) ∧ Quiet w w' := by
  obtain ⟨init, hinit⟩ : ∃ init, readInit chunk = .ok init := exists_ok_of_isOk hread
  rw [onInit, hinit]
  by_cases hlistener : ctx.listener.isSome = true
  · simp only [if_pos hlistener]
    refine ⟨_, rfl, Quiet.act ?_ rfl⟩
    exact ⟨rfl, rfl⟩
  · simp only [if_neg hlistener]
    exact ⟨_, rfl, rfl, rfl⟩

theorem onCookieEcho_quiet (hs : w.sessions ctx.hash = s)
    (hread : readableFor ctx s 10 chunk = true) (hquiet : takesEffect ctx s (10, chunk) = false) :
    ∃ w', onCookieEcho ctx chunk w = (w', .go) ∧ Quiet w w' := by
  obtain ⟨⟨cookieOk, tag, theirTsn, myTsn⟩, hecho⟩ : ∃ r, chunkCookieEcho ctx.cfg ctx.theirAddr
      ctx.sourcePort ctx.destinationPort chunk = .ok r := exists_ok_of_isOk hread
  rw [onCookieEcho, hecho]
  by_cases hok : (cookieOk && ctx.hasNewSession) = true
  · cases s with
    | none =>
      obtain ⟨hcookie, hlistening⟩ := Bool.and_eq_true_iff.mp hok
      simp [takesEffect, opens, hlistening, hecho, hcookie] at hquiet
    | some s =>
      simp only [if_pos hok, hs]
      exact ⟨_, rfl, rfl, rfl⟩
  · simp only [if_neg hok]
    exact ⟨_, rfl, rfl, rfl⟩

theorem onChunk_quiet (hs : w.sessions ctx.hash = s) (habort : type ≠ 6)
    (hread : readableFor ctx s type chunk = true)
    (hquiet : takesEffect ctx s (type, chunk) = false) :
    ∃ w', onChunk ctx position type chunk w = (w', .go) ∧ Quiet w w' := by
  rw [onChunk]
  split
  · rename_i htype
    subst htype
    exact onData_quiet hs hread hquiet
  · split
    · rename_i htype
      subst htype
      exact onInit_quiet hread
    · split
      · exact ⟨_, rfl, rfl, rfl⟩
      · split
        · rename_i htype
          subst htype
          exact onCookieEcho_quiet hs hread hquiet
        · exact ⟨_, rfl, rfl, rfl⟩

theorem onChunk_effective (hs : w.sessions ctx.hash = s)
    (heffect : takesEffect ctx s (type, chunk) = true) :
    ∃ w', onChunk ctx position type chunk w = (w', .go) ∧ Touched ctx s w' := by
  cases s with
  | none =>
    rw [takesEffect, opens, Bool.and_eq_true, Bool.and_eq_true, decide_eq_true_eq] at heffect
    obtain ⟨⟨htype, hlistening⟩, hcookie⟩ := heffect
    subst htype
    simp only at hcookie
    split at hcookie
    · cases hcookie
    · rename_i cookieOk fields hecho
      subst hcookie
      rw [onChunk_cookieEcho, onCookieEcho, hecho]
      simp only [hlistening, Bool.and_self, if_true, hs]
      refine ⟨_, rfl, ?_⟩
      simp [Touched, Work.setTag, Work.add, Work.act]
  | some s =>
    rw [takesEffect, advances, Bool.and_eq_true, Bool.and_eq_true, decide_eq_true_eq] at heffect
    obtain ⟨⟨htype, hlistener⟩, htsn⟩ := heffect
    subst htype
    simp only at htsn
    split at htsn
    · cases htsn
    · rename_i data hread
      obtain ⟨out, hout⟩ := onData_expected hlistener hs hread (of_decide_eq_true htsn)
      rw [onChunk, if_pos rfl, hout]
      refine ⟨_, rfl, ?_⟩
      simp [Touched, Work.setTag, Work.add, Work.act, Action.isNewData]

theorem onChunk_thrown (hs : w.sessions ctx.hash = s)
    (hread : readableFor ctx s type chunk = false) :
    onChunk ctx position type chunk w = (w, .thrown) := by
  rw [readableFor, Bool.or_eq_false_iff, Bool.and_eq_false_iff] at hread
  obtain ⟨hknown, hread⟩ := hread
  cases s with
  | some s => exact onChunk_unreadable hs hread
  | none =>
    have htype : type ≠ 0 := by simpa using hknown
    exact onChunk_unreadable_of_ne htype hread

end Chunk

/-! ## The loop -/

section Loop
variable {ctx : Ctx} {s : Option Session}

/-- The association is not removed and no action is taken back. -/
structure Grows (ctx : Ctx) (w w' : Work) : Prop where
  session : (w.sessions ctx.hash).isSome = true → (w'.sessions ctx.hash).isSome = true
  actions : w.actions <+: w'.actions

theorem onData_grows (chunk : BufferIn) (w : Work) : Grows ctx w (onData ctx chunk w).1 := by
  rw [onData]
  split
  · split
    · exact ⟨id, List.prefix_refl _⟩
    · split
      · exact ⟨id, List.prefix_refl _⟩
      · rename_i handled hchunk
        have hset : ((w.sessions.set ctx.hash (some handled.session)) ctx.hash).isSome = true := by
          rw [Sessions.set_self]
          rfl
        cases handled.delivered with
        | none => cases handled.result <;> exact ⟨fun _ => hset, List.prefix_refl _⟩
        | some data => cases handled.result <;> exact ⟨fun _ => hset, List.prefix_append _ _⟩
  · exact ⟨id, List.prefix_refl _⟩

theorem onCookieEcho_grows (chunk : BufferIn) (w : Work) :
    Grows ctx w (onCookieEcho ctx chunk w).1 := by
  rw [onCookieEcho]
  split
  · exact ⟨id, List.prefix_refl _⟩
  · rename_i cookieOk tag theirTsn myTsn hecho
    by_cases hok : (cookieOk && ctx.hasNewSession) = true
    · simp only [if_pos hok]
      cases hs : w.sessions ctx.hash with
      | none =>
        refine ⟨fun _ => ?_, List.prefix_append _ _⟩
        simp [Work.add, Work.act, Work.setTag]
      | some s => exact ⟨id, List.prefix_refl _⟩
    · simp only [if_neg hok]
      exact ⟨id, List.prefix_refl _⟩

theorem onChunk_grows (position : ℕ) (type : Byte) (chunk : BufferIn) (w : Work) :
    Grows ctx w (onChunk ctx position type chunk w).1 := by
  rw [onChunk]
  split
  · exact onData_grows chunk w
  · split
    · rw [onInit]
      split
      · exact ⟨id, List.prefix_refl _⟩
      · simp only
        split
        · exact ⟨id, List.prefix_append _ _⟩
        · exact ⟨id, List.prefix_refl _⟩
    · split
      · exact ⟨id, List.prefix_refl _⟩
      · split
        · exact ⟨id, List.prefix_refl _⟩
        · split
          · exact onCookieEcho_grows chunk w
          · exact ⟨id, List.prefix_refl _⟩

theorem Touched.grows {w w' : Work} (h : Touched ctx s w) (hgrows : Grows ctx w w') :
    Touched ctx s w' := by
  cases s with
  | none => exact hgrows.session h
  | some s =>
    obtain ⟨a, ha, hdata⟩ := List.any_eq_true.mp h
    exact List.any_eq_true.mpr ⟨a, hgrows.actions.subset ha, hdata⟩

theorem chunkLoop_touched (turns : ℕ) (b : BufferIn) {w : Work} (h : Touched ctx s w) :
    Touched ctx s (chunkLoop ctx turns b w).1 := by
  apply chunkLoop_keeps _ _ turns b h
  · intro w h
    exact h.grows ⟨id, List.prefix_refl _⟩
  · intro position type chunk w h
    exact h.grows (onChunk_grows position type chunk w)

/-- The loop does nothing, or something that cannot be undone. -/
theorem chunkLoop_reached {w : Work} (hs : w.sessions ctx.hash = s) (turns : ℕ) (b : BufferIn) :
    ((reached ctx s turns b).any (takesEffect ctx s) = false →
      Quiet w (chunkLoop ctx turns b w).1) ∧
      ((reached ctx s turns b).any (takesEffect ctx s) = true →
        Touched ctx s (chunkLoop ctx turns b w).1) := by
  induction turns generalizing b w with
  | zero => exact ⟨fun _ => Quiet.refl w, fun h => absurd h Bool.false_ne_true⟩
  | succ turns ih =>
    rw [chunkLoop, reached]
    split
    · exact ⟨fun _ => Quiet.refl w, fun h => absurd h Bool.false_ne_true⟩
    · cases hread : readChunk b with
      | error e => exact ⟨fun _ => Quiet.refl w, fun h => absurd h Bool.false_ne_true⟩
      | ok r =>
        obtain ⟨type, len, _ | chunk, next⟩ := r
        · exact ⟨fun _ => ⟨rfl, rfl⟩, fun h => absurd h Bool.false_ne_true⟩
        · simp only
          by_cases habort : type = 6
          · subst habort
            rw [if_pos rfl]
            exact ⟨fun _ => ⟨rfl, rfl⟩, fun h => absurd h Bool.false_ne_true⟩
          · rw [if_neg habort]
            cases hreadable : readableFor ctx s type chunk with
            | false =>
              rw [onChunk_thrown hs hreadable]
              exact ⟨fun _ => Quiet.refl w, fun h => absurd h Bool.false_ne_true⟩
            | true =>
              simp only [if_true]
              cases heffect : takesEffect ctx s (type, chunk) with
              | true =>
                obtain ⟨w₁, hw₁, htouched⟩ := onChunk_effective hs heffect
                rw [hw₁]
                cases hskip : skipPadding len next with
                | error e => simp [heffect, htouched]
                | ok next' =>
                  simp only [List.any_cons, heffect, Bool.true_or]
                  exact ⟨fun h => absurd h (by decide), fun _ => chunkLoop_touched _ _ htouched⟩
              | false =>
                obtain ⟨w₁, hw₁, hquiet⟩ := onChunk_quiet hs habort hreadable heffect
                rw [hw₁]
                cases hskip : skipPadding len next with
                | error e => simp [heffect, hquiet]
                | ok next' =>
                  have hs₁ : w₁.sessions ctx.hash = s := by rw [hquiet.sessions, hs]
                  simp only [List.any_cons, heffect, Bool.false_or]
                  exact ⟨fun h => hquiet.trans ((ih hs₁ next').1 h), (ih hs₁ next').2⟩

end Loop

/-! ## The packet -/

theorem nothingDone_of_quiet {sessions : Sessions} {reply : List Byte} {ctx : Ctx}
    {r : Work × Bool} (hthrown : r.2 = true)
    (hquiet : Quiet { sessions := sessions, reply := reply } r.1) :
    NothingDone sessions (finish ctx r) := by
  refine ⟨?_, ?_⟩
  · intro hash
    rw [finish_sessions (Or.inl hthrown), hquiet.sessions]
  · intro a ha
    rw [finish_actions] at ha
    have hany := hquiet.newData
    rw [List.any_nil, List.any_eq_false] at hany
    exact Bool.eq_false_iff.mpr (hany a ha)

theorem not_nothingDone_of_touched {sessions : Sessions} {ctx : Ctx} {r : Work × Bool}
    (hthrown : r.2 = true) (htouched : Touched ctx (sessions ctx.hash) r.1) :
    ¬ NothingDone sessions (finish ctx r) := by
  intro hnothing
  cases hs : sessions ctx.hash with
  | none =>
    rw [hs] at htouched
    obtain ⟨s, hs'⟩ := Option.isSome_iff_exists.mp htouched
    have hsame := hnothing.theirTsn ctx.hash
    rw [finish_sessions (Or.inl hthrown), hs, hs'] at hsame
    cases hsame
  | some s =>
    rw [hs] at htouched
    obtain ⟨a, ha, hdata⟩ := List.any_eq_true.mp htouched
    rw [hnothing.newData a (finish_actions ctx r ▸ ha)] at hdata
    cases hdata

/-- A packet that ends in the exception has done nothing exactly when none of its chunks before the
exception takes effect. -/
theorem nothingDone_iff {cfg : Config} {oracle : Oracle} {sessions : Sessions} {pkt : Arrival}
    (hthrown : endsOutOfRange cfg oracle sessions pkt = true) :
    NothingDone sessions (receive cfg oracle sessions pkt) ↔
      withoutEffect cfg oracle sessions pkt = true := by
  rw [endsOutOfRange] at hthrown
  rw [receive, withoutEffect]
  split at hthrown
  · cases hthrown
  · rename_i hlength
    rw [if_neg hlength]
    cases hheader : readHeader (.ofBytes pkt.data) with
    | error e => exact ⟨fun _ => rfl, fun _ => ⟨fun _ => rfl, by simp⟩⟩
    | ok r =>
      obtain ⟨h, b⟩ := r
      simp only [hheader] at hthrown ⊢
      obtain ⟨hquiet, htouched⟩ := chunkLoop_reached
        (w := { sessions := sessions, reply := replyHeader (ctxOf cfg oracle pkt h) }) rfl
        pkt.data.length b
      simp only at hquiet htouched
      cases heffect : (reached (ctxOf cfg oracle pkt h) (sessions (ctxOf cfg oracle pkt h).hash)
          pkt.data.length b).any
          (takesEffect (ctxOf cfg oracle pkt h) (sessions (ctxOf cfg oracle pkt h).hash)) with
      | false => exact iff_of_true (nothingDone_of_quiet hthrown (hquiet heffect)) rfl
      | true =>
        exact iff_of_false (not_nothingDone_of_touched hthrown (htouched heffect)) (by decide)

/-! ## Samples -/

def sampleSessions : Sessions := fun _ => some sampleSession

/-- DATA with the TSN that is expected, and the first byte of another chunk. -/
def sampleCutData : List Byte :=
  chunkBytes 0 3 [0, 0, 0, 7, 0, 0, 0, 0, 0, 0, 0, 0, 1, 2, 3, 4] ++ [0]

/-- A chunk that is cut off does nothing. -/
theorem nothingDone_iff_cut :
    NothingDone sampleSessions (receive sampleConfig sampleOracle sampleSessions
        (samplePacket 0x55667788 [0, 3, 0]).2) ↔
      withoutEffect sampleConfig sampleOracle sampleSessions
        (samplePacket 0x55667788 [0, 3, 0]).2 = true :=
  nothingDone_iff (by decide +kernel)

/-- The data was delivered before the exception, and the cookie has opened an association. -/
theorem not_nothingDone :
    (endsOutOfRange sampleConfig sampleOracle sampleSessions
        (samplePacket 0x55667788 sampleCutData).2 = true ∧
      ¬ NothingDone sampleSessions (receive sampleConfig sampleOracle sampleSessions
        (samplePacket 0x55667788 sampleCutData).2)) ∧
    endsOutOfRange sampleConfig sampleOracle (fun _ => none)
        { sampleEcho with data := sampleEcho.data ++ [0] } = true ∧
      ¬ NothingDone (fun _ => none) (receive sampleConfig sampleOracle (fun _ => none)
        { sampleEcho with data := sampleEcho.data ++ [0] }) := by
  refine ⟨⟨by decide +kernel, ?_⟩, by decide +kernel, ?_⟩
  · intro hnothing
    have hdata := hnothing.newData (.newData { sampleSession with theirTsn := 8 } [1, 2, 3, 4])
      (by decide +kernel)
    cases hdata
  · intro hnothing
    have htsn := hnothing.theirTsn (getHash (.ipv4 10 0 0 2) 4000 7)
    revert htsn
    decide +kernel

end MyIp.Sctp
