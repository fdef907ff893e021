import MyIp.Irc.Nicknames

/-! # Channels

The lines of `process_line` that name a channel, and who is told of them. A user is a member of a
channel under its lowercase name, but all except `PRIVMSG` go by the name as the line spells it. -/

namespace MyIp.Irc
set_option autoImplicit false

open CText Net EventMachine

/-! ## The lines -/

inductive Request
  | join (channels : List Text)
  | part (channels : List Text)
  /-- `PRIVMSG` and `NOTICE`, with the whole line. -/
  | message (target line : Text)
  | topic (channel text : Text)
  deriving DecidableEq

def request (line : Text) : Option Request :=
  let parts := split line ' '
  let command := parts.getD 0 []
  let argument := parts.getD 1 []
  if command = "JOIN".toList ∧ 2 ≤ parts.length then some (.join (split argument ','))
  else if command = "PART".toList ∧ 2 ≤ parts.length then some (.part (split argument ','))
  else if (command = "PRIVMSG".toList ∨ command = "NOTICE".toList) ∧ 2 ≤ parts.length then
    some (.message argument line)
  else if command = "TOPIC".toList ∧ 3 ≤ parts.length then some (.topic argument (afterColon line))
  else none

def setTopic (s : State) (channel topic : Text) : State :=
  { s with topicnames := Function.update s.topicnames channel (some topic) }

/-- What the line changes before anybody is told. -/
def Request.act (s : State) (c : ℕ) (sent : Bool) : Request → Option State
  | .join channels => (editChannels s c channels fun cs channel => insert channel cs).map
      (·.finish c (channels.isEmpty || sent))
  | .part channels => editChannels s c channels Finset.erase
  | .message _ _ => some s
  | .topic channel text => some (State.finish (setTopic s channel text) c sent)

theorem newNick_eq_none {parts : List Text} (h : parts.getD 0 [] ≠ "NICK".toList) :
    newNick parts = none := by
  match parts with
  | [] | [_] => rfl
  | _ :: _ :: _ => exact if_neg h

/-- `process_line` does what the line asks for. -/
theorem processLine_request {s : State} {c : ℕ} {line : Text} {r : Request}
    (hr : request line = some r) (huser : (s.sessions c).seenUser = true)
    (hnick : (s.sessions c).seenNick = true) (sent : Bool) :
    processLine s c line sent = r.act s c sent := by
  rw [request] at hr
  rw [processLine]
  simp only at hr ⊢
  generalize hcommand : (split line ' ').getD 0 [] = command at hr ⊢
  have hseen : ¬((s.sessions c).seenUser = false ∨ (s.sessions c).seenNick = false) := by
    simp [huser, hnick]
  split_ifs at hr with hjoin hpart hmessage htopic <;> obtain rfl := Option.some.inj hr
  · obtain ⟨rfl, hlength⟩ := hjoin
    rw [newNick_eq_none (by rw [hcommand]; decide)]
    simp [Request.act, hseen, hlength]
  · obtain ⟨rfl, hlength⟩ := hpart
    rw [newNick_eq_none (by rw [hcommand]; decide)]
    simp [Request.act, hseen, hlength]
  · rw [newNick_eq_none (by rw [hcommand]; obtain ⟨rfl | rfl, -⟩ := hmessage <;> decide)]
    obtain ⟨rfl | rfl, -⟩ := hmessage <;> simp [Request.act, hseen]
  · obtain ⟨rfl, hlength⟩ := htopic
    rw [newNick_eq_none (by rw [hcommand]; decide)]
    simp [Request.act, setTopic, hseen, hlength]

/-! ## Who is told -/

/-- The nicknames that `transmit_to_channel` transmits to. -/
def transmitToChannel (s : State) (channel senderNick : Text) (n : Text) : Bool :=
  n ≠ senderNick && (s.nicknames n).any fun person => channel ∈ person.channels || channel = n

/-- The nicknames that `send_user_for_channel` lists and transmits to. -/
def sendUserForChannel (s : State) (channel : Text) (n : Text) : Bool :=
  (s.nicknames n).any fun person => channel ∈ person.channels

def getTopic (s : State) (channel : Text) : Text := (s.topicnames channel).getD []

/-- The nickname that `JOIN` leaves out, and that `PART` sends its list for. -/
def nobody : Text := "___\x03invalid".toList

/-- What is transmitted, and the nicknames it goes to. -/
inductive Notice
  | line (channel text : Text) (reached : Text → Bool)
  /-- The replies 353 and 366, which list the nicknames they go to. -/
  | names (nick channel : Text) (reached : Text → Bool)
  /-- `send_topic`, to the client of the line. -/
  | topic (channel text : Text) (reached : Text → Bool)

/-- What a line starts with that goes from the session to others. -/
def sender (s : State) (c : ℕ) (theirAddr : Text) : Text :=
  ":".toList ++ (s.sessions c).nick ++ "!".toList ++ (s.sessions c).username ++ "@".toList ++ theirAddr

def sendTopic (s : State) (c : ℕ) (channel : Text) : Notice :=
  .topic channel (": TOPIC ".toList ++ channel ++ " :".toList ++ getTopic s channel ++ "\r\n".toList)
    fun n => (s.nicknames n).any fun person => person.tcpSession = c

/-- What `process_line` transmits for a line that names channels. The state is the one after the
change that `JOIN` and `PART` make, when other sessions may have had their turn; `TOPIC` sets the
topic first. -/
def notices (s : State) (c : ℕ) (theirAddr : Text) : Request → List Notice
  | .join channels => channels.flatMap fun channel =>
      [.line channel (sender s c theirAddr ++ " JOIN ".toList ++ channel ++ "\r\n".toList)
        (transmitToChannel s channel nobody),
        .names (s.sessions c).nick channel (sendUserForChannel s channel),
        sendTopic s c channel]
  | .part channels => channels.flatMap fun channel =>
      [.line channel (sender s c theirAddr ++ " PART ".toList ++ channel ++ "\r\n".toList)
        (transmitToChannel s channel (s.sessions c).nick),
        .names nobody channel (sendUserForChannel s channel)]
  | .message target line =>
      [.line target (sender s c theirAddr ++ " ".toList ++ line ++ "\r\n".toList)
        (transmitToChannel s (strTolower target) (s.sessions c).nick)]
  | .topic channel text => [sendTopic (setTopic s channel text) c channel]

/-! ## What is expected -/

/-- The users who are in a channel, by the name under which it is kept. -/
def State.Member (s : State) (channel n : Text) : Prop :=
  ∃ person, s.nicknames n = some person ∧ channel ∈ person.channels

/-- Whom a line to a channel is for. -/
def Request.Audience (s : State) (c : ℕ) (channel n : Text) : Request → Prop
  | .join _ | .topic _ _ => s.Member (strTolower channel) n
  | .part _ | .message _ _ => s.Member (strTolower channel) n ∧ n ≠ (s.sessions c).nick

/-- What is transmitted reaches those it is for; the topic that a user gets who joins is for that
user only. -/
def Request.Reaches (r : Request) (s : State) (c : ℕ) : Notice → Prop
  | .line channel _ reached => ∀ n, reached n = true ↔ r.Audience s c channel n
  | .names _ channel reached => ∀ n, reached n = true ↔ s.Member (strTolower channel) n
  | .topic channel _ reached =>
    match r with
    | .topic _ _ => ∀ n, reached n = true ↔ r.Audience s c channel n
    | _ => True

/-- A topic is the one of the channel in every spelling. -/
def Request.Reported (s : State) : Request → Prop
  | .topic channel text => ∀ spelling, strTolower spelling = strTolower channel →
      getTopic (setTopic s channel text) spelling = text
  | _ => True

def CaseInsensitive (s : State) (c : ℕ) (theirAddr : Text) (r : Request) : Prop :=
  (∀ notice ∈ notices s c theirAddr r, r.Reaches s c notice) ∧ r.Reported s

/-! ## When it is so -/

/-- Nobody but a member, and the one left out, goes by the name of the channel. -/
def NameFree (s : State) (channel senderNick : Text) : Prop :=
  channel ≠ senderNick → ∀ person, s.nicknames channel = some person → channel ∈ person.channels

/-- A name in lowercase that is no one else's, or else a channel without members. -/
def Settled (s : State) (channel senderNick : Text) : Prop :=
  if strTolower channel = channel then NameFree s channel senderNick
  else ∀ n, ¬s.Member (strTolower channel) n

def Request.Consistent (s : State) (c : ℕ) : Request → Prop
  | .join channels => ∀ channel ∈ channels,
      Settled s channel nobody ∧ ¬s.Member (strTolower channel) nobody
  | .part channels => ∀ channel ∈ channels, Settled s channel (s.sessions c).nick
  | .message target _ => NameFree s (strTolower target) (s.sessions c).nick
  | .topic channel text =>
    (∀ n, s.owner n = some c ↔ s.Member (strTolower channel) n) ∧
      ∀ spelling, strTolower spelling = strTolower channel → spelling ≠ channel →
        getTopic s spelling = text

/-! ## What is kept is in lowercase -/

theorem toLower_of_not_upper {c : Char} (h : ¬(c.val ≥ 'A'.val ∧ c.val ≤ 'Z'.val)) :
    c.toLower = c :=
  dif_neg h

theorem toLower_toLower (c : Char) : c.toLower.toLower = c.toLower := by
  by_cases h : c.val ≥ 'A'.val ∧ c.val ≤ 'Z'.val
  · have hval : c.toLower.val = c.val + ('a'.val - 'A'.val) := congrArg Char.val (dif_pos h)
    apply toLower_of_not_upper
    rw [hval]
    rintro ⟨-, hz⟩
    have ha := UInt32.le_iff_toNat_le.mp h.1
    have hz' := UInt32.le_iff_toNat_le.mp h.2
    have hsum := UInt32.le_iff_toNat_le.mp hz
    rw [UInt32.toNat_add] at hsum
    simp only [show 'A'.val.toNat = 65 from rfl, show 'Z'.val.toNat = 90 from rfl,
      show ('a'.val - 'A'.val).toNat = 32 from rfl] at ha hz' hsum
    omega
  · rw [toLower_of_not_upper h, toLower_of_not_upper h]

theorem strTolower_strTolower (t : Text) : strTolower (strTolower t) = strTolower t := by
  rw [strTolower, strTolower, List.map_map]
  exact List.map_congr_left fun c _ => toLower_toLower c

/-- The names of an entry, those of its channels included. -/
def Lowercase (nicknames : Text → Option Person) : Prop :=
  ∀ n person, nicknames n = some person →
    strTolower n = n ∧ ∀ channel ∈ person.channels, strTolower channel = channel

theorem Lowercase.update {nicknames : Text → Option Person} (h : Lowercase nicknames) {n : Text}
    {entry : Option Person} (hentry : ∀ person ∈ entry,
      strTolower n = n ∧ ∀ channel ∈ person.channels, strTolower channel = channel) :
    Lowercase (Function.update nicknames n entry) := by
  intro m person hm
  by_cases hmn : m = n
  · subst hmn
    rw [Function.update_self] at hm
    exact hentry person hm
  · rw [Function.update_of_ne hmn] at hm
    exact h m person hm

theorem Lowercase.erase {nicknames : Text → Option Person} (h : Lowercase nicknames) (n : Text) :
    Lowercase (Function.update nicknames n none) :=
  h.update fun _ hperson => absurd hperson (Option.not_mem_none _)

theorem finish_nicknames (s : State) (c : ℕ) (ok : Bool) : (s.finish c ok).nicknames = s.nicknames := by
  rw [State.finish]
  split_ifs <;> rfl

theorem nickLine_lowercase {s : State} (h : Lowercase s.nicknames) {c : ℕ} {n : Text}
    (hn : strTolower n = n) (sent : Bool) : Lowercase (nickLine s c n sent).nicknames := by
  rw [nickLine]
  by_cases hfree : s.nicknames n = none
  · rw [if_pos hfree]
    cases hold : s.nicknames (s.sessions c).nick with
    | some person =>
      refine (h.erase _).update fun p hp => ?_
      obtain rfl := Option.mem_some.mp hp
      exact ⟨hn, (h _ _ hold).2⟩
    | none =>
      refine h.update fun p hp => ?_
      obtain rfl := Option.mem_some.mp hp
      exact ⟨hn, by simp⟩
  · rw [if_neg hfree, finish_nicknames]
    exact h

theorem newNick_lowercase {parts : List Text} {n : Text} (h : newNick parts = some n) :
    strTolower n = n := by
  match parts with
  | [] | [_] => cases h
  | _ :: _ :: _ =>
    obtain ⟨-, hn⟩ := Option.ite_none_right_eq_some.mp h
    rw [← Option.some.inj hn]
    exact strTolower_strTolower _

theorem userLine_lowercase {s : State} (h : Lowercase s.nicknames) (c : ℕ) (line username : Text)
    (sent : Bool) : Lowercase (userLine s c line username sent).nicknames := by
  rw [userLine]
  cases hp : s.nicknames (s.sessions c).nick with
  | none =>
    rw [finish_nicknames]
    exact h
  | some person =>
    simp only [finish_nicknames]
    refine h.update fun p hp' => ?_
    obtain rfl := Option.mem_some.mp hp'
    exact ⟨(h _ _ hp).1, (h _ _ hp).2⟩

/-- What `JOIN` and `PART` do to the channels of a user one by one. -/
theorem foldl_edit_lowercase {edit : Finset Text → Text → Finset Text}
    (hedit : ∀ cs channel, strTolower channel = channel →
      ∀ x ∈ edit cs channel, x ∈ cs ∨ x = channel) (channels : List Text) {cs : Finset Text}
    (hcs : ∀ x ∈ cs, strTolower x = x) :
    ∀ x ∈ channels.foldl (fun cs channel => edit cs (strTolower channel)) cs, strTolower x = x := by
  induction channels generalizing cs with
  | nil => exact hcs
  | cons channel channels ih =>
    refine ih fun x hx => ?_
    have hlower := strTolower_strTolower channel
    obtain hx | rfl := hedit cs _ hlower x hx
    · exact hcs x hx
    · exact hlower

theorem editChannels_lowercase {s t : State} (h : Lowercase s.nicknames) {c : ℕ}
    {channels : List Text} {edit : Finset Text → Text → Finset Text}
    (hedit : ∀ cs channel, strTolower channel = channel →
      ∀ x ∈ edit cs channel, x ∈ cs ∨ x = channel)
    (ht : editChannels s c channels edit = some t) : Lowercase t.nicknames := by
  rw [editChannels] at ht
  split_ifs at ht
  · obtain rfl := Option.some.inj ht
    exact h
  · obtain ⟨person, hp, rfl⟩ := Option.map_eq_some_iff.mp ht
    refine h.update fun p hp' => ?_
    obtain rfl := Option.mem_some.mp hp'
    exact ⟨(h _ _ hp).1, foldl_edit_lowercase hedit channels (h _ _ hp).2⟩

theorem processLine_lowercase {s t : State} (h : Lowercase s.nicknames) {c : ℕ} {line : Text}
    {sent : Bool} (ht : processLine s c line sent = some t) : Lowercase t.nicknames := by
  cases hnick : newNick (split line ' ') with
  | some n =>
    simp only [processLine, hnick, Option.some.injEq] at ht
    obtain rfl := ht
    exact nickLine_lowercase h (newNick_lowercase hnick) sent
  | none =>
    simp only [processLine, hnick] at ht
    -- one case for each command, in the order of the source
    refine elim_ite ht (fun ht => ?_) fun ht => ?_
    · obtain rfl := Option.some.inj ht
      exact userLine_lowercase h c line _ sent
    refine elim_ite ht (fun ht => ?_) fun ht => ?_
    · obtain rfl := Option.some.inj ht
      exact h
    refine elim_ite ht (fun ht => ?_) fun ht => ?_
    · obtain ⟨u, hu, rfl⟩ := Option.map_eq_some_iff.mp ht
      rw [finish_nicknames]
      exact editChannels_lowercase h (fun cs channel _ x hx => (Finset.mem_insert.mp hx).symm) hu
    refine elim_ite ht (fun ht => ?_) fun ht => ?_
    · exact editChannels_lowercase h (fun cs channel _ x hx => .inl (Finset.mem_of_mem_erase hx)) ht
    refine elim_ite ht (fun ht => ?_) fun ht => ?_
    · obtain rfl := Option.some.inj ht
      exact h
    refine elim_ite ht (fun ht => ?_) fun ht => ?_
    · obtain rfl := Option.some.inj ht
      rw [finish_nicknames]
      exact h
    refine elim_ite ht (fun ht => ?_) fun ht => ?_
    · obtain rfl := Option.some.inj ht
      rw [finish_nicknames]
      exact h
    refine elim_ite ht (fun ht => ?_) fun ht => ?_
    · obtain rfl := Option.some.inj ht
      rw [finish_nicknames]
      exact h
    refine elim_ite ht (fun ht => ?_) fun ht => ?_
    · obtain rfl := Option.some.inj ht
      rw [finish_nicknames]
      exact h
    · obtain rfl := Option.some.inj ht
      exact h

theorem transmitToChannel_iff {s : State} {channel senderNick n : Text} :
    transmitToChannel s channel senderNick n = true ↔
      (s.Member channel n ∨ channel = n ∧ ∃ person, s.nicknames n = some person) ∧
        n ≠ senderNick := by
  rw [transmitToChannel, State.Member]
  cases s.nicknames n with
  | none => simp
  | some person => simp [and_comm]

/-- Nobody is in a channel under a name that is not in lowercase. -/
theorem Lowercase.not_member {s : State} (h : Lowercase s.nicknames) {channel : Text}
    (hcase : strTolower channel ≠ channel) (n : Text) : ¬s.Member channel n := by
  rintro ⟨person, hp, hchannel⟩
  exact hcase ((h n person hp).2 channel hchannel)

/-- In any other spelling it reaches nobody. -/
theorem Lowercase.transmitToChannel_eq_false {s : State} (h : Lowercase s.nicknames) {channel : Text}
    (hcase : strTolower channel ≠ channel) (senderNick n : Text) :
    ¬transmitToChannel s channel senderNick n = true := by
  rw [transmitToChannel_iff]
  rintro ⟨hmember | ⟨rfl, person, hp⟩, -⟩
  · exact h.not_member hcase n hmember
  · exact hcase (h _ person hp).1

theorem mem_foldl_insert (channels : List Text) (cs : Finset Text) (x : Text) :
    x ∈ channels.foldl (fun cs channel => insert (strTolower channel) cs) cs ↔
      x ∈ cs ∨ x ∈ channels.map strTolower := by
  induction channels generalizing cs with
  | nil => simp
  | cons channel channels ih =>
    rw [List.foldl_cons, ih, Finset.mem_insert, List.map_cons, List.mem_cons]
    tauto

theorem join_member {s t : State} {c : ℕ} {sent : Bool} {channels : List Text}
    (ht : (Request.join channels).act s c sent = some t) {channel : Text}
    (hchannel : channel ∈ channels) : t.Member (strTolower channel) (s.sessions c).nick := by
  obtain ⟨u, hu, rfl⟩ := Option.map_eq_some_iff.mp ht
  rw [editChannels, if_neg (List.ne_nil_of_mem hchannel)] at hu
  obtain ⟨person, -, rfl⟩ := Option.map_eq_some_iff.mp hu
  refine ⟨_, by rw [finish_nicknames]; exact Function.update_self _ _ _, ?_⟩
  exact (mem_foldl_insert _ _ _).mpr (.inr (List.mem_map_of_mem hchannel))

/-- A `JOIN` in another spelling adds a user to the channel and tells nobody, not even that user. -/
theorem not_caseInsensitive_join {s t : State} (h : Lowercase s.nicknames) {c : ℕ} {line : Text}
    {channels : List Text} (hline : request line = some (.join channels))
    (huser : (s.sessions c).seenUser = true) (hnick : (s.sessions c).seenNick = true) {sent : Bool}
    (ht : processLine s c line sent = some t) {channel : Text} (hchannel : channel ∈ channels)
    (hcase : strTolower channel ≠ channel) (theirAddr : Text) :
    ¬CaseInsensitive t c theirAddr (.join channels) := by
  rintro ⟨hnotices, -⟩
  have hlower := processLine_lowercase h ht
  rw [processLine_request hline huser hnick] at ht
  have hline := hnotices _ (List.mem_flatMap.mpr ⟨channel, hchannel, List.mem_cons_self⟩)
  exact hlower.transmitToChannel_eq_false hcase nobody _ ((hline _).mpr (join_member ht hchannel))

/-! ## The lines that are right -/

namespace Sample

def line (channel : String) : Text := ("JOIN " ++ channel).toList

def join (channel : String) : List Event :=
  [.connect 0, .line 0 "NICK ann".toList true, .line 0 "USER ann 0 * :Ann".toList true,
    .line 0 (line channel) true]

def joined : List (Move State Event Unit) × State :=
  (exec step .init (join "#lobby")).get (by decide +kernel)

end Sample

end MyIp.Irc
