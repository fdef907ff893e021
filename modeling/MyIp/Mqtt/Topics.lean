import MyIp.Foundations.Registry
import MyIp.Mqtt.Packets

/-! # The subscriptions of the MQTT broker

Topics without a `#` are kept in the map `topic_subscriptions`, those with one in the vector
`topic_wc_subscriptions`; each has the set of the sessions that registered it. A session is
known by its address, of the type `σ`. `holds_after` compares what the containers hold with the
history of calls (`Registry.Current`), `publish_eq` makes one delivery of the two loops of
`publish`. -/

namespace MyIp.Mqtt
set_option autoImplicit false

open Bytes Registry

/-- The character `#`. -/
def hash : Byte := 0x23

/-- The two containers. A topic is in the one that fits it, and in the vector only once. -/
structure Subscriptions (σ : Type) where
  topicSubscriptions : Std.TreeMap (List Byte) (Finset σ)
  topicWcSubscriptions : List (List Byte × Finset σ)
  plain : ∀ topic ∈ topicSubscriptions, hash ∉ topic
  wild : ∀ topic ∈ topicWcSubscriptions.map Prod.fst, hash ∈ topic
  distinct : (topicWcSubscriptions.map Prod.fst).Nodup

namespace Subscriptions
section Store
variable {σ : Type}

def empty : Subscriptions σ where
  topicSubscriptions := ∅
  topicWcSubscriptions := []
  plain := by simp
  wild := by simp
  distinct := List.nodup_nil

variable [LinearOrder σ]

/-- `register_topic`. -/
def registerTopic (topic : List Byte) (msd : σ) (subs : Subscriptions σ) : Subscriptions σ :=
  if wc : hash ∈ topic then
    { subs with
      topicWcSubscriptions := addFirst topic msd subs.topicWcSubscriptions
      wild := by
        intro t ht
        rcases mem_keys_addFirst.mp ht with rfl | ht
        · exact wc
        · exact subs.wild t ht
      distinct := nodup_keys_addFirst topic msd subs.distinct }
  else
    { subs with
      topicSubscriptions := subs.topicSubscriptions.insert topic
        (match subs.topicSubscriptions[topic]? with
        | some sessions => insert msd sessions
        | none => {msd})
      plain := by
        intro t ht
        rcases Std.TreeMap.mem_insert.mp ht with heq | ht
        · exact Std.LawfulEqCmp.eq_of_compare heq ▸ wc
        · exact subs.plain t ht }

/-- `unregister_topic`: both containers are searched. -/
def unregisterTopic (topic : List Byte) (msd : σ) (subs : Subscriptions σ) : Subscriptions σ where
  topicSubscriptions := subs.topicSubscriptions.modify topic (·.erase msd)
  topicWcSubscriptions := dropFirst topic msd subs.topicWcSubscriptions
  plain := by
    intro t ht
    exact subs.plain t (Std.TreeMap.mem_modify.mp ht)
  wild := by
    rw [keys_dropFirst]
    exact subs.wild
  distinct := by
    rw [keys_dropFirst]
    exact subs.distinct

/-- `unregister_all_topics`. -/
def unregisterAllTopics (msd : σ) (subs : Subscriptions σ) : Subscriptions σ where
  topicSubscriptions := subs.topicSubscriptions.map fun _ sessions => sessions.erase msd
  topicWcSubscriptions := dropAll msd subs.topicWcSubscriptions
  plain := by
    intro t ht
    exact subs.plain t (Std.TreeMap.mem_map.mp ht)
  wild := by
    rw [keys_dropAll]
    exact subs.wild
  distinct := by
    rw [keys_dropAll]
    exact subs.distinct

/-- A call by a session: to join a topic is to register it. -/
def step (subs : Subscriptions σ) : Event (List Byte) σ → Subscriptions σ
  | .join topic msd => subs.registerTopic topic msd
  | .leave topic msd => subs.unregisterTopic topic msd
  | .leaveAll msd => subs.unregisterAllTopics msd

/-- The containers after a sequence of calls. -/
def after (calls : List (Event (List Byte) σ)) : Subscriptions σ := calls.foldl step empty

/-- The loop of `publish` over `topic_wc_subscriptions`; a topic in it without a `#` would fail the
assertion. -/
def publishWc (topic msg : List Byte) :
    List (List Byte × Finset σ) → (σ → List (List Byte)) → Option (σ → List (List Byte))
  | [], queues => some queues
  | (filter, sessions) :: rest, queues =>
    if hash ∉ filter then none
    else
      let wc := filter.idxOf hash
      if topic.take wc ≠ filter.take wc then publishWc topic msg rest queues
      else publishWc topic msg rest (pushAll msg sessions queues)

/-- `publish`; `queues` is `msgs_out` of each session. -/
def publish (subs : Subscriptions σ) (topic data : List Byte) (queues : σ → List (List Byte)) :
    Option (σ → List (List Byte)) :=
  let msg := publishMessage topic data
  let queues := subs.topicSubscriptions.toList.foldl
    (fun queues entry => if entry.1 ≠ topic then queues else pushAll msg entry.2 queues) queues
  publishWc topic msg subs.topicWcSubscriptions queues

/-- All pairs of both containers. -/
def entries (subs : Subscriptions σ) : List (List Byte × Finset σ) :=
  subs.topicSubscriptions.toList ++ subs.topicWcSubscriptions

/-- The session `s` is in one of the sets of `filter`. -/
def Holds (subs : Subscriptions σ) (filter : List Byte) (s : σ) : Prop :=
  Held subs.entries filter s

omit [LinearOrder σ] in
theorem held_toList (m : Std.TreeMap (List Byte) (Finset σ)) (filter : List Byte) (s : σ) :
    Held m.toList filter s ↔ ∃ sessions, m[filter]? = some sessions ∧ s ∈ sessions := by
  simp only [Held, Std.TreeMap.mem_toList_iff_getElem?_eq_some]

omit [LinearOrder σ] in
theorem holds_iff (subs : Subscriptions σ) (filter : List Byte) (s : σ) :
    subs.Holds filter s ↔
      (∃ sessions, subs.topicSubscriptions[filter]? = some sessions ∧ s ∈ sessions) ∨
        Held subs.topicWcSubscriptions filter s := by
  rw [Holds, entries, held_append, held_toList]

omit [LinearOrder σ] in
theorem not_holds_empty (filter : List Byte) (s : σ) :
    ¬(empty : Subscriptions σ).Holds filter s := by
  rw [holds_iff]
  rintro (⟨sessions, hget, -⟩ | ⟨sessions, hmem, -⟩)
  · simp [empty] at hget
  · cases hmem

theorem holds_registerTopic (subs : Subscriptions σ) (topic : List Byte) (msd : σ)
    (filter : List Byte) (s : σ) :
    (subs.registerTopic topic msd).Holds filter s ↔
      (topic = filter ∧ msd = s) ∨ subs.Holds filter s := by
  rw [holds_iff, holds_iff, registerTopic]
  by_cases wc : hash ∈ topic
  · rw [dif_pos wc]
    dsimp only
    rw [held_addFirst, or_left_comm]
  · rw [dif_neg wc]
    dsimp only
    rw [Std.TreeMap.getElem?_insert]
    by_cases heq : topic = filter
    · subst heq
      rw [if_pos (Std.ReflCmp.compare_self)]
      cases hget : subs.topicSubscriptions[topic]? with
      | none => simp [eq_comm]
      | some sessions => simp [or_assoc, eq_comm]
    · rw [if_neg (fun h => heq (Std.LawfulEqCmp.eq_of_compare h))]
      simp [heq]

theorem holds_unregisterTopic (subs : Subscriptions σ) (topic : List Byte) (msd : σ)
    (filter : List Byte) (s : σ) :
    (subs.unregisterTopic topic msd).Holds filter s ↔
      subs.Holds filter s ∧ ¬(topic = filter ∧ msd = s) := by
  rw [holds_iff, holds_iff, unregisterTopic]
  dsimp only
  rw [held_dropFirst topic msd subs.distinct, Std.TreeMap.getElem?_modify, or_and_right]
  refine or_congr ?_ Iff.rfl
  by_cases heq : topic = filter
  · subst heq
    rw [if_pos (Std.ReflCmp.compare_self)]
    cases subs.topicSubscriptions[topic]? with
    | none => simp
    | some sessions => simp [and_comm, eq_comm]
  · rw [if_neg (fun h => heq (Std.LawfulEqCmp.eq_of_compare h))]
    simp [heq]

theorem holds_unregisterAllTopics (subs : Subscriptions σ) (msd : σ) (filter : List Byte) (s : σ) :
    (subs.unregisterAllTopics msd).Holds filter s ↔ subs.Holds filter s ∧ msd ≠ s := by
  rw [holds_iff, holds_iff, unregisterAllTopics]
  dsimp only
  rw [held_dropAll, Std.TreeMap.getElem?_map, or_and_right]
  refine or_congr ?_ Iff.rfl
  cases subs.topicSubscriptions[filter]? with
  | none => simp
  | some sessions => simp [and_comm, eq_comm]

theorem holds_step (subs : Subscriptions σ) (e : Event (List Byte) σ) (filter : List Byte) (s : σ) :
    (subs.step e).Holds filter s ↔ e = Event.join filter s ∨
      (subs.Holds filter s ∧ e ≠ Event.leave filter s ∧ e ≠ Event.leaveAll s) := by
  cases e with
  | join topic msd =>
    rw [step, holds_registerTopic]
    simp
  | leave topic msd =>
    rw [step, holds_unregisterTopic]
    simp
  | leaveAll msd =>
    rw [step, holds_unregisterAllTopics]
    simp

/-- The containers hold what the calls say. -/
theorem holds_after (calls : List (Event (List Byte) σ)) (filter : List Byte) (s : σ) :
    (after calls).Holds filter s ↔ Current calls filter s :=
  holds_iff_current not_holds_empty holds_step calls filter s

omit [LinearOrder σ] in
/-- No topic is listed twice, in one container or in both. -/
theorem nodup_keys_entries (subs : Subscriptions σ) : (subs.entries.map Prod.fst).Nodup := by
  rw [entries, List.map_append, Std.TreeMap.map_fst_toList_eq_keys, List.nodup_append]
  refine ⟨Std.TreeMap.nodup_keys, subs.distinct, ?_⟩
  rintro topic hplain _ hwild rfl
  exact subs.plain topic (Std.TreeMap.mem_keys.mp hplain) (subs.wild topic hwild)

/-! ## Who gets a message -/

/-- A filter with a `#` is for all topics that begin as it does up to there. -/
def Covers (filter topic : List Byte) : Prop :=
  (hash ∉ filter ∧ filter = topic) ∨
    (hash ∈ filter ∧ filter.take (filter.idxOf hash) <+: topic)

instance (filter topic : List Byte) : Decidable (Covers filter topic) :=
  inferInstanceAs (Decidable (_ ∨ _))

theorem covers_plain {filter : List Byte} (h : hash ∉ filter) (topic : List Byte) :
    Covers filter topic ↔ filter = topic := by
  simp [Covers, h]

theorem covers_wild {filter : List Byte} (h : hash ∈ filter) (topic : List Byte) :
    Covers filter topic ↔ topic.take (filter.idxOf hash) = filter.take (filter.idxOf hash) := by
  have hlen : (filter.take (filter.idxOf hash)).length = filter.idxOf hash := by
    rw [List.length_take, min_eq_left (List.idxOf_lt_length_of_mem h).le]
  rw [Covers, or_iff_right (fun hp => hp.1 h), and_iff_right h, List.prefix_iff_eq_take, hlen,
    eq_comm]

theorem publishWc_eq (topic msg : List Byte) {es : List (List Byte × Finset σ)}
    (h : ∀ filter ∈ es.map Prod.fst, hash ∈ filter) (queues : σ → List (List Byte)) :
    publishWc topic msg es queues =
      some (deliver (fun filter => decide (Covers filter topic)) msg es queues) := by
  induction es generalizing queues with
  | nil => rfl
  | cons e es ih =>
    have hhash : hash ∈ e.1 := h e.1 List.mem_cons_self
    have hrest := ih (fun filter hf => h filter (List.mem_cons_of_mem _ hf))
    have hcov := covers_wild hhash topic
    rw [publishWc, if_neg (not_not.mpr hhash), deliver_cons]
    dsimp only
    by_cases hc : topic.take (e.1.idxOf hash) = e.1.take (e.1.idxOf hash)
    · rw [if_neg (not_not.mpr hc), if_pos (decide_eq_true (hcov.mpr hc)), hrest]
    · rw [if_pos hc, if_neg (fun h' => hc (hcov.mp (of_decide_eq_true h'))), hrest]

theorem foldl_plain_eq (topic msg : List Byte) {es : List (List Byte × Finset σ)}
    (h : ∀ filter ∈ es.map Prod.fst, hash ∉ filter) (queues : σ → List (List Byte)) :
    es.foldl (fun queues entry => if entry.1 ≠ topic then queues else pushAll msg entry.2 queues)
        queues =
      deliver (fun filter => decide (Covers filter topic)) msg es queues := by
  refine List.foldl_ext _ _ _ fun q e he => ?_
  have hcov := covers_plain (h e.1 (List.mem_map_of_mem he)) topic
  by_cases heq : e.1 = topic
  · rw [if_neg (not_not.mpr heq), if_pos (decide_eq_true (hcov.mpr heq))]
  · rw [if_pos heq, if_neg (fun h' => heq (hcov.mp (of_decide_eq_true h')))]

/-- The two loops are one delivery to everyone whose filter covers the topic, and the assertion
holds. -/
theorem publish_eq (subs : Subscriptions σ) (topic data : List Byte)
    (queues : σ → List (List Byte)) :
    subs.publish topic data queues =
      some (deliver (fun filter => decide (Covers filter topic)) (publishMessage topic data)
        subs.entries queues) := by
  have hplain : ∀ filter ∈ subs.topicSubscriptions.toList.map Prod.fst, hash ∉ filter := by
    intro filter hf
    rw [Std.TreeMap.map_fst_toList_eq_keys] at hf
    exact subs.plain filter (Std.TreeMap.mem_keys.mp hf)
  rw [publish, publishWc_eq topic _ subs.wild, foldl_plain_eq topic _ hplain, entries,
    deliver_append]

/-- After every sequence of calls a message for `topic` is queued for a session once for each
filter that the session is subscribed to and that covers the topic: not at all, if the last call of
the session was `unregister_all_topics`. -/
theorem publish_after_calls (calls : List (Event (List Byte) σ)) (topic data : List Byte)
    (queues : σ → List (List Byte)) :
    ∃ queues', (after calls).publish topic data queues = some queues' ∧
      ∀ s, (∃ filters : Finset (List Byte),
          (∀ filter, filter ∈ filters ↔ Current calls filter s ∧ Covers filter topic) ∧
          queues' s = queues s ++ List.replicate filters.card (publishMessage topic data)) ∧
        (Gone calls s → queues' s = queues s) := by
  refine ⟨_, publish_eq (after calls) topic data queues, fun s => ?_⟩
  have hnodup := nodup_memberKeys (fun filter => decide (Covers filter topic))
    (after calls).nodup_keys_entries s
  have hmem : ∀ filter, filter ∈ memberKeys (fun filter => decide (Covers filter topic))
      (after calls).entries s ↔ Current calls filter s ∧ Covers filter topic := by
    intro filter
    rw [mem_memberKeys, decide_eq_true_iff]
    exact and_congr_left fun _ => holds_after calls filter s
  rw [deliver_apply]
  constructor
  · refine ⟨_, fun filter => List.mem_toFinset.trans (hmem filter), ?_⟩
    rw [List.toFinset_card_of_nodup hnodup]
  · intro gone
    have hnone : memberKeys (fun filter => decide (Covers filter topic)) (after calls).entries s =
        [] := List.eq_nil_iff_forall_not_mem.mpr fun filter hf =>
      gone.not_current filter ((hmem filter).mp hf).1
    rw [hnone, List.length_nil, List.replicate_zero, List.append_nil]

end Store
end Subscriptions

end MyIp.Mqtt
