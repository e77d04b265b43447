import SoulCloud.Config

/-!
# Publishing (`sc_mqtt::publish`, `sc_mqtt::publish_topic`)

Both functions are translated as they are; what esp-mqtt and the publish mutex
answer is in `PublishEnv`. The second component of the result is the message
that reached `esp_mqtt_client_publish`, whatever that call returned.
-/

namespace SoulCloud

open Bytes

/-- `sc_publish_props`. The correlation data is the `correlation_len` bytes that
`correlation` points to. -/
structure PublishProps where
  contentType : Option Bytes
  correlation : Bytes
  responseTopic : Option Bytes
  deriving DecidableEq, Repr

/-- One call of `esp_mqtt_client_publish`. -/
structure Published where
  topic : Bytes
  data : Bytes
  qos : Nat
  props : Option PublishProps
  deriving DecidableEq, Repr

/-- What the outside answers during one publish. -/
structure PublishEnv where
  /-- `publish_lock` was taken within `PUBLISH_LOCK_MS`. -/
  locked : Bool
  /-- `esp_mqtt5_client_set_publish_property`. -/
  property : EspErr
  /-- `esp_mqtt_client_publish`: the message id, -1 or -2. -/
  msgId : Int
  deriving DecidableEq, Repr

/-- `sc_codec::CONTENT_TYPE`. -/
def contentType : Bytes := ascii "application/json"

/-- The result of setting the properties, which is skipped when there are none. -/
def propertyRet (env : PublishEnv) (props : Option PublishProps) : EspErr :=
  if props.isSome then env.property else .ok

/-- The error code for a message id; -2 means that the outbox is full. -/
def msgIdRet (msgId : Int) : EspErr :=
  if msgId = -2 then .noMem else if msgId < 0 then .fail else .ok

/-- `sc_mqtt::publish_topic`: publish on a full topic, which must lie under `d/<id>/up/`. -/
def publishTopic (cfg : Config) (isConnected : Bool) (env : PublishEnv) (topic data : Bytes)
    (qos : Nat) (props : Option PublishProps) : EspErr × Option Published :=
  if ¬ cfg.upTopic <+: topic then (.invalidArg, none)
  else if ¬ isConnected then (.invalidState, none)
  else if ¬ env.locked then (.timeout, none)
  -- The lock covers both calls: the properties are those of the next publish.
  else if propertyRet env props = .ok then
    (msgIdRet env.msgId, some ⟨topic, data, qos, props⟩)
  else (propertyRet env props, none)

/-- `sc_mqtt::publish`: publish on `d/<id>/up/<sub_topic>`, built in a `char[96]`. -/
def publish (cfg : Config) (isConnected : Bool) (env : PublishEnv) (subTopic data : Bytes)
    (qos : Nat) (props : Option PublishProps) : EspErr × Option Published :=
  if 96 ≤ (cfg.upTopic ++ subTopic).length then (.invalidSize, none)
  else publishTopic cfg isConnected env (cfg.upTopic ++ subTopic) data qos props

/-! ## What a publish can do -/

variable {cfg : Config} {isConnected : Bool} {env : PublishEnv} {topic data : Bytes} {qos : Nat}
  {props : Option PublishProps}

theorem msgIdRet_ok_iff {msgId : Int} : msgIdRet msgId = .ok ↔ 0 ≤ msgId := by
  unfold msgIdRet
  split
  · simp
    omega
  · split
    · simp
      omega
    · simp
      omega

theorem msgIdRet_ne_invalidArg (msgId : Int) : msgIdRet msgId ≠ .invalidArg := by
  unfold msgIdRet
  split
  · simp
  · split <;> simp

theorem propertyRet_ne_invalidArg (henv : env.property ≠ .invalidArg) :
    propertyRet env props ≠ .invalidArg := by
  unfold propertyRet
  split
  · exact henv
  · simp

/-- A foreign topic is refused. -/
theorem publishTopic_foreign (h : ¬ cfg.upTopic <+: topic) :
    publishTopic cfg isConnected env topic data qos props = (.invalidArg, none) := by
  unfold publishTopic
  rw [if_pos h]

/-- A message that reaches esp-mqtt is exactly the one given, on a topic under
`d/<id>/up/`, and only while connected. -/
theorem publishTopic_sent {p : Published}
    (h : (publishTopic cfg isConnected env topic data qos props).2 = some p) :
    p = ⟨topic, data, qos, props⟩ ∧ cfg.upTopic <+: topic ∧ isConnected = true := by
  unfold publishTopic at h
  split at h
  · cases h
  · rename_i hpre
    split at h
    · cases h
    · rename_i hconn
      split at h
      · cases h
      · split at h
        · cases h
          exact ⟨rfl, by simpa using hpre, by simpa using hconn⟩
        · cases h

/-- Only a foreign topic is refused as an argument, as long as esp-mqtt does not
refuse the properties that way. -/
theorem publishTopic_invalidArg (henv : env.property ≠ .invalidArg)
    (h : (publishTopic cfg isConnected env topic data qos props).1 = .invalidArg) :
    ¬ cfg.upTopic <+: topic := by
  intro hpre
  unfold publishTopic at h
  rw [if_neg (not_not.mpr hpre)] at h
  split at h
  · cases h
  · split at h
    · cases h
    · split at h
      · exact msgIdRet_ne_invalidArg _ h
      · exact propertyRet_ne_invalidArg henv h

/-- A publish on a short enough sub-topic is a publish on the full topic. -/
theorem publish_of_short {subTopic : Bytes} (h : subTopic.length ≤ 64) :
    publish cfg isConnected env subTopic data qos props =
      publishTopic cfg isConnected env (cfg.upTopic ++ subTopic) data qos props := by
  unfold publish
  rw [if_neg]
  have := cfg.upTopic_length_le
  rw [List.length_append]
  omega

/-- The condition under which a publish with properties succeeds. -/
theorem publish_ok_iff {subTopic : Bytes} {pr : PublishProps} (h : subTopic.length ≤ 64) :
    (publish cfg isConnected env subTopic data qos (some pr)).1 = .ok ↔
      isConnected = true ∧ env.locked = true ∧ env.property = .ok ∧ 0 ≤ env.msgId := by
  rw [publish_of_short h]
  unfold publishTopic
  rw [if_neg (not_not.mpr (List.prefix_append _ _))]
  cases isConnected with
  | false => simp
  | true =>
    cases hl : env.locked with
    | false => simp
    | true =>
      by_cases hprop : env.property = .ok
      · simp [propertyRet, hprop, msgIdRet_ok_iff]
      · simp [propertyRet, hprop]

/-- A publish that succeeds has given its message to esp-mqtt. -/
theorem publish_sent_of_ok {subTopic : Bytes} {pr : PublishProps} (h : subTopic.length ≤ 64)
    (hok : (publish cfg isConnected env subTopic data qos (some pr)).1 = .ok) :
    (publish cfg isConnected env subTopic data qos (some pr)).2 =
      some ⟨cfg.upTopic ++ subTopic, data, qos, some pr⟩ := by
  obtain ⟨hconn, hlocked, hprop, -⟩ := (publish_ok_iff h).mp hok
  rw [publish_of_short h]
  unfold publishTopic
  rw [if_neg (not_not.mpr (List.prefix_append _ _)), if_neg (not_not.mpr hconn),
    if_neg (not_not.mpr hlocked), if_pos (show propertyRet env (some pr) = .ok from hprop)]

end SoulCloud
