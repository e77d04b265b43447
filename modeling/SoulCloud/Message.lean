import SoulCloud.Config

/-!
# MQTT messages and the data events they arrive as

The broker sends whole messages. esp-mqtt hands a message that does not fit its
receive buffer to the client as several `MQTT_EVENT_DATA` events: consecutive
fragments of the payload, of which only the first (offset 0) has the topic and
the properties.

`Message` is the broker's view and carries what MQTT 5 guarantees of it: topic
names are UTF-8 strings, which must not contain U+0000. `Event` is the client's
view, with no guarantee at all.
-/

namespace SoulCloud

open Bytes

/-! ## Topics -/

/-- The method name under `d/<id>/down/req/`. -/
def requestMethod (cfg : Config) (topic : Bytes) : Bytes :=
  topic.drop (cfg.downTopic ++ ascii "req/").length

/-- A request topic is `d/<id>/down/req/<method>` with a non-empty method. -/
def IsRequestTopic (cfg : Config) (topic : Bytes) : Prop :=
  cfg.downTopic ++ ascii "req/" <+: topic ∧ requestMethod cfg topic ≠ []

/-- The response topic of the device's calls is `d/<id>/down/res`. -/
def IsResponseTopic (cfg : Config) (topic : Bytes) : Prop :=
  topic = cfg.downTopic ++ ascii "res"

instance (cfg : Config) (topic : Bytes) : Decidable (IsRequestTopic cfg topic) :=
  inferInstanceAs (Decidable (_ ∧ _))

instance (cfg : Config) (topic : Bytes) : Decidable (IsResponseTopic cfg topic) :=
  inferInstanceAs (Decidable (_ = _))

theorem requestMethod_append (cfg : Config) (sub : Bytes) :
    requestMethod cfg (cfg.downTopic ++ sub) = sub.drop 4 := by
  have hreq : (ascii "req/").length = 4 := by decide
  unfold requestMethod
  rw [List.length_append, hreq, List.drop_append]
  simp

/-- The tests of `handle_data` that lead to `start_request`, on a topic below
`d/<id>/down/`. -/
theorem isRequestTopic_iff {cfg : Config} {sub : Bytes} :
    IsRequestTopic cfg (cfg.downTopic ++ sub) ↔ 4 < sub.length ∧ ascii "req/" <+: sub := by
  unfold IsRequestTopic
  rw [requestMethod_append, List.prefix_append_right_inj]
  constructor
  · rintro ⟨hpre, hne⟩
    refine ⟨?_, hpre⟩
    by_contra hle
    exact hne (List.drop_eq_nil_of_le (by omega))
  · rintro ⟨hlen, hpre⟩
    refine ⟨hpre, ?_⟩
    intro hnil
    have := List.drop_eq_nil_iff.mp hnil
    omega

/-- The tests that lead to `rx_response`. -/
theorem isResponseTopic_iff {cfg : Config} {sub : Bytes} :
    IsResponseTopic cfg (cfg.downTopic ++ sub) ↔ sub.length = 3 ∧ ascii "res" <+: sub := by
  have hres : (ascii "res").length = 3 := by decide
  unfold IsResponseTopic
  rw [List.append_cancel_left_eq]
  constructor
  · rintro rfl
    exact ⟨hres, List.prefix_rfl⟩
  · rintro ⟨hlen, hpre⟩
    exact (hpre.eq_of_length (by omega)).symm

theorem downTopic_prefix_of_isRequestTopic {cfg : Config} {topic : Bytes}
    (h : IsRequestTopic cfg topic) : cfg.downTopic <+: topic :=
  (List.prefix_append _ _).trans h.1

theorem downTopic_prefix_of_isResponseTopic {cfg : Config} {topic : Bytes}
    (h : IsResponseTopic cfg topic) : cfg.downTopic <+: topic :=
  h ▸ List.prefix_append _ _

theorem not_isRequestTopic_of_isResponseTopic {cfg : Config} {topic : Bytes}
    (h : IsResponseTopic cfg topic) : ¬ IsRequestTopic cfg topic := by
  intro hreq
  have hlen := hreq.1.length_le
  have h₁ : (ascii "req/").length = 4 := by decide
  have h₂ : (ascii "res").length = 3 := by decide
  rw [h, List.length_append, List.length_append, h₁, h₂] at hlen
  omega

/-! ## Events and messages -/

/-- `esp_mqtt5_event_property_t`: the properties of a message that the client reads.
Absent correlation data or response topic have length 0. -/
structure Property where
  correlationData : Bytes
  responseTopic : Bytes
  /-- MQTT 5: a topic name contains no U+0000. -/
  responseTopic_nul : 0 ∉ responseTopic := by decide

namespace Property

/-- The correlation data an answer carries: what the request brought, when that is
1 to 64 bytes long, and none otherwise. -/
def answerCorrelation (props : Option Property) : Bytes :=
  match props with
  | none => []
  | some p =>
    if 0 < p.correlationData.length ∧ p.correlationData.length ≤ 64 then p.correlationData else []

/-- The response topic the platform named, when it is 1 to 95 bytes long. -/
def ownTopic (props : Option Property) : Bytes :=
  match props with
  | none => []
  | some p =>
    if 0 < p.responseTopic.length ∧ p.responseTopic.length < 96 then p.responseTopic else []

/-- The correlation of a response: at most 64 bytes, or none. -/
def responseCorrelation (props : Option Property) : Bytes :=
  match props with
  | none => []
  | some p => if p.correlationData.length ≤ 64 then p.correlationData else []

end Property

/-- `esp_mqtt_event_t` of an `MQTT_EVENT_DATA`. -/
structure Event where
  topic : Bytes
  property : Option Property
  data : Bytes
  currentDataOffset : Nat
  totalDataLen : Nat

/-- A message published to the device. -/
structure Message where
  topic : Bytes
  property : Option Property
  payload : Bytes
  /-- MQTT 5: a topic name contains no U+0000. -/
  topic_nul : 0 ∉ topic := by decide

namespace Message

variable (m : Message)

/-- The event for the `len` payload bytes from `off` on. -/
def fragment (off len : Nat) : Event where
  topic := if off = 0 then m.topic else []
  property := if off = 0 then m.property else none
  data := (m.payload.drop off).take len
  currentDataOffset := off
  totalDataLen := m.payload.length

/-- The correlation data the message carries. -/
def correlation : Bytes := (m.property.map Property.correlationData).getD []

/-- The response topic the message carries. -/
def responseTopic : Bytes := (m.property.map Property.responseTopic).getD []

/-- A request to the device. -/
def IsRequest (cfg : Config) : Prop := IsRequestTopic cfg m.topic

/-- A response to one of the device's calls. -/
def IsResponse (cfg : Config) : Prop := IsResponseTopic cfg m.topic

instance (cfg : Config) : Decidable (m.IsRequest cfg) :=
  inferInstanceAs (Decidable (IsRequestTopic _ _))

instance (cfg : Config) : Decidable (m.IsResponse cfg) :=
  inferInstanceAs (Decidable (IsResponseTopic _ _))

/-! ## Fragments -/

theorem fragment_data_length {off len : Nat} (h : off + len ≤ m.payload.length) :
    (m.fragment off len).data.length = len := by
  show ((m.payload.drop off).take len).length = len
  rw [List.length_take, List.length_drop]
  omega

/-- The payload up to the end of a fragment is the payload before it and its data. -/
theorem take_append_fragment (off len : Nat) :
    m.payload.take off ++ (m.fragment off len).data = m.payload.take (off + len) :=
  (List.take_add ..).symm

end Message

end SoulCloud
