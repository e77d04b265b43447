import SoulCloud.Device

/-!
# The topics of events and calls

`publish_event` and `sc_rpc::call` format the end of the topic into an array of their own
before `sc_mqtt::publish` adds the prefix. `publish` checks the length of the whole topic; what
the first array cut off it cannot see.

- `publishEvent`: `sc_client::publish_event`.
- `callTopic_eq`: the end of a call's topic, as far as it fits.
- `NamedRight`: a message goes out on the topic of its name, and a name that is too long is
  refused.
- `topics_right_iff`: it does exactly if the name fits the first array or the publish does not
  get through.
-/

namespace SoulCloud

open Bytes

/-! ## Events -/

/-- The properties of an event. -/
def eventProps : PublishProps where
  contentType := some contentType
  correlation := []
  responseTopic := none

/-- `sc_client::publish_event`, with what it passes on to esp-mqtt; `started` says whether there
is an `sc_mqtt`. The `snprintf` into `char[48]` is not checked. -/
def publishEvent (cfg : Config) (started isConnected : Bool) (env : PublishEnv)
    (name json : Bytes) : EspErr × Option Published :=
  if started then
    publish cfg isConnected env (snprintf 48 (ascii "evt/" ++ name)) json 1 (some eventProps)
  else (.invalidState, none)

/-! ## The topic of a name -/

/-- A method name as topic levels. -/
def topicLevels (method : Bytes) : Bytes := method.map fun c => if c = 46 then 47 else c

/-- A publish of `data` for a name: if it succeeds the message is on `topic`, and a name that
does not fit is refused. -/
def NamedRight (result : EspErr × Option Published) (topic data : Bytes) (props : PublishProps)
    (tooLong : Prop) : Prop :=
  (result.1 = .ok → result.2 = some ⟨topic, data, 1, some props⟩) ∧ (tooLong → result.1 ≠ .ok)

/-- A publish gets through: the device is connected and esp-mqtt takes the message. -/
def GetsThrough (isConnected : Bool) (env : PublishEnv) : Prop :=
  isConnected = true ∧ env.locked = true ∧ env.property = .ok ∧ 0 ≤ env.msgId

variable {cfg : Config} {isConnected : Bool} {env : PublishEnv}

/-- What is sent is the sub-topic as it was cut. -/
theorem sent_eq_iff {size : Nat} {text data : Bytes} {pr : PublishProps} (hpos : 0 < size)
    (hsize : size ≤ 65) (hok : (publish cfg isConnected env (snprintf size text) data 1
      (some pr)).1 = .ok) :
    (publish cfg isConnected env (snprintf size text) data 1 (some pr)).2 =
        some ⟨cfg.upTopic ++ text, data, 1, some pr⟩ ↔ text.length < size := by
  have hshort : (snprintf size text).length ≤ 64 := by
    rw [snprintf]
    rw [List.length_take]
    omega
  rw [publish_sent_of_ok hshort hok]
  constructor
  · intro h
    have htopic : cfg.upTopic ++ snprintf size text = cfg.upTopic ++ text :=
      congrArg Published.topic (Option.some.inj h)
    have hlen := congrArg List.length (List.append_cancel_left htopic)
    rw [snprintf] at hlen
    rw [List.length_take] at hlen
    omega
  · intro hlt
    rw [snprintf_of_lt hlt]

/-- **A cut name.** The publish is right exactly if nothing was cut off or it does not get
through. -/
theorem namedRight_snprintf_iff {size : Nat} {text data : Bytes} {pr : PublishProps}
    (hpos : 0 < size) (hsize : size ≤ 65) :
    NamedRight (publish cfg isConnected env (snprintf size text) data 1 (some pr))
        (cfg.upTopic ++ text) data pr (size ≤ text.length) ↔
      text.length < size ∨ ¬ GetsThrough isConnected env := by
  have hshort : (snprintf size text).length ≤ 64 := by
    rw [snprintf]
    rw [List.length_take]
    omega
  have hthrough : (publish cfg isConnected env (snprintf size text) data 1 (some pr)).1 = .ok ↔
      GetsThrough isConnected env := publish_ok_iff hshort
  constructor
  · rintro ⟨hsent, -⟩
    by_contra hno
    obtain ⟨hlong, hgets⟩ := not_or.mp hno
    have hok := hthrough.mpr (not_not.mp hgets)
    exact hlong ((sent_eq_iff hpos hsize hok).mp (hsent hok))
  · intro h
    constructor
    · intro hok
      rcases h with hlt | hnot
      · exact (sent_eq_iff hpos hsize hok).mpr hlt
      · exact absurd (hthrough.mp hok) hnot
    · intro hlong hok
      rcases h with hlt | hnot
      · exact absurd hlt (Nat.not_lt.mpr hlong)
      · exact hnot (hthrough.mp hok)

/-- The topic of an event. -/
theorem eventTopic_eq (cfg : Config) (name : Bytes) :
    cfg.upTopic ++ (ascii "evt/" ++ name) =
      ascii "d/" ++ cfg.deviceId ++ ascii "/up/evt/" ++ name := by
  have hjoin : ascii "/up/evt/" = ascii "/up/" ++ ascii "evt/" := by decide
  rw [cfg.upTopic_eq, hjoin]
  simp only [List.append_assoc]

/-- Turning dots into levels and cutting commute. -/
theorem callTopic_eq (method : Bytes) :
    Rpc.callTopic method = snprintf 64 (ascii "req/" ++ topicLevels method) := by
  have hlevels : ascii "req/" ++ topicLevels method =
      (ascii "req/" ++ method).map fun c => if c = 46 then 47 else c := by
    rw [List.map_append]
    rfl
  unfold Rpc.callTopic snprintf
  rw [hlevels, List.map_take]

/-- The topic of a call. -/
theorem requestTopic_eq (cfg : Config) (method : Bytes) :
    cfg.upTopic ++ (ascii "req/" ++ topicLevels method) =
      ascii "d/" ++ cfg.deviceId ++ ascii "/up/req/" ++ topicLevels method := by
  have hjoin : ascii "/up/req/" = ascii "/up/" ++ ascii "req/" := by decide
  rw [cfg.upTopic_eq, hjoin]
  simp only [List.append_assoc]

/-- **The topics of events and calls.** An event is published on `d/<id>/up/evt/<name>` or refused
if and only if its name has at most 43 bytes or the publish does not get through; and a call on
`d/<id>/up/req/<method>` with levels for dots, if and only if its method has at most 59 bytes or
the publish does not get through. -/
theorem topics_right_iff (cfg : Config) (env : PublishEnv) :
    (∀ (started isConnected : Bool) (name json : Bytes),
      NamedRight (publishEvent cfg started isConnected env name json)
          (ascii "d/" ++ cfg.deviceId ++ ascii "/up/evt/" ++ name) json eventProps
          (48 ≤ (ascii "evt/" ++ name).length) ↔
        name.length ≤ 43 ∨ ¬ (started = true ∧ GetsThrough isConnected env)) ∧
    ∀ (s : Device cfg) (c : Call),
      NamedRight (s.publishCall c env)
          (ascii "d/" ++ cfg.deviceId ++ ascii "/up/req/" ++ topicLevels c.method) c.params
          (Rpc.callProps cfg c.correlation) (64 ≤ (ascii "req/" ++ c.method).length) ↔
        c.method.length ≤ 59 ∨ ¬ GetsThrough s.mqtt.isConnected env := by
  constructor
  · intro started isConnected name json
    have hlen : (ascii "evt/" ++ name).length = 4 + name.length := by
      rw [List.length_append]
      rfl
    cases started with
    | false =>
      refine iff_of_true ⟨nofun, fun _ => nofun⟩ (.inr fun h => ?_)
      exact Bool.false_ne_true h.1
    | true =>
      have hcut := @namedRight_snprintf_iff cfg isConnected env 48 (ascii "evt/" ++ name) json
        eventProps (by decide) (by decide)
      rw [eventTopic_eq] at hcut
      have hevent : publishEvent cfg true isConnected env name json =
          publish cfg isConnected env (snprintf 48 (ascii "evt/" ++ name)) json 1
            (some eventProps) := if_pos rfl
      rw [hevent, hcut, hlen]
      refine or_congr (by omega) ?_
      rw [eq_self_iff_true, true_and]
  · intro s c
    have hlen : (ascii "req/" ++ topicLevels c.method).length = 4 + c.method.length := by
      rw [List.length_append, topicLevels, List.length_map]
      rfl
    have hlong : (ascii "req/" ++ c.method).length = 4 + c.method.length := by
      rw [List.length_append]
      rfl
    have hcut := @namedRight_snprintf_iff cfg s.mqtt.isConnected env 64
      (ascii "req/" ++ topicLevels c.method) c.params (Rpc.callProps cfg c.correlation) (by decide)
      (by decide)
    rw [requestTopic_eq, hlen] at hcut
    rw [Device.publishCall]
    rw [callTopic_eq, hlong, hcut]
    exact or_congr (by omega) Iff.rfl

/-- An event with a name of 44 bytes is published under the first 43 of them, and `ESP_OK` is
returned. -/
theorem publish_event_cuts_name :
    publishEvent .sample true true ⟨true, .ok, 1⟩ (List.replicate 44 97) (ascii "1") =
        (.ok, some ⟨ascii "d/a1/up/evt/" ++ List.replicate 43 97, ascii "1", 1,
          some eventProps⟩) ∧
      ¬ NamedRight (publishEvent .sample true true ⟨true, .ok, 1⟩ (List.replicate 44 97)
          (ascii "1"))
        (ascii "d/" ++ Config.sample.deviceId ++ ascii "/up/evt/" ++ List.replicate 44 97)
        (ascii "1") eventProps (48 ≤ (ascii "evt/" ++ List.replicate 44 (97 : UInt8)).length) := by
  have hsent : publishEvent .sample true true ⟨true, .ok, 1⟩ (List.replicate 44 97) (ascii "1") =
      (.ok, some ⟨ascii "d/a1/up/evt/" ++ List.replicate 43 97, ascii "1", 1,
        some eventProps⟩) := by
    decide +kernel
  refine ⟨hsent, ?_⟩
  rw [hsent]
  rintro ⟨-, hrefused⟩
  exact hrefused (by decide) rfl

end SoulCloud
