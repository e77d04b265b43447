import SoulCloud.Lib.Lts
import SoulCloud.Rpc

/-!
# The device: the MQTT task beside the request task

`sc_mqtt` runs on the esp-mqtt task, `sc_rpc`'s handling and calls on the request
task. `device cfg` interleaves the two. A step is one operation that the other
task can observe: a queue operation, a critical section, an event-group
operation, a load or store of `is_connected`, or a piece of code that only
touches a slot its task owns. Operations on data that only one task uses
(`rx_slot`, `rx_response`, `rx_correlation`, locals) are merged into the step
before or after them.

- The MQTT task is driven by esp-mqtt events. `event_handler` starts at `idle`;
  `handle_data` continues through `route` (topic match), `fill`
  (`start_request`) and `data` (the fragment itself).
- The request task is not bound to the loop of `sc_client::run_task` here: when
  idle it may take a request or start a call, in any order and any number of
  times. The loop itself is `Client.lean`, whose runs are runs of this system.

Two flags record what the source takes for impossible: `pastEnd`, a write past
the end of an array, and `queueFull`, a queue that refused a slot index.
-/

namespace SoulCloud

open Bytes

/-- The part of `sc_mqtt` that outlives an event. All but `is_connected` is used by
the MQTT task only. -/
structure Mqtt where
  isConnected : Bool
  rxSlot : Option Nat
  rxResponse : Bool
  rxCorrelation : Buf 64
  rxCorrelationLen : Nat

namespace Mqtt

def init : Mqtt := ⟨false, none, false, .zero 64, 0⟩

/-- `handle_data`, the `res` branch: remember the correlation of the response. -/
def startResponse (m : Mqtt) (evt : Event) : Option Mqtt :=
  match evt.property with
  | none => some { m with rxResponse := true, rxCorrelationLen := 0 }
  | some p =>
    if p.correlationData.length ≤ 64 then do
      let copied ← m.rxCorrelation.memcpy 0 p.correlationData
      return { m with
        rxResponse := true
        rxCorrelation := copied
        rxCorrelationLen := p.correlationData.length }
    else some { m with rxResponse := true, rxCorrelationLen := 0 }

/-- The correlation `handle_data` passes to `deliver_response`. -/
def correlation (m : Mqtt) : Bytes := m.rxCorrelation.text m.rxCorrelationLen

/-- The correlation of a response fits `rx_correlation` or is dropped, and the rest
of the receiver's state stays. -/
theorem startResponse_spec (m : Mqtt) (evt : Event) :
    ∃ m', m.startResponse evt = some m' ∧
      m' = { m with
        rxResponse := true
        rxCorrelation := m'.rxCorrelation, rxCorrelationLen := m'.rxCorrelationLen } ∧
      m'.correlation = Property.responseCorrelation evt.property := by
  rw [startResponse]
  cases hprops : evt.property with
  | none => exact ⟨_, rfl, rfl, rfl⟩
  | some p =>
    by_cases hfit : p.correlationData.length ≤ 64
    · obtain ⟨b, hb, -⟩ :=
        m.rxCorrelation.memcpy_of_le 0 p.correlationData (by omega)
      refine ⟨{ m with
        rxResponse := true
        rxCorrelation := b
        rxCorrelationLen := p.correlationData.length }, ?_, rfl, ?_⟩
      · show (if _ then _ else _) = _
        rw [if_pos hfit, hb]
        rfl
      · have htext := Buf.text_memcpy hb
        rw [Nat.zero_add, Buf.text_zero, List.nil_append] at htext
        show b.text p.correlationData.length = _
        rw [htext, Property.responseCorrelation, if_pos hfit]
    · refine ⟨{ m with rxResponse := true, rxCorrelationLen := 0 }, ?_, rfl, ?_⟩
      · show (if _ then _ else _) = _
        rw [if_neg hfit]
      · rw [Property.responseCorrelation, if_neg hfit]
        rfl

end Mqtt

/-- What esp-mqtt calls `event_handler` with. -/
inductive MqttEvent where
  /-- `MQTT_EVENT_CONNECTED`; `subscribed` is whether `esp_mqtt_client_subscribe` succeeds. -/
  | connected (subscribed : Bool)
  | disconnected
  | data (evt : Event)
  /-- `MQTT_EVENT_ERROR` and the events the handler ignores. -/
  | other

/-- Where the MQTT task is inside `event_handler`. -/
inductive MqttPc where
  | idle
  /-- `handle_data`, first event of a message: about to match the topic. -/
  | route (evt : Event)
  /-- `start_request` with a slot in hand. -/
  | fill (evt : Event) (method : Bytes)
  /-- `handle_data` from `size_t offset` on. -/
  | data (evt : Event)
  /-- About to put `rx_slot` on `ready_slots`. -/
  | submit
  /-- `submit` between its two operations: about to set `BIT_REQUEST`. -/
  | setRequest
  /-- `deliver_response` after its critical section: about to set `BIT_CALL_DONE`. -/
  | setCallDone
  /-- `is_connected` is true: about to set `BIT_CONNECTED`. -/
  | setConnected
  /-- `is_connected` was exchanged for false: about to give `rx_slot` back. -/
  | dropSlot (wasConnected : Bool)
  /-- About to set `BIT_DISCONNECTED`. -/
  | setDisconnected

/-- The MQTT task is between events. -/
def MqttPc.isIdle : MqttPc → Bool
  | .idle => true
  | _ => false

theorem MqttPc.eq_idle {pc : MqttPc} (h : pc.isIdle = true) : pc = .idle := by
  cases pc <;> first | rfl | cases h

/-- The locals of `sc_rpc::call`. -/
structure Call where
  method : Bytes
  params : Bytes
  correlation : Bytes
  deriving DecidableEq

/-- Where the request task is. -/
inductive TaskPc where
  | idle
  /-- Holds a slot from `ready_slots`: in `handle`, before the answer exists. -/
  | handling (idx : Nat)
  /-- `respond`, about to try the request's own response topic. -/
  | responding (idx : Nat) (body : Bytes)
  /-- `respond`, about to publish on `res`. -/
  | respondingRes (idx : Nat) (body : Bytes)
  /-- About to give the slot back. -/
  | returning (idx : Nat)
  /-- `call` after its first critical section: about to clear `BIT_CALL_DONE`. -/
  | callClear (c : Call)
  | callPublish (c : Call)
  | callWait (c : Call)
  /-- About to enter the last critical section, with the result of the wait. -/
  | callEnd (c : Call) (ret : EspErr)
  /-- Has read `call_overflow` and `call_len`: about to evaluate the answer. -/
  | callParse (c : Call) (ret : EspErr) (overflow : Bool) (len : Nat)

/-- The device: shared state and one program counter per task. -/
structure Device (cfg : Config) where
  rpc : Rpc cfg
  mqtt : Mqtt
  bits : EventBits
  mqttPc : MqttPc
  taskPc : TaskPc
  pastEnd : Bool
  queueFull : Bool

namespace Device

variable {cfg : Config}

/-- After `init` and before the first event. -/
def init (cfg : Config) : Device cfg where
  rpc := Rpc.init cfg
  mqtt := Mqtt.init
  bits := EventBits.none
  mqttPc := .idle
  taskPc := .idle
  pastEnd := false
  queueFull := false

/-! ## The MQTT task -/

/-- `rpc->give_back(rx_slot)` and `rx_slot = nullptr`, when there is one. -/
def giveBackRx (s : Device cfg) : Device cfg :=
  match s.mqtt.rxSlot with
  | none => s
  | some idx =>
    match s.rpc.giveBack idx with
    | some rpc => { s with rpc, mqtt := { s.mqtt with rxSlot := none } }
    | none => { s with mqtt := { s.mqtt with rxSlot := none }, queueFull := true }

theorem giveBackRx_of_none {s : Device cfg} (h : s.mqtt.rxSlot = none) : s.giveBackRx = s := by
  rw [giveBackRx]
  rw [h]

theorem giveBackRx_of_some {s : Device cfg} {idx : Nat} {rpc : Rpc cfg}
    (h : s.mqtt.rxSlot = some idx) (hrpc : s.rpc.giveBack idx = some rpc) :
    s.giveBackRx = { s with rpc, mqtt := { s.mqtt with rxSlot := none } } := by
  rw [giveBackRx]
  rw [h]
  show (match s.rpc.giveBack idx with | some rpc => _ | none => _) = _
  rw [hrpc]

/-- `event_handler` up to its first operation that the request task can observe. -/
def event (s : Device cfg) : MqttEvent → Device cfg
  | .connected subscribed =>
    if subscribed then
      { s with mqtt := { s.mqtt with isConnected := true }, mqttPc := .setConnected }
    -- Without its subscription the client reconnects; the flag stays as it was.
    else s
  | .disconnected =>
    { s with
      mqtt := { s.mqtt with isConnected := false }
      mqttPc := .dropSlot s.mqtt.isConnected }
  | .data evt =>
    if evt.currentDataOffset = 0 then
      -- A message that was abandoned half-way still holds its slot.
      let s := s.giveBackRx
      { s with mqtt := { s.mqtt with rxResponse := false }, mqttPc := .route evt }
    else { s with mqttPc := .data evt }
  | .other => s

theorem event_first (s : Device cfg) (evt : Event) (h : evt.currentDataOffset = 0) :
    s.event (.data evt) =
      { s.giveBackRx with
        mqtt := { s.giveBackRx.mqtt with rxResponse := false }, mqttPc := .route evt } := by
  show (if evt.currentDataOffset = 0 then _ else _) = _
  rw [if_pos h]

theorem event_later (s : Device cfg) (evt : Event) (h : evt.currentDataOffset ≠ 0) :
    s.event (.data evt) = { s with mqttPc := .data evt } := by
  show (if evt.currentDataOffset = 0 then _ else _) = _
  rw [if_neg h]

/-- `handle_data`, first event of a message: match the topic, take a slot for a
request, note the correlation of a response. -/
def route (s : Device cfg) (evt : Event) : Device cfg :=
  let sub := evt.topic.drop cfg.downTopicLen
  if ¬ (cfg.downTopicLen < evt.topic.length ∧ cfg.downTopic <+: evt.topic) then
    { s with mqttPc := .idle }
  else if 4 < sub.length ∧ ascii "req/" <+: sub then
    match s.rpc.takeFreeSlot with
    -- All slots are taken: the request is dropped, with its later fragments.
    | none => { s with mqttPc := .data evt }
    | some (idx, rpc) =>
      { s with
        rpc
        mqtt := { s.mqtt with rxSlot := some idx }
        mqttPc := .fill evt (sub.drop 4) }
  else if sub.length = 3 ∧ ascii "res" <+: sub then
    match s.mqtt.startResponse evt with
    | some mqtt => { s with mqtt, mqttPc := .data evt }
    | none => { s with pastEnd := true, mqttPc := .idle }
  else { s with mqttPc := .data evt }

section Route

variable (s : Device cfg) {evt : Event}

/-- A topic under `d/<id>/down/` passes the first test of `handle_data`, any other
topic fails it. -/
theorem under_iff :
    (cfg.downTopicLen < evt.topic.length ∧ cfg.downTopic <+: evt.topic) ↔
      ∃ sub, sub ≠ [] ∧ evt.topic = cfg.downTopic ++ sub := by
  constructor
  · rintro ⟨hlen, sub, hsub⟩
    refine ⟨sub, ?_, hsub.symm⟩
    rintro rfl
    rw [← hsub, List.append_nil, cfg.downTopic_length] at hlen
    omega
  · rintro ⟨sub, hne, htopic⟩
    refine ⟨?_, htopic ▸ List.prefix_append _ _⟩
    have := List.length_pos_iff.mpr hne
    rw [htopic, List.length_append, cfg.downTopic_length]
    omega

theorem drop_downTopicLen (sub : Bytes) : (cfg.downTopic ++ sub).drop cfg.downTopicLen = sub := by
  rw [← cfg.downTopic_length, List.drop_left]

theorem route_request (h : IsRequestTopic cfg evt.topic) {idx : Nat} {rpc : Rpc cfg}
    (htake : s.rpc.takeFreeSlot = some (idx, rpc)) :
    s.route evt =
      { s with
        rpc
        mqtt := { s.mqtt with rxSlot := some idx }
        mqttPc := .fill evt (requestMethod cfg evt.topic) } := by
  obtain ⟨sub, hsub⟩ := downTopic_prefix_of_isRequestTopic h
  rw [← hsub] at h
  have hreq := isRequestTopic_iff.mp h
  have hunder := under_iff.mpr
    ⟨sub, List.length_pos_iff.mp (by omega), hsub.symm⟩
  rw [route]
  rw [← hsub, drop_downTopicLen, requestMethod_append]
  rw [← hsub] at hunder
  simp only [hunder, hreq, htake, and_self, not_true_eq_false, if_true, if_false]

theorem route_busy (h : IsRequestTopic cfg evt.topic) (htake : s.rpc.takeFreeSlot = none) :
    s.route evt = { s with mqttPc := .data evt } := by
  obtain ⟨sub, hsub⟩ := downTopic_prefix_of_isRequestTopic h
  have hreq := isRequestTopic_iff.mp (hsub.symm ▸ h)
  have hunder := under_iff.mpr
    ⟨sub, List.length_pos_iff.mp (by omega), hsub.symm⟩
  rw [route]
  rw [← hsub, drop_downTopicLen]
  rw [← hsub] at hunder
  simp only [hunder, hreq, htake, and_self, not_true_eq_false, if_true, if_false]

theorem route_response (h : IsResponseTopic cfg evt.topic) {m : Mqtt}
    (hm : s.mqtt.startResponse evt = some m) :
    s.route evt = { s with mqtt := m, mqttPc := .data evt } := by
  obtain ⟨sub, hsub⟩ := downTopic_prefix_of_isResponseTopic h
  have hres := isResponseTopic_iff.mp (hsub.symm ▸ h)
  have hreq : ¬ (4 < sub.length ∧ ascii "req/" <+: sub) := fun hc => by omega
  have hunder := under_iff.mpr
    ⟨sub, List.length_pos_iff.mp (by omega), hsub.symm⟩
  rw [route]
  rw [show List.drop cfg.downTopicLen evt.topic = sub by rw [← hsub, drop_downTopicLen]]
  dsimp only
  rw [if_neg (not_not.mpr hunder), if_neg hreq, if_pos hres, hm]

/-- A message that is neither a request nor a response leaves no trace. -/
theorem route_ignored (hreq : ¬ IsRequestTopic cfg evt.topic)
    (hres : ¬ IsResponseTopic cfg evt.topic) :
    s.route evt = { s with mqttPc := .idle } ∨ s.route evt = { s with mqttPc := .data evt } := by
  by_cases hunder : cfg.downTopicLen < evt.topic.length ∧ cfg.downTopic <+: evt.topic
  · obtain ⟨sub, -, hsub⟩ := under_iff.mp hunder
    rw [hsub] at hreq hres
    rw [isRequestTopic_iff] at hreq
    rw [isResponseTopic_iff] at hres
    right
    rw [route]
    rw [show List.drop cfg.downTopicLen evt.topic = sub by rw [hsub, drop_downTopicLen]]
    simp only [hunder, hreq, hres, and_self, not_true_eq_false, if_false]
  · left
    rw [route]
    simp only [hunder, not_false_eq_true, if_true]

end Route

/-- `start_request` from the method name on. -/
def fill (s : Device cfg) (evt : Event) (method : Bytes) : Device cfg :=
  match s.mqtt.rxSlot with
  | none => { s with mqttPc := .data evt }
  | some idx =>
    match (s.rpc.slots idx).startRequest evt method with
    | some slot => { s with rpc := s.rpc.setSlot idx slot, mqttPc := .data evt }
    | none => { s with pastEnd := true, mqttPc := .idle }

theorem fill_of_some {s : Device cfg} {idx : Nat} (h : s.mqtt.rxSlot = some idx) (evt : Event)
    (method : Bytes) :
    ∃ slot, (s.rpc.slots idx).startRequest evt method = some slot ∧
      s.fill evt method = { s with rpc := s.rpc.setSlot idx slot, mqttPc := .data evt } := by
  obtain ⟨slot, hslot, -⟩ := (s.rpc.slots idx).startRequest_spec evt method
  refine ⟨slot, hslot, ?_⟩
  rw [fill]
  simp only [h, hslot]

theorem fill_of_none {s : Device cfg} (h : s.mqtt.rxSlot = none) (evt : Event) (method : Bytes) :
    s.fill evt method = { s with mqttPc := .data evt } := by
  rw [fill]
  rw [h]

/-- `handle_data` on a fragment of a request: append it, and close the text when it
was the last. -/
def appendFragment (slot : Slot cfg.payloadMax) (evt : Event) : Option (Slot cfg.payloadMax) :=
  if evt.totalDataLen ≤ evt.currentDataOffset + evt.data.length then
    (slot.copyFragment evt).bind Slot.terminate
  else slot.copyFragment evt

/-- Appending stays inside the slot, whatever the event says. -/
theorem appendFragment_spec (slot : Slot cfg.payloadMax) (evt : Event) :
    ∃ slot', appendFragment slot evt = some slot' ∧
      slot' = { slot with
        payload := slot'.payload, payloadLen := slot'.payloadLen
        payloadLen_le := slot'.payloadLen_le } ∧
      (slot.Fits evt → slot'.payloadLen = evt.currentDataOffset + evt.data.length ∧
        slot'.payload.text slot'.payloadLen =
          slot.payload.text evt.currentDataOffset ++ evt.data) ∧
      (¬ slot.Fits evt → slot'.payloadLen = slot.payloadLen ∧
        slot'.payload.text slot'.payloadLen = slot.payload.text slot.payloadLen) := by
  obtain ⟨s₁, h₁, hs₁, hfit, hskip⟩ := slot.copyFragment_spec evt
  rw [appendFragment]
  by_cases hlast : evt.totalDataLen ≤ evt.currentDataOffset + evt.data.length
  · -- The NUL goes behind the payload and leaves the text alone.
    obtain ⟨s₂, h₂, hs₂, hkeep⟩ := s₁.terminate_spec
    have hlen : s₂.payloadLen = s₁.payloadLen := by rw [hs₂]
    refine ⟨s₂, ?_, ?_, ?_, ?_⟩
    · rw [if_pos hlast, h₁]
      exact h₂
    · rw [hs₂, hs₁]
    · intro h
      exact ⟨hlen.trans (hfit h).1, hkeep.trans (hfit h).2⟩
    · intro h
      rw [hkeep, hlen, hskip h]
      exact ⟨rfl, rfl⟩
  · refine ⟨s₁, by rw [if_neg hlast, h₁], hs₁, hfit, ?_⟩
    intro h
    rw [hskip h]
    exact ⟨rfl, rfl⟩

/-- `handle_data` from `size_t offset` on, up to the queue operation of `submit`. -/
def data (s : Device cfg) (evt : Event) : Device cfg :=
  if s.mqtt.rxResponse then
    match s.rpc.deliverResponse s.mqtt.correlation evt.data evt.currentDataOffset
        evt.totalDataLen with
    | some (rpc, complete) =>
      { s with rpc, mqttPc := if complete then .setCallDone else .idle }
    | none => { s with pastEnd := true, mqttPc := .idle }
  else
    match s.mqtt.rxSlot with
    | none => { s with mqttPc := .idle }
    | some idx =>
      match appendFragment (s.rpc.slots idx) evt with
      | some slot =>
        { s with
          rpc := s.rpc.setSlot idx slot
          mqttPc :=
            if evt.totalDataLen ≤ evt.currentDataOffset + evt.data.length then .submit
            else .idle }
      | none => { s with pastEnd := true, mqttPc := .idle }

theorem data_response {s : Device cfg} (h : s.mqtt.rxResponse = true) (evt : Event) :
    ∃ rpc, s.rpc.deliverResponse s.mqtt.correlation evt.data evt.currentDataOffset
        evt.totalDataLen = some (rpc, decide (s.rpc.Ours s.mqtt.correlation ∧
          evt.totalDataLen ≤ evt.currentDataOffset + evt.data.length)) ∧
      s.data evt = { s with
        rpc
        mqttPc := if s.rpc.Ours s.mqtt.correlation ∧
            evt.totalDataLen ≤ evt.currentDataOffset + evt.data.length then .setCallDone
          else .idle } := by
  obtain ⟨rpc, hrpc, -⟩ := s.rpc.deliverResponse_spec s.mqtt.correlation evt.data
    evt.currentDataOffset evt.totalDataLen
  refine ⟨rpc, hrpc, ?_⟩
  rw [data]
  rw [if_pos h, hrpc]
  simp only [decide_eq_true_eq]

theorem data_ignored {s : Device cfg} (h : s.mqtt.rxResponse = false) (hrx : s.mqtt.rxSlot = none)
    (evt : Event) : s.data evt = { s with mqttPc := .idle } := by
  rw [data]
  rw [h, hrx]
  rfl

theorem data_request {s : Device cfg} (h : s.mqtt.rxResponse = false) {idx : Nat}
    (hrx : s.mqtt.rxSlot = some idx) (evt : Event) :
    ∃ slot, appendFragment (s.rpc.slots idx) evt = some slot ∧
      s.data evt = { s with
        rpc := s.rpc.setSlot idx slot
        mqttPc :=
          if evt.totalDataLen ≤ evt.currentDataOffset + evt.data.length then .submit
          else .idle } := by
  obtain ⟨slot, hslot, -⟩ := appendFragment_spec (s.rpc.slots idx) evt
  refine ⟨slot, hslot, ?_⟩
  rw [data]
  simp only [h, hrx, hslot, Bool.false_eq_true, if_false]

/-- `rpc->submit(rx_slot)`, the queue operation, and `rx_slot = nullptr`. -/
def submit (s : Device cfg) : Device cfg :=
  match s.mqtt.rxSlot with
  | none => { s with mqttPc := .setRequest }
  | some idx =>
    match s.rpc.submit idx with
    | some rpc =>
      { s with rpc, mqtt := { s.mqtt with rxSlot := none }, mqttPc := .setRequest }
    | none =>
      { s with mqtt := { s.mqtt with rxSlot := none }, mqttPc := .setRequest, queueFull := true }

theorem submit_of_none {s : Device cfg} (h : s.mqtt.rxSlot = none) :
    s.submit = { s with mqttPc := .setRequest } := by
  rw [submit]
  rw [h]

theorem submit_of_some {s : Device cfg} {idx : Nat} {rpc : Rpc cfg} (h : s.mqtt.rxSlot = some idx)
    (hrpc : s.rpc.submit idx = some rpc) :
    s.submit =
      { s with rpc, mqtt := { s.mqtt with rxSlot := none }, mqttPc := .setRequest } := by
  rw [submit]
  simp only [h, hrpc]

/-- The next step of the MQTT task inside `event_handler`. -/
def mqttStep (s : Device cfg) : Option (Device cfg) :=
  match s.mqttPc with
  | .idle => none
  | .route evt => some (s.route evt)
  | .fill evt method => some (s.fill evt method)
  | .data evt => some (s.data evt)
  | .submit => some s.submit
  | .setRequest => some { s with bits := { s.bits with request := true }, mqttPc := .idle }
  | .setCallDone => some { s with bits := { s.bits with callDone := true }, mqttPc := .idle }
  | .setConnected => some { s with bits := { s.bits with connected := true }, mqttPc := .idle }
  | .dropSlot was =>
    -- The callback is told of a loss only, not of a connection that never came up.
    let s := s.giveBackRx
    some { s with mqttPc := if was then .setDisconnected else .idle }
  | .setDisconnected =>
    some { s with bits := { s.bits with disconnected := true }, mqttPc := .idle }

/-! ## The request task -/

/-- The properties of `respond`'s publish. -/
def answerProps (slot : Slot cfg.payloadMax) : PublishProps where
  contentType := some contentType
  correlation := slot.correlation.text slot.correlationLen
  responseTopic := none

/-- `respond`, first half: the response topic the platform named, if any. -/
def respondOwn (s : Device cfg) (idx : Nat) (body : Bytes) (env : PublishEnv) :
    EspErr × Option Published :=
  let slot := s.rpc.slots idx
  if slot.responseTopic.cstr ≠ [] then
    publishTopic cfg s.mqtt.isConnected env slot.responseTopic.cstr body 1 (answerProps slot)
  else (.invalidArg, none)

/-- `respond`, second half: `d/<id>/up/res`. -/
def respondRes (s : Device cfg) (idx : Nat) (body : Bytes) (env : PublishEnv) :
    EspErr × Option Published :=
  publish cfg s.mqtt.isConnected env (ascii "res") body 1 (answerProps (s.rpc.slots idx))

/-- The publish of `call`. -/
def publishCall (s : Device cfg) (c : Call) (env : PublishEnv) : EspErr × Option Published :=
  publish cfg s.mqtt.isConnected env (Rpc.callTopic c.method) c.params 1
    (Rpc.callProps cfg c.correlation)

/-- What the request task does next. -/
inductive TaskAct where
  /-- `run_task`'s wait returns and clears the bits it waited for. -/
  | wake
  /-- `handle_ready` receives an index from `ready_slots`. -/
  | take
  /-- `handle` has run the method handler; `body` is the answer it built. -/
  | handle (body : Bytes)
  | respondOwn (env : PublishEnv)
  | respondRes (env : PublishEnv)
  | giveBack
  /-- `call`, first critical section. -/
  | callBegin (method params : Bytes)
  | callClear
  | callPublish (env : PublishEnv)
  /-- The wait of `call` ends because `BIT_CALL_DONE` is set. -/
  | callWake
  | callTimeout
  /-- `call`, last critical section. -/
  | callEnd
  | callReturn

/-- The next step of the request task. -/
def taskStep (s : Device cfg) (a : TaskAct) : Option (Device cfg) :=
  match a, s.taskPc with
  | .wake, .idle => some { s with bits := s.bits.clearMain }
  | .take, .idle =>
    match s.rpc.readySlots.receive with
    | none => none
    | some (idx, rest) =>
      some { s with rpc := { s.rpc with readySlots := rest }, taskPc := .handling idx }
  | .handle body, .handling idx => some { s with taskPc := .responding idx body }
  | .respondOwn env, .responding idx body =>
    -- No response topic of its own, or a foreign one: the answer goes to `res`.
    if (s.respondOwn idx body env).1 = .invalidArg then
      some { s with taskPc := .respondingRes idx body }
    else some { s with taskPc := .returning idx }
  | .respondRes _, .respondingRes idx _ => some { s with taskPc := .returning idx }
  | .giveBack, .returning idx =>
    match s.rpc.giveBack idx with
    | some rpc => some { s with rpc, taskPc := .idle }
    | none => some { s with taskPc := .idle, queueFull := true }
  | .callBegin method params, .idle =>
    some { s with
      rpc := s.rpc.beginCall
      taskPc := .callClear ⟨method, params, s.rpc.beginCall.callCorrelation⟩ }
  | .callClear, .callClear c =>
    some { s with bits := { s.bits with callDone := false }, taskPc := .callPublish c }
  | .callPublish env, .callPublish c =>
    if (s.publishCall c env).1 = .ok then some { s with taskPc := .callWait c }
    else some { s with taskPc := .callEnd c (s.publishCall c env).1 }
  | .callWake, .callWait c =>
    if s.bits.callDone then
      some { s with bits := { s.bits with callDone := false }, taskPc := .callEnd c .ok }
    else none
  | .callTimeout, .callWait c =>
    -- A wait that finds its bit set does not time out.
    if s.bits.callDone then none else some { s with taskPc := .callEnd c .timeout }
  | .callEnd, .callEnd c ret =>
    -- What is read here is what the caller evaluates, whatever arrives later.
    some { s with
      rpc := s.rpc.endCall
      taskPc := .callParse c ret s.rpc.callOverflow s.rpc.callLen }
  | .callReturn, .callParse _ _ _ _ => some { s with taskPc := .idle }
  | _, _ => none

/-- The steps of the request task by action: where each is possible and what it leaves. -/
inductive TaskStep (s : Device cfg) : TaskAct → Device cfg → Prop where
  | wake (hpc : s.taskPc = .idle) : TaskStep s .wake { s with bits := s.bits.clearMain }
  | take {idx : Nat} {rest : Fifo Nat cfg.queueLen} (hpc : s.taskPc = .idle)
      (hready : s.rpc.readySlots.items = idx :: rest.items) :
      TaskStep s .take
        { s with rpc := { s.rpc with readySlots := rest }, taskPc := .handling idx }
  | handle {idx : Nat} {body : Bytes} (hpc : s.taskPc = .handling idx) :
      TaskStep s (.handle body) { s with taskPc := .responding idx body }
  | respondOwnForeign {idx : Nat} {body : Bytes} {env : PublishEnv}
      (hpc : s.taskPc = .responding idx body)
      (hret : (s.respondOwn idx body env).1 = .invalidArg) :
      TaskStep s (.respondOwn env) { s with taskPc := .respondingRes idx body }
  | respondOwn {idx : Nat} {body : Bytes} {env : PublishEnv}
      (hpc : s.taskPc = .responding idx body)
      (hret : (s.respondOwn idx body env).1 ≠ .invalidArg) :
      TaskStep s (.respondOwn env) { s with taskPc := .returning idx }
  | respondRes {idx : Nat} {body : Bytes} {env : PublishEnv}
      (hpc : s.taskPc = .respondingRes idx body) :
      TaskStep s (.respondRes env) { s with taskPc := .returning idx }
  | giveBack {idx : Nat} {rpc : Rpc cfg} (hpc : s.taskPc = .returning idx)
      (hrpc : s.rpc.giveBack idx = some rpc) :
      TaskStep s .giveBack { s with rpc, taskPc := .idle }
  | giveBackFull {idx : Nat} (hpc : s.taskPc = .returning idx)
      (hrpc : s.rpc.giveBack idx = none) :
      TaskStep s .giveBack { s with taskPc := .idle, queueFull := true }
  | callBegin {method params : Bytes} (hpc : s.taskPc = .idle) :
      TaskStep s (.callBegin method params)
        { s with
          rpc := s.rpc.beginCall
          taskPc := .callClear ⟨method, params, s.rpc.beginCall.callCorrelation⟩ }
  | callClear {c : Call} (hpc : s.taskPc = .callClear c) :
      TaskStep s .callClear
        { s with bits := { s.bits with callDone := false }, taskPc := .callPublish c }
  | callPublish {c : Call} {env : PublishEnv} (hpc : s.taskPc = .callPublish c)
      (hret : (s.publishCall c env).1 = .ok) :
      TaskStep s (.callPublish env) { s with taskPc := .callWait c }
  | callPublishFailed {c : Call} {env : PublishEnv} (hpc : s.taskPc = .callPublish c)
      (hret : (s.publishCall c env).1 ≠ .ok) :
      TaskStep s (.callPublish env) { s with taskPc := .callEnd c (s.publishCall c env).1 }
  | callWake {c : Call} (hpc : s.taskPc = .callWait c) (hbit : s.bits.callDone = true) :
      TaskStep s .callWake
        { s with bits := { s.bits with callDone := false }, taskPc := .callEnd c .ok }
  | callTimeout {c : Call} (hpc : s.taskPc = .callWait c) (hbit : s.bits.callDone = false) :
      TaskStep s .callTimeout { s with taskPc := .callEnd c .timeout }
  | callEnd {c : Call} {ret : EspErr} (hpc : s.taskPc = .callEnd c ret) :
      TaskStep s .callEnd
        { s with
          rpc := s.rpc.endCall
          taskPc := .callParse c ret s.rpc.callOverflow s.rpc.callLen }
  | callReturn {c : Call} {ret : EspErr} {overflow : Bool} {len : Nat}
      (hpc : s.taskPc = .callParse c ret overflow len) :
      TaskStep s .callReturn { s with taskPc := .idle }

theorem taskStep_cases {s s' : Device cfg} {a : TaskAct} (h : s.taskStep a = some s') :
    TaskStep s a s' := by
  unfold taskStep at h
  split at h
  · rename_i hpc
    cases h
    exact .wake hpc
  · rename_i hpc
    split at h
    · cases h
    · rename_i hrec
      cases h
      exact .take hpc (Fifo.items_of_receive hrec)
  · rename_i hpc
    cases h
    exact .handle hpc
  · rename_i hpc
    split at h
    · rename_i hret
      cases h
      exact .respondOwnForeign hpc hret
    · rename_i hret
      cases h
      exact .respondOwn hpc hret
  · rename_i hpc
    cases h
    exact .respondRes hpc
  · rename_i hpc
    split at h
    · rename_i hrpc
      cases h
      exact .giveBack hpc hrpc
    · rename_i hrpc
      cases h
      exact .giveBackFull hpc hrpc
  · rename_i hpc
    cases h
    exact .callBegin hpc
  · rename_i hpc
    cases h
    exact .callClear hpc
  · rename_i hpc
    split at h
    · rename_i hret
      cases h
      exact .callPublish hpc hret
    · rename_i hret
      cases h
      exact .callPublishFailed hpc hret
  · rename_i hpc
    split at h
    · rename_i hbit
      cases h
      exact .callWake hpc hbit
    · cases h
  · rename_i hpc
    split at h
    · cases h
    · rename_i hbit
      cases h
      exact .callTimeout hpc (Bool.eq_false_iff.mpr hbit)
  · rename_i hpc
    cases h
    exact .callEnd hpc
  · rename_i hpc
    cases h
    exact .callReturn hpc
  · cases h

/-! ## The system -/

/-- A step of the device: an event arrives, the MQTT task moves, the request task
moves, or another task asks for a status report or stops the client. -/
inductive Act where
  | event (e : MqttEvent)
  | mqtt
  | task (a : TaskAct)
  | requestReport
  /-- The store in `sc_mqtt::stop`. -/
  | stop

def step (s : Device cfg) : Act → Option (Device cfg)
  | .event e =>
    match s.mqttPc with
    | .idle => some (s.event e)
    | _ => none
  | .mqtt => s.mqttStep
  | .task a => s.taskStep a
  | .requestReport => some { s with bits := { s.bits with reportStatus := true } }
  | .stop => some { s with mqtt := { s.mqtt with isConnected := false } }

end Device

/-- The device as a transition system, for arbitrary events. -/
def device (cfg : Config) : Lts (Device cfg) Device.Act := ⟨Device.init cfg, Device.step⟩

end SoulCloud
