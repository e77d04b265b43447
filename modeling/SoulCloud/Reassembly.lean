import SoulCloud.Delivery

/-!
# Reassembly of requests

What becomes of the messages that arrive. A log beside the link records, without
influencing it, which messages are *due* (complete requests that found a free
slot) and what was put on `ready_slots`, and the invariant `Assembling` ties the
slot being written to the bytes that have arrived of the current message.

- `Holds m off slot`: the slot holds request `m` up to byte `off`.
- `Rx`: what is true of `rx_slot` at each point of the event handler.
- `due_reach`: the due messages are submitted, exactly once and in order.
-/

namespace SoulCloud

open Bytes
open Device (TaskAct)

variable {cfg : Config}

/-! ## What a slot holds -/

/-- A slot holds the first `off` bytes of a request that fits, or none of one that
does not. -/
structure Holds (cfg : Config) (m : Message) (off : Nat) (slot : Slot cfg.payloadMax) : Prop where
  head : slot.HeadOf (requestMethod cfg m.topic) m.property m.payload.length
  payloadLen : slot.payloadLen = if m.payload.length ≤ cfg.payloadMax then off else 0
  payload : slot.payload.text slot.payloadLen =
    if m.payload.length ≤ cfg.payloadMax then m.payload.take off else []

/-- A slot carries a request as the platform sent it: payload and length are the
message's when it fits, otherwise `too_large` is set and the length is 0. -/
structure Carries (cfg : Config) (m : Message) (slot : Slot cfg.payloadMax) : Prop where
  method : slot.method.cstr = ((requestMethod cfg m.topic).take 47).map Slot.dotted
  tooLarge : slot.tooLarge = decide (cfg.payloadMax < m.payload.length)
  payloadLen :
    slot.payloadLen = if m.payload.length ≤ cfg.payloadMax then m.payload.length else 0
  payload : slot.payload.text slot.payloadLen =
    if m.payload.length ≤ cfg.payloadMax then m.payload else []
  correlation :
    slot.correlation.text slot.correlationLen = Property.answerCorrelation m.property
  responseTopic : slot.responseTopic.cstr = Property.ownTopic m.property

theorem Holds.carries {m : Message} {slot : Slot cfg.payloadMax}
    (h : Holds cfg m m.payload.length slot) : Carries cfg m slot where
  method := h.head.method
  tooLarge := h.head.tooLarge
  payloadLen := h.payloadLen
  payload := by rw [h.payload, List.take_length]
  correlation := h.head.correlation
  responseTopic := h.head.responseTopic

/-- `take_free_slot` and `start_request` give a slot that holds none of the payload yet. -/
theorem holds_startRequest {slot slot' : Slot cfg.payloadMax} {m : Message} {len : Nat}
    (h : slot.reset.startRequest (m.fragment 0 len) (requestMethod cfg m.topic) = some slot') :
    Holds cfg m 0 slot' := by
  obtain ⟨slot'', hstart, hlen, hhead⟩ :=
    slot.reset.startRequest_spec (m.fragment 0 len) (requestMethod cfg m.topic)
  obtain rfl : slot' = slot'' := Option.some.inj (h.symm.trans hstart)
  have hnul : 0 ∉ requestMethod cfg m.topic := fun hmem =>
    m.topic_nul (List.mem_of_mem_drop hmem)
  have hzero : slot'.payloadLen = 0 := hlen
  refine ⟨hhead rfl slot.reset_responseTopic hnul, ?_, ?_⟩
  · rw [hzero, ite_self]
  · rw [hzero, List.take_zero, ite_self]
    rfl

/-- Appending the next fragment. -/
theorem Holds.append {m : Message} {off len : Nat} {slot slot' : Slot cfg.payloadMax}
    (h : Holds cfg m off slot) (hlen : off + len ≤ m.payload.length)
    (happ : Device.appendFragment slot (m.fragment off len) = some slot') :
    Holds cfg m (off + len) slot' := by
  obtain ⟨slot'', happ', hsame, hfits, hskip⟩ :=
    Device.appendFragment_spec slot (m.fragment off len)
  obtain rfl : slot' = slot'' := Option.some.inj (happ.symm.trans happ')
  have hdata := m.fragment_data_length hlen
  have hhead : slot'.HeadOf (requestMethod cfg m.topic) m.property m.payload.length := by
    rw [hsame]
    exact ⟨h.head.method, h.head.tooLarge, h.head.correlation, h.head.responseTopic⟩
  have htoo := h.head.tooLarge
  by_cases hmax : m.payload.length ≤ cfg.payloadMax
  · have hfit : slot.Fits (m.fragment off len) := by
      refine ⟨by rw [htoo, decide_eq_false_iff_not]; omega, ?_⟩
      show off + (m.fragment off len).data.length ≤ cfg.payloadMax
      omega
    obtain ⟨hplen, htext⟩ := hfits hfit
    have hold := h.payload
    rw [h.payloadLen, if_pos hmax, if_pos hmax] at hold
    refine ⟨hhead, ?_, ?_⟩
    · rw [hplen, if_pos hmax, hdata]
      rfl
    · rw [htext, if_pos hmax, ← m.take_append_fragment]
      exact congrArg (· ++ _) hold
  · -- `too_large` is set from the first fragment on, so none is copied.
    have hfit : ¬ slot.Fits (m.fragment off len) := by
      rintro ⟨hsmall, -⟩
      rw [htoo, decide_eq_false_iff_not] at hsmall
      omega
    obtain ⟨hplen, htext⟩ := hskip hfit
    refine ⟨hhead, ?_, ?_⟩
    · rw [hplen, h.payloadLen, if_neg hmax, if_neg hmax]
    · rw [htext, h.payload, if_neg hmax, if_neg hmax]

/-! ## The log -/

/-- What happened to the requests so far. -/
structure RequestLog (cfg : Config) where
  /-- The current message is a request that found a free slot. -/
  found : Bool
  /-- Requests that arrived completely and had found a free slot. -/
  due : List Message
  /-- The slots put on `ready_slots`, as they were then. -/
  submitted : List (Slot cfg.payloadMax)
  /-- The slots passed to `handle`, as they were then. -/
  handled : List (Slot cfg.payloadMax)
  /-- What `respond` passed to `esp_mqtt_client_publish`, with the number of the
  request (from 0, in the order of handling) that it answers. -/
  sent : List (Nat × Published)

namespace RequestLog

def empty (cfg : Config) : RequestLog cfg := ⟨false, [], [], [], []⟩

/-- The message being received is a request and `take_free_slot` is about to succeed. -/
def finds (l : Link cfg) : Bool :=
  match l.cur with
  | none => false
  | some (m, _) => decide (m.IsRequest cfg) && decide (l.dev.rpc.freeSlots.items ≠ [])

/-- The message being received is complete. -/
def complete (l : Link cfg) : Bool :=
  match l.cur with
  | none => false
  | some (m, off) => decide (off = m.payload.length)

def onMqtt (l : Link cfg) (h : RequestLog cfg) : RequestLog cfg :=
  match l.dev.mqttPc with
  | .route _ => { h with found := finds l }
  | .data _ =>
    if h.found && complete l then { h with due := h.due ++ (l.cur.map Prod.fst).toList } else h
  | .submit =>
    { h with submitted := h.submitted ++ (l.dev.mqtt.rxSlot.map l.dev.rpc.slots).toList }
  | _ => h

/-- A publish of the answer to the request handled last. -/
def record (h : RequestLog cfg) (p : Option Published) : RequestLog cfg :=
  { h with sent := h.sent ++ p.toList.map fun p => (h.handled.length - 1, p) }

def onTask (s : Device cfg) (a : TaskAct) (h : RequestLog cfg) : RequestLog cfg :=
  match a, s.taskPc with
  | .handle _, .handling idx => { h with handled := h.handled ++ [s.rpc.slots idx] }
  | .respondOwn env, .responding idx body => h.record (s.respondOwn idx body env).2
  | .respondRes env, .respondingRes idx body => h.record (s.respondRes idx body env).2
  | _, _ => h

def update (l : Link cfg) (a : LinkAct) (_ : Link cfg) (h : RequestLog cfg) : RequestLog cfg :=
  match a with
  | .mqtt => onMqtt l h
  | .task a => onTask l.dev a h
  | _ => h

theorem onMqtt_route {l : Link cfg} {h : RequestLog cfg} {evt : Event}
    (hpc : l.dev.mqttPc = .route evt) : (onMqtt l h).found = finds l := by
  rw [onMqtt]
  rw [hpc]

/-- Only routing a message notes whether it found a slot. -/
theorem onMqtt_found {l : Link cfg} {h : RequestLog cfg} (hpc : ∀ evt, l.dev.mqttPc ≠ .route evt) :
    (onMqtt l h).found = h.found := by
  rw [onMqtt]
  split
  · rename_i evt hroute
    exact absurd hroute (hpc evt)
  · split <;> rfl
  · rfl
  · rfl

/-- The request task's actions leave the receiving half of the log alone. -/
theorem onTask_received (s : Device cfg) (a : TaskAct) (h : RequestLog cfg) :
    (onTask s a h).found = h.found ∧ (onTask s a h).due = h.due ∧
      (onTask s a h).submitted = h.submitted := by
  unfold onTask
  split <;> exact ⟨rfl, rfl, rfl⟩

end RequestLog

/-- The link with the log. -/
def logged (cfg : Config) : Lts (Link cfg × RequestLog cfg) LinkAct :=
  (link cfg).withHist (RequestLog.empty cfg) RequestLog.update

/-! ## The invariant -/

/-- Byte `off` of message `m` is the next to arrive: when `m` is a request that found a
slot, that slot holds the bytes before it, and otherwise there is no slot. -/
def Receiving (s : Device cfg) (m : Message) (off : Nat) (found : Bool) : Prop :=
  if found then
    s.mqtt.rxResponse = false ∧ ∃ i, s.mqtt.rxSlot = some i ∧ Holds cfg m off (s.rpc.slots i)
  else s.mqtt.rxSlot = none

/-- Between two events. -/
def Between (l : Link cfg) (found : Bool) : Prop :=
  match l.cur with
  | none => l.dev.mqtt.rxSlot = none
  | some (m, off) =>
    (off = 0 → m.payload = []) ∧
      if off < m.payload.length then Receiving l.dev m off found else l.dev.mqtt.rxSlot = none

/-- What is true of `rx_slot` at each point of the event handler. -/
def Rx (l : Link cfg) (found : Bool) : Prop :=
  match l.dev.mqttPc with
  | .route evt =>
    ∃ m len, l.cur = some (m, len) ∧ evt = m.fragment 0 len ∧ len ≤ m.payload.length ∧
      (len = 0 → m.payload = []) ∧ l.dev.mqtt.rxSlot = none ∧ l.dev.mqtt.rxResponse = false
  | .fill evt method =>
    ∃ m len i slot, l.cur = some (m, len) ∧ evt = m.fragment 0 len ∧ len ≤ m.payload.length ∧
      (len = 0 → m.payload = []) ∧ method = requestMethod cfg m.topic ∧ found = true ∧
      l.dev.mqtt.rxResponse = false ∧ l.dev.mqtt.rxSlot = some i ∧
      l.dev.rpc.slots i = Slot.reset slot
  | .data evt =>
    ∃ m off len, l.cur = some (m, off + len) ∧ evt = m.fragment off len ∧
      off + len ≤ m.payload.length ∧ (off + len = 0 → m.payload = []) ∧
      Receiving l.dev m off found
  | .submit =>
    ∃ m i, l.cur = some (m, m.payload.length) ∧ l.dev.mqtt.rxSlot = some i ∧
      Carries cfg m (l.dev.rpc.slots i)
  | .dropSlot _ => l.cur = none
  | .idle | .setRequest | .setCallDone | .setConnected | .setDisconnected => Between l found

namespace Receiving

variable {s : Device cfg} {m : Message} {off : Nat} {found : Bool}

/-- What is received as a response is not a request that found a slot. -/
theorem found_of_response (h : Receiving s m off found) (hres : s.mqtt.rxResponse = true) :
    found = false := by
  cases found with
  | false => rfl
  | true =>
    have hno : s.mqtt.rxResponse = false := h.1
    rw [hres] at hno
    cases hno

theorem found_of_none (h : Receiving s m off found) (hslot : s.mqtt.rxSlot = none) :
    found = false := by
  cases found with
  | false => rfl
  | true =>
    obtain ⟨-, i, hi, -⟩ := h
    rw [hslot] at hi
    cases hi

theorem found_of_some {idx : Nat} (h : Receiving s m off found)
    (hslot : s.mqtt.rxSlot = some idx) :
    found = true ∧ Holds cfg m off (s.rpc.slots idx) := by
  cases found with
  | false =>
    have hno : s.mqtt.rxSlot = none := h
    rw [hslot] at hno
    cases hno
  | true =>
    obtain ⟨-, i, hi, hholds⟩ := h
    obtain rfl : idx = i := Option.some.inj (hslot.symm.trans hi)
    exact ⟨rfl, hholds⟩

end Receiving

/-- `Rx` looks at the receiving half of the state only. -/
theorem Rx.congr {l l' : Link cfg} {found : Bool} (h : Rx l found)
    (hcur : l'.cur = l.cur) (hpc : l'.dev.mqttPc = l.dev.mqttPc)
    (hrx : l'.dev.mqtt.rxSlot = l.dev.mqtt.rxSlot)
    (hres : l'.dev.mqtt.rxResponse = l.dev.mqtt.rxResponse)
    (hslots : l'.dev.rpc.slots = l.dev.rpc.slots) : Rx l' found := by
  unfold Rx Between Receiving at h ⊢
  rw [hcur, hpc, hrx, hres, hslots]
  exact h

theorem Between.rx {l : Link cfg} {found : Bool} (h : Between l found)
    (hpc : l.dev.mqttPc = .idle ∨ l.dev.mqttPc = .setCallDone) : Rx l found := by
  rw [Rx]
  rcases hpc with hpc | hpc <;> rw [hpc] <;> exact h

theorem Rx.between {l : Link cfg} {found : Bool} (h : Rx l found) (hpc : l.dev.mqttPc = .idle) :
    Between l found := by
  rw [Rx] at h
  rw [hpc] at h
  exact h

/-! ### Events -/

theorem rx_first {l : Link cfg} {m : Message} {len : Nat} (hs : l.dev.Settled)
    (hlen : len ≤ m.payload.length) (hempty : len = 0 → m.payload = []) (found : Bool) :
    Rx ⟨l.dev.event (.data (m.fragment 0 len)), some (m, len)⟩ found := by
  obtain ⟨q, hq, -⟩ := hs.giveBackRx
  have hevent := l.dev.event_first (m.fragment 0 len) rfl
  rw [hq] at hevent
  rw [hevent]
  exact ⟨m, len, rfl, rfl, hlen, hempty, rfl, rfl⟩

theorem rx_next {l : Link cfg} {m : Message} {off len : Nat} {found : Bool}
    (h : Between l found) (hcur : l.cur = some (m, off)) (hpos : 0 < len)
    (hlen : off + len ≤ m.payload.length) :
    Rx ⟨l.dev.event (.data (m.fragment off len)), some (m, off + len)⟩ found := by
  rw [Between] at h
  rw [hcur] at h
  obtain ⟨hempty, hrest⟩ := h
  -- A message of which nothing has arrived is empty, so nothing more can arrive of it
  have hoff : off ≠ 0 := by
    intro h0
    rw [hempty h0] at hlen
    simp only [List.length_nil] at hlen
    omega
  rw [if_pos (by omega)] at hrest
  rw [l.dev.event_later (m.fragment off len) hoff]
  exact ⟨m, off, len, rfl, rfl, hlen, fun h0 => by omega, hrest⟩

theorem rx_connected {l : Link cfg} {found : Bool} (h : Between l found)
    (hpc : l.dev.mqttPc = .idle) (subscribed : Bool) :
    Rx ⟨l.dev.event (.connected subscribed), l.cur⟩ found := by
  cases subscribed with
  | true => exact h
  | false => exact h.rx (.inl hpc)

/-! ### The event handler -/

/-- Nothing to receive into, in the middle of a message. -/
theorem between_of_no_slot {l : Link cfg} {m : Message} {off : Nat} (hcur : l.cur = some (m, off))
    (hempty : off = 0 → m.payload = []) (hrx : l.dev.mqtt.rxSlot = none) : Between l false := by
  rw [Between]
  rw [hcur]
  refine ⟨hempty, ?_⟩
  split <;> exact hrx

/-- A complete message, or none, leaves nothing to receive. -/
theorem between_of_complete {l : Link cfg} {found : Bool}
    (hcur : l.cur = none ∨ ∃ m, l.cur = some (m, m.payload.length))
    (hrx : l.dev.mqtt.rxSlot = none) : Between l found := by
  rw [Between]
  rcases hcur with hcur | ⟨m, hcur⟩
  · rw [hcur]
    exact hrx
  · rw [hcur]
    refine ⟨List.length_eq_zero_iff.mp, ?_⟩
    rw [if_neg (Nat.lt_irrefl _)]
    exact hrx

/-- The first fragment of a message, once it is known what it goes into. -/
theorem rx_data_first {l : Link cfg} {m : Message} {len : Nat} {found : Bool}
    (hpc : l.dev.mqttPc = .data (m.fragment 0 len)) (hcur : l.cur = some (m, len))
    (hlen : len ≤ m.payload.length) (hempty : len = 0 → m.payload = [])
    (hrecv : Receiving l.dev m 0 found) : Rx l found := by
  rw [Rx]
  rw [hpc]
  exact ⟨m, 0, len, by rw [hcur, Nat.zero_add], rfl, by omega, by simpa using hempty, hrecv⟩

/-- What the log notes about the message being routed. -/
theorem finds_of_cur {l : Link cfg} {m : Message} {len : Nat} (hcur : l.cur = some (m, len)) :
    RequestLog.finds l =
      (decide (IsRequestTopic cfg m.topic) && decide (l.dev.rpc.freeSlots.items ≠ [])) := by
  rw [RequestLog.finds]
  rw [hcur]
  rfl

/-- **Step lemma** for `rx_slot`: the event handler moves. -/
theorem rx_mqtt {l : Link cfg} {dev : Device cfg} {h : RequestLog cfg} (hrx : Rx l h.found)
    (hst : Device.MqttStep l.dev dev) :
    Rx ⟨dev, l.cur⟩ (RequestLog.onMqtt l h).found := by
  rw [Rx] at hrx
  cases hst with
  | @takeSlot evt idx rest hpc hreq hfree =>
    rw [RequestLog.onMqtt_route hpc]
    rw [hpc] at hrx
    obtain ⟨m, len, hcur, rfl, hlen, hempty, -, hres⟩ := hrx
    have hfound : RequestLog.finds l = true := by
      have hreq' : IsRequestTopic cfg m.topic := hreq
      rw [finds_of_cur hcur, hfree]
      simp [hreq']
    -- The slot keeps the bytes of earlier requests behind its resets.
    refine ⟨m, len, idx, l.dev.rpc.slots idx, hcur, rfl, hlen, hempty, rfl, hfound, hres, rfl, ?_⟩
    exact Function.update_self ..
  | @busy evt hpc hreq hfree =>
    rw [RequestLog.onMqtt_route hpc]
    rw [hpc] at hrx
    obtain ⟨m, len, hcur, rfl, hlen, hempty, hslot, -⟩ := hrx
    have hfound : RequestLog.finds l = false := by
      rw [finds_of_cur hcur, hfree]
      simp
    rw [hfound]
    exact rx_data_first rfl hcur hlen hempty hslot
  | @response evt b len hpc hres hcorr =>
    rw [RequestLog.onMqtt_route hpc]
    rw [hpc] at hrx
    obtain ⟨m, len, hcur, rfl, hlen, hempty, hslot, -⟩ := hrx
    have hfound : RequestLog.finds l = false := by
      have hnot : ¬ IsRequestTopic cfg m.topic := not_isRequestTopic_of_isResponseTopic hres
      rw [finds_of_cur hcur]
      simp [hnot]
    rw [hfound]
    exact rx_data_first rfl hcur hlen hempty hslot
  | @ignored evt pc hpc hreq hres hpc' =>
    rw [RequestLog.onMqtt_route hpc]
    rw [hpc] at hrx
    obtain ⟨m, len, hcur, rfl, hlen, hempty, hslot, -⟩ := hrx
    have hfound : RequestLog.finds l = false := by
      have hnot : ¬ IsRequestTopic cfg m.topic := hreq
      rw [finds_of_cur hcur]
      simp [hnot]
    rw [hfound]
    rcases hpc' with rfl | rfl
    · exact between_of_no_slot hcur hempty hslot
    · exact rx_data_first rfl hcur hlen hempty hslot
  | @fill evt method idx slot hpc hslot hstart =>
    rw [RequestLog.onMqtt_found (by rw [hpc]; nofun)]
    rw [hpc] at hrx
    obtain ⟨m, len, i, old, hcur, rfl, hlen, hempty, rfl, hfound, hres, hslot', hold⟩ := hrx
    obtain rfl : idx = i := Option.some.inj (hslot.symm.trans hslot')
    rw [hold] at hstart
    have hnew : Holds cfg m 0 (Function.update l.dev.rpc.slots idx slot idx) := by
      rw [Function.update_self]
      exact holds_startRequest hstart
    rw [hfound]
    exact rx_data_first rfl hcur hlen hempty ⟨hres, idx, hslot, hnew⟩
  | fillNone hpc hslot =>
    rw [hpc] at hrx
    obtain ⟨m, len, i, old, -, -, -, -, -, -, -, hslot', -⟩ := hrx
    rw [hslot] at hslot'
    cases hslot'
  | deliver hpc hres =>
    rw [RequestLog.onMqtt_found (by rw [hpc]; nofun)]
    rw [hpc] at hrx
    obtain ⟨m, off, len, hcur, rfl, hlen, hempty, hrecv⟩ := hrx
    have hfound := hrecv.found_of_response hres
    rw [hfound] at hrecv ⊢
    refine Between.rx (between_of_no_slot hcur hempty hrecv) ?_
    dsimp only
    split
    · exact .inr rfl
    · exact .inl rfl
  | @append evt idx slot hpc hres hslot happ =>
    rw [RequestLog.onMqtt_found (by rw [hpc]; nofun)]
    rw [hpc] at hrx
    obtain ⟨m, off, len, hcur, rfl, hlen, hempty, hrecv⟩ := hrx
    obtain ⟨hfound, hholds⟩ := hrecv.found_of_some hslot
    have hnew : Holds cfg m (off + len) (Function.update l.dev.rpc.slots idx slot idx) := by
      rw [Function.update_self]
      exact hholds.append hlen happ
    have hbytes := m.fragment_data_length hlen
    rw [Rx]
    dsimp only
    by_cases hlast : m.payload.length ≤ off + len
    · have heq : off + len = m.payload.length := by omega
      rw [if_pos (by rw [hbytes]; exact hlast)]
      rw [heq] at hnew hcur
      exact ⟨m, idx, hcur, hslot, hnew.carries⟩
    · rw [if_neg (by rw [hbytes]; exact hlast)]
      -- More of the request is to come: it goes on in the same slot.
      show Between _ _
      rw [Between]
      dsimp only
      rw [hcur, hfound]
      refine ⟨hempty, ?_⟩
      rw [if_pos (by omega)]
      exact ⟨hres, idx, hslot, hnew⟩
  | dropData hpc _ hslot =>
    rw [RequestLog.onMqtt_found (by rw [hpc]; nofun)]
    rw [hpc] at hrx
    obtain ⟨m, off, len, hcur, rfl, -, hempty, hrecv⟩ := hrx
    rw [hrecv.found_of_none hslot]
    exact between_of_no_slot hcur hempty hslot
  | submit hpc =>
    rw [hpc] at hrx
    obtain ⟨m, i, hcur, -, -⟩ := hrx
    exact between_of_complete (.inr ⟨m, hcur⟩) rfl
  | submitNone hpc hslot =>
    rw [hpc] at hrx
    obtain ⟨m, i, -, hslot', -⟩ := hrx
    rw [hslot] at hslot'
    cases hslot'
  | @dropSlot was _ hpc =>
    rw [hpc] at hrx
    cases was with
    | true => exact between_of_complete (.inl hrx) rfl
    | false => exact between_of_complete (.inl hrx) rfl
  | setRequest hpc | setCallDone hpc | setConnected hpc | setDisconnected hpc =>
    rw [RequestLog.onMqtt_found (by rw [hpc]; nofun)]
    rw [hpc] at hrx
    exact hrx

/-! ## What is due is what was submitted -/

namespace Link

/-- The request that is complete and about to be put on `ready_slots`. -/
def aboutToSubmit (l : Link cfg) : List Message :=
  match l.dev.mqttPc with
  | .submit => (l.cur.map Prod.fst).toList
  | _ => []

end Link

/-- The receiving half of the invariant. -/
structure Assembling (l : Link cfg) (h : RequestLog cfg) : Prop where
  rx : Rx l h.found
  due : ∃ done, h.due = done ++ l.aboutToSubmit ∧ List.Forall₂ (Carries cfg) done h.submitted

/-- A step that does not touch the receiving half keeps the invariant. -/
theorem Assembling.congr {l l' : Link cfg} {h h' : RequestLog cfg} (hinv : Assembling l h)
    (hcur : l'.cur = l.cur) (hpc : l'.dev.mqttPc = l.dev.mqttPc)
    (hrx : l'.dev.mqtt.rxSlot = l.dev.mqtt.rxSlot)
    (hres : l'.dev.mqtt.rxResponse = l.dev.mqtt.rxResponse)
    (hslots : l'.dev.rpc.slots = l.dev.rpc.slots) (hfound : h'.found = h.found)
    (hdue : h'.due = h.due) (hsub : h'.submitted = h.submitted) : Assembling l' h' := by
  obtain ⟨hrx', done, hdone, hall⟩ := hinv
  refine ⟨hfound ▸ hrx'.congr hcur hpc hrx hres hslots, done, ?_, hsub ▸ hall⟩
  rw [Link.aboutToSubmit] at hdone ⊢
  rw [hdue, hdone, hpc, hcur]

theorem Link.aboutToSubmit_of_ne {l : Link cfg} (hpc : l.dev.mqttPc ≠ .submit) :
    l.aboutToSubmit = [] := by
  rw [aboutToSubmit]
  split
  · rename_i hsub
    exact absurd hsub hpc
  · rfl

/-- The arrival of an event submits nothing. -/
theorem Assembling.event {l l' : Link cfg} {h : RequestLog cfg} (hinv : Assembling l h)
    (hidle : l.dev.mqttPc = .idle) (hrx : Rx l' h.found) (hpc : l'.dev.mqttPc ≠ .submit) :
    Assembling l' h := by
  obtain ⟨-, done, hdone, hall⟩ := hinv
  have hold : l.aboutToSubmit = [] := Link.aboutToSubmit_of_ne (by rw [hidle]; nofun)
  have hnew : l'.aboutToSubmit = [] := Link.aboutToSubmit_of_ne hpc
  refine ⟨hrx, done, ?_, hall⟩
  rw [hdone, hold, hnew]

/-- A request becomes due when the event handler has its last byte and is about to
submit it. -/
theorem due_mqtt {l : Link cfg} {dev : Device cfg} {h : RequestLog cfg} (hrx : Rx l h.found)
    (hst : Device.MqttStep l.dev dev) (hpc : l.dev.mqttPc ≠ .submit) :
    (RequestLog.onMqtt l h).due = h.due ++ Link.aboutToSubmit ⟨dev, l.cur⟩ ∧
      (RequestLog.onMqtt l h).submitted = h.submitted := by
  have hnone : ∀ {l' : Link cfg}, l'.dev.mqttPc ≠ .submit →
      h.due = h.due ++ Link.aboutToSubmit l' := fun hne => by
    rw [Link.aboutToSubmit_of_ne hne, List.append_nil]
  rw [Rx] at hrx
  rw [RequestLog.onMqtt]
  cases hst with
  | @deliver evt rpc hpc hres hrpc hsame =>
    rw [hpc] at hrx ⊢
    obtain ⟨m, off, len, hcur, rfl, hlen, -, hrecv⟩ := hrx
    dsimp only
    rw [hrecv.found_of_response hres]
    refine ⟨hnone ?_, rfl⟩
    dsimp only
    split <;> rintro ⟨⟩
  | @append evt idx slot hpc hres hslot happ =>
    rw [hpc] at hrx ⊢
    obtain ⟨m, off, len, hcur, rfl, hlen, -, hrecv⟩ := hrx
    obtain ⟨hfound, -⟩ := hrecv.found_of_some hslot
    have hbytes := m.fragment_data_length hlen
    have hcomplete : RequestLog.complete l = decide (off + len = m.payload.length) := by
      rw [RequestLog.complete]
      rw [hcur]
    dsimp only
    rw [hfound, hcomplete]
    by_cases hlast : off + len = m.payload.length
    · -- The log and the handler agree on which fragment is the last.
      rw [if_pos (by simp [hlast])]
      refine ⟨?_, rfl⟩
      rw [Link.aboutToSubmit]
      rw [if_pos (by rw [hbytes]; exact hlast.ge)]
    · rw [if_neg (by simp [hlast])]
      refine ⟨hnone ?_, rfl⟩
      show (if m.payload.length ≤ off + (m.fragment off len).data.length then MqttPc.submit
        else MqttPc.idle) ≠ _
      rw [hbytes, if_neg (by omega)]
      rintro ⟨⟩
  | @dropData evt hpc hres hslot =>
    rw [hpc] at hrx ⊢
    obtain ⟨m, off, len, hcur, rfl, hlen, -, hrecv⟩ := hrx
    dsimp only
    rw [hrecv.found_of_none hslot]
    exact ⟨hnone (by rintro ⟨⟩), rfl⟩
  | submit hsub | submitNone hsub => exact absurd hsub hpc
  | @ignored evt pc hpc hreq hres hpc' =>
    rw [hpc]
    refine ⟨hnone ?_, rfl⟩
    rcases hpc' with rfl | rfl <;> rintro ⟨⟩
  | @dropSlot was q hpc hitems =>
    rw [hpc]
    refine ⟨hnone ?_, rfl⟩
    cases was <;> rintro ⟨⟩
  | takeSlot hpc | busy hpc | response hpc | fill hpc | fillNone hpc | setRequest hpc
  | setCallDone hpc | setConnected hpc | setDisconnected hpc =>
    rw [hpc]
    exact ⟨hnone (by rintro ⟨⟩), rfl⟩

/-- **Step lemma**: the event handler moves. -/
theorem Assembling.mqtt {l : Link cfg} {dev : Device cfg} {h : RequestLog cfg}
    (hinv : Assembling l h) (hst : Device.MqttStep l.dev dev) :
    Assembling ⟨dev, l.cur⟩ (RequestLog.onMqtt l h) := by
  refine ⟨rx_mqtt hinv.rx hst, ?_⟩
  obtain ⟨hrx, done, hdone, hall⟩ := hinv
  by_cases hsub : l.dev.mqttPc = .submit
  · rw [Rx] at hrx
    rw [hsub] at hrx
    obtain ⟨m, i, hcur, hslot, hcarries⟩ := hrx
    have hold : l.aboutToSubmit = [m] := by
      rw [Link.aboutToSubmit]
      rw [hsub, hcur]
      rfl
    have hnew : Link.aboutToSubmit ⟨dev, l.cur⟩ = [] := by
      refine Link.aboutToSubmit_of_ne ?_
      cases hst with
      | submit | submitNone => rintro ⟨⟩
      | _ => simp_all
    have hlog : RequestLog.onMqtt l h =
        { h with submitted := h.submitted ++ [l.dev.rpc.slots i] } := by
      rw [RequestLog.onMqtt]
      rw [hsub, hslot]
      rfl
    refine ⟨done ++ [m], ?_, ?_⟩
    · rw [hnew, List.append_nil, ← hold, ← hdone, hlog]
    · rw [hlog]
      exact List.rel_append hall (.cons hcarries .nil)
  · obtain ⟨hdue, hsubm⟩ := due_mqtt hrx hst hsub
    refine ⟨done, ?_, hsubm ▸ hall⟩
    rw [hdue, hdone, l.aboutToSubmit_of_ne hsub, List.append_nil]

/-- **Step lemma**: any step of the link. -/
theorem Assembling.step {l l' : Link cfg} {h : RequestLog cfg} {a : LinkAct} (hk : l.dev.Kept)
    (hinv : Assembling l h) (hst : l.step a = some l') :
    Assembling l' (RequestLog.update l a l' h) := by
  have hs := hk.settled
  cases Link.step_cases hst with
  | @first m len hidle hlen hempty =>
    refine hinv.event hidle (rx_first hs hlen hempty h.found) ?_
    rw [l.dev.event_first (m.fragment 0 len) rfl]
    rintro ⟨⟩
  | @next m off len hidle hcur hpos hlen =>
    have hrx := rx_next (hinv.rx.between hidle) hcur hpos hlen
    refine hinv.event hidle hrx ?_
    by_cases hoff : (m.fragment off len).currentDataOffset = 0
    · rw [l.dev.event_first _ hoff]
      rintro ⟨⟩
    · rw [l.dev.event_later _ hoff]
      rintro ⟨⟩
  | @connected subscribed hidle =>
    refine hinv.event hidle (rx_connected (hinv.rx.between hidle) hidle subscribed) ?_
    cases subscribed with
    | true => rintro ⟨⟩
    | false =>
      show l.dev.mqttPc ≠ .submit
      rw [hidle]
      rintro ⟨⟩
  | disconnected hidle => exact hinv.event hidle rfl (by rintro ⟨⟩)
  | otherEvent => exact hinv
  | mqtt hdev => exact hinv.mqtt (hs.mqttStep_cases hdev)
  | @task a dev hdev =>
    obtain ⟨hfound, hdue, hsub⟩ := RequestLog.onTask_received l.dev a h
    have hpc : dev.mqttPc = l.dev.mqttPc ∧ dev.mqtt = l.dev.mqtt := by
      cases hdev <;> exact ⟨rfl, rfl⟩
    exact hinv.congr rfl hpc.1 (by rw [hpc.2]) (by rw [hpc.2]) hdev.slots hfound hdue hsub
  | requestReport | stop => exact hinv.congr rfl rfl rfl rfl rfl rfl rfl rfl

/-- The invariant holds in every reachable state of the logged link. -/
theorem assembling_reach {g : Link cfg × RequestLog cfg → LinkAct → Prop}
    {p : Link cfg × RequestLog cfg} (h : (logged cfg).ReachBy g p) : Assembling p.1 p.2 := by
  have hinit : Assembling ⟨Device.init cfg, none⟩ (RequestLog.empty cfg) :=
    ⟨rfl, [], rfl, .nil⟩
  refine h.invariant (I := fun p => Assembling p.1 p.2) hinit ?_
  intro p a p' hp hI _ hst
  obtain ⟨hst', hlog⟩ := Lts.withHist_step hst
  rw [hlog]
  exact hI.step (Device.kept_reach (Link.reach_dev (Lts.reach_fst hp))) hst'

/-- In every reachable state the due messages are, in order of arrival, the ones that were
submitted; only the one that the event handler is about to submit may be missing, none
between two events. -/
theorem due_reach {g : Link cfg × RequestLog cfg → LinkAct → Prop} {l : Link cfg}
    {h : RequestLog cfg} (hreach : (logged cfg).ReachBy g (l, h)) :
    List.Forall₂ (Carries cfg) (h.due.take h.submitted.length) h.submitted ∧
      h.due.length ≤ h.submitted.length + 1 ∧
      (l.dev.mqttPc = .idle → List.Forall₂ (Carries cfg) h.due h.submitted) := by
  obtain ⟨-, done, hdone, hall⟩ := assembling_reach hreach
  have hlen := hall.length_eq
  dsimp only at hdone hall hlen
  refine ⟨?_, ?_, ?_⟩
  · rw [hdone, ← hlen, List.take_left]
    exact hall
  · rw [hdone, List.length_append, hlen]
    have hone : l.aboutToSubmit.length ≤ 1 := by
      rw [Link.aboutToSubmit]
      split
      · cases l.cur <;> simp
      · simp
    omega
  · intro hidle
    rw [hdone, l.aboutToSubmit_of_ne (by rw [hidle]; rintro ⟨⟩), List.append_nil]
    exact hall

end SoulCloud
