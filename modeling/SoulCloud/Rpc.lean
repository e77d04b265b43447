import SoulCloud.Lib.Fifo
import SoulCloud.Message
import SoulCloud.Publish
import Mathlib.Logic.Function.Basic

/-!
# `sc_rpc`: request slots and the outstanding call

The state of `sc_rpc` and its methods, each one either a single operation on a
FreeRTOS queue, a critical section under `call_lock`, or code that touches data
its caller owns. Which task runs them when is the business of `Device.lean`.

Slots are reused without being cleared, so the arrays of a `Slot` keep the bytes
of earlier requests behind the lengths and NULs that `take_free_slot` resets.
-/

namespace SoulCloud

open Bytes

/-- `sc_rpc_slot`: one request from the platform, written in place by the MQTT task. -/
structure Slot (payloadMax : Nat) where
  tooLarge : Bool
  correlationLen : Nat
  payloadLen : Nat
  method : Buf 48
  correlation : Buf 64
  responseTopic : Buf 96
  payload : Buf (payloadMax + 1)
  /-- The NUL behind the payload fits. -/
  payloadLen_le : payloadLen ≤ payloadMax

namespace Slot

variable {payloadMax : Nat}

/-- A slot as constructed by `sc_rpc::init`. -/
def fresh (payloadMax : Nat) : Slot payloadMax :=
  ⟨false, 0, 0, .zero 48, .zero 64, .zero 96, .zero (payloadMax + 1), Nat.zero_le _⟩

/-- The resets at the end of `sc_rpc::take_free_slot`. -/
def reset (slot : Slot payloadMax) : Slot payloadMax :=
  { slot with
    tooLarge := false
    correlationLen := 0
    payloadLen := 0
    payloadLen_le := Nat.zero_le _
    method := slot.method.set 0 0
    responseTopic := slot.responseTopic.set 0 0 }

/-- Dotted method names travel as topic levels: `down/req/ota/start` is `ota.start`. -/
def dotted (c : UInt8) : UInt8 := if c = 47 then 46 else c

/-- `sc_mqtt::start_request`, the method: at most 47 bytes and a NUL. -/
def copyMethod (slot : Slot payloadMax) (method : Bytes) : Option (Slot payloadMax) := do
  -- A longer method is cut, not refused.
  let copyLen := if method.length < 48 - 1 then method.length else 48 - 1
  let copied ← slot.method.memcpy 0 ((method.take copyLen).map dotted)
  let closed ← copied.memcpy copyLen [0]
  return { slot with method := closed }

/-- `sc_mqtt::start_request`, the correlation data: 1 to 64 bytes, else none. -/
def copyCorrelation (slot : Slot payloadMax) (props : Option Property) :
    Option (Slot payloadMax) :=
  match props with
  | none => some slot
  | some p =>
    if 0 < p.correlationData.length ∧ p.correlationData.length ≤ 64 then do
      let copied ← slot.correlation.memcpy 0 p.correlationData
      return { slot with correlation := copied, correlationLen := p.correlationData.length }
    else some slot

/-- `sc_mqtt::start_request`, the response topic: 1 to 95 bytes, else none. -/
def copyResponseTopic (slot : Slot payloadMax) (props : Option Property) :
    Option (Slot payloadMax) :=
  match props with
  | none => some slot
  | some p =>
    if 0 < p.responseTopic.length ∧ p.responseTopic.length < 96 then do
      let copied ← slot.responseTopic.memcpy 0 p.responseTopic
      let closed ← copied.memcpy p.responseTopic.length [0]
      return { slot with responseTopic := closed }
    else some slot

/-- `sc_mqtt::start_request` after `take_free_slot` gave a slot. -/
def startRequest (slot : Slot payloadMax) (evt : Event) (method : Bytes) :
    Option (Slot payloadMax) := do
  let slot ← slot.copyMethod method
  let slot ← slot.copyCorrelation evt.property
  let slot ← slot.copyResponseTopic evt.property
  return { slot with tooLarge := decide (payloadMax < evt.totalDataLen) }

/-- A fragment is copied when the request is not too large and the bytes fit. -/
def Fits (slot : Slot payloadMax) (evt : Event) : Prop :=
  slot.tooLarge = false ∧ evt.currentDataOffset + evt.data.length ≤ payloadMax

instance (slot : Slot payloadMax) (evt : Event) : Decidable (slot.Fits evt) :=
  inferInstanceAs (Decidable (_ ∧ _))

/-- `sc_mqtt::handle_data`: append a fragment unless the request is too large. -/
def copyFragment (slot : Slot payloadMax) (evt : Event) : Option (Slot payloadMax) :=
  if h : slot.Fits evt then do
    let copied ← slot.payload.memcpy evt.currentDataOffset evt.data
    return { slot with
      payload := copied
      payloadLen := evt.currentDataOffset + evt.data.length
      payloadLen_le := h.2 }
  else some slot

/-- `sc_mqtt::handle_data`: `payload[payload_len] = '\0'` once the message is complete. -/
def terminate (slot : Slot payloadMax) : Option (Slot payloadMax) := do
  let closed ← slot.payload.memcpy slot.payloadLen [0]
  return { slot with payload := closed }

/-! ### What filling a slot does -/

/-- `take_free_slot` leaves an empty response topic. -/
theorem reset_responseTopic (slot : Slot payloadMax) : slot.reset.responseTopic.cstr = [] := by
  have hsize := slot.responseTopic.size
  unfold Buf.cstr
  show Bytes.cstr (slot.responseTopic.bytes.set 0 0) = []
  cases hb : slot.responseTopic.bytes with
  | nil => simp [hb] at hsize
  | cons c rest => exact Bytes.cstr_nul rest

theorem dotted_ne_zero {c : UInt8} (h : c ≠ 0) : dotted c ≠ 0 := by
  unfold dotted
  split
  · decide
  · exact h

theorem copyMethod_spec (slot : Slot payloadMax) (method : Bytes) :
    ∃ slot', slot.copyMethod method = some slot' ∧
      slot' = { slot with method := slot'.method } ∧
      (0 ∉ method → slot'.method.cstr = (method.take 47).map dotted) := by
  unfold copyMethod
  generalize hlen : (if method.length < 48 - 1 then method.length else 48 - 1) = copyLen
  have hle : copyLen ≤ method.length ∧ copyLen < 48 ∧ method.take copyLen = method.take 47 := by
    rw [← hlen]
    split
    · refine ⟨Nat.le_refl _, by omega, ?_⟩
      rw [List.take_of_length_le (Nat.le_refl _), List.take_of_length_le (by omega)]
    · exact ⟨by omega, by omega, rfl⟩
  have hd : ((method.take copyLen).map dotted).length = copyLen := by
    rw [List.length_map, List.length_take]
    omega
  obtain ⟨b₁, b₂, hb₁, hb₂, htext⟩ :=
    slot.method.memcpy_text (d := (method.take copyLen).map dotted) (by omega)
  rw [hd] at hb₂
  refine ⟨{ slot with method := b₂ }, ?_, rfl, ?_⟩
  · show (slot.method.memcpy 0 ((method.take copyLen).map dotted)).bind _ = _
    rw [hb₁]
    show (b₁.memcpy copyLen [0]).bind _ = _
    rw [hb₂]
    rfl
  · intro hnul
    rw [hle.2.2] at htext
    -- Replacing levels by dots puts no NUL into a NUL-free name.
    refine Buf.cstr_of_text ?_ htext
    rintro hmem
    obtain ⟨c, hc, hc0⟩ := List.mem_map.mp hmem
    exact dotted_ne_zero (fun h0 => hnul (h0 ▸ List.mem_of_mem_take hc)) hc0

theorem copyCorrelation_spec (slot : Slot payloadMax) (props : Option Property) :
    ∃ slot', slot.copyCorrelation props = some slot' ∧
      slot' = { slot with
        correlation := slot'.correlation, correlationLen := slot'.correlationLen } ∧
      (slot.correlationLen = 0 →
        slot'.correlation.text slot'.correlationLen = Property.answerCorrelation props) := by
  cases props with
  | none => exact ⟨slot, rfl, rfl, fun h => by rw [h]; rfl⟩
  | some p =>
    by_cases hfit : 0 < p.correlationData.length ∧ p.correlationData.length ≤ 64
    · obtain ⟨b, hb, -⟩ :=
        slot.correlation.memcpy_of_le 0 p.correlationData (by omega)
      refine ⟨{ slot with correlation := b, correlationLen := p.correlationData.length }, ?_, rfl,
        ?_⟩
      · simp only [copyCorrelation]
        rw [if_pos hfit, hb]
        rfl
      · intro _
        have htext := Buf.text_memcpy hb
        rw [Nat.zero_add, Buf.text_zero, List.nil_append] at htext
        show b.text p.correlationData.length = _
        rw [htext, Property.answerCorrelation, if_pos hfit]
    · refine ⟨slot, ?_, rfl, ?_⟩
      · simp only [copyCorrelation]
        rw [if_neg hfit]
      · intro h
        rw [h, Property.answerCorrelation, if_neg hfit]
        rfl

theorem copyResponseTopic_spec (slot : Slot payloadMax) (props : Option Property) :
    ∃ slot', slot.copyResponseTopic props = some slot' ∧
      slot' = { slot with responseTopic := slot'.responseTopic } ∧
      (slot.responseTopic.cstr = [] → slot'.responseTopic.cstr = Property.ownTopic props) := by
  cases props with
  | none => exact ⟨slot, rfl, rfl, id⟩
  | some p =>
    by_cases hfit : 0 < p.responseTopic.length ∧ p.responseTopic.length < 96
    · obtain ⟨b₁, b₂, hb₁, hb₂, htext⟩ := slot.responseTopic.memcpy_text hfit.2
      refine ⟨{ slot with responseTopic := b₂ }, ?_, rfl, ?_⟩
      · simp only [copyResponseTopic]
        rw [if_pos hfit, hb₁]
        show (b₁.memcpy p.responseTopic.length [0]).bind _ = _
        rw [hb₂]
        rfl
      · intro _
        rw [Property.ownTopic, if_pos hfit]
        exact Buf.cstr_of_text p.responseTopic_nul htext
    · refine ⟨slot, ?_, rfl, ?_⟩
      · simp only [copyResponseTopic]
        rw [if_neg hfit]
      · intro h
        rw [h, Property.ownTopic, if_neg hfit]

/-- What a slot says about the request it was filled for, apart from the payload. -/
structure HeadOf (slot : Slot payloadMax) (method : Bytes) (props : Option Property)
    (total : Nat) : Prop where
  method : slot.method.cstr = (method.take 47).map dotted
  tooLarge : slot.tooLarge = decide (payloadMax < total)
  correlation :
    slot.correlation.text slot.correlationLen = Property.answerCorrelation props
  responseTopic : slot.responseTopic.cstr = Property.ownTopic props

/-- `start_request` writes inside the slot, whatever the event says. -/
theorem startRequest_spec (slot : Slot payloadMax) (evt : Event) (method : Bytes) :
    ∃ slot', slot.startRequest evt method = some slot' ∧
      slot'.payloadLen = slot.payloadLen ∧
      (slot.correlationLen = 0 → slot.responseTopic.cstr = [] → 0 ∉ method →
        slot'.HeadOf method evt.property evt.totalDataLen) := by
  obtain ⟨s₁, h₁, hs₁, hmethod⟩ := slot.copyMethod_spec method
  obtain ⟨s₂, h₂, hs₂, hcorr⟩ := s₁.copyCorrelation_spec evt.property
  obtain ⟨s₃, h₃, hs₃, htopic⟩ := s₂.copyResponseTopic_spec evt.property
  refine ⟨{ s₃ with tooLarge := decide (payloadMax < evt.totalDataLen) }, ?_, ?_, ?_⟩
  · simp [startRequest, h₁, h₂, h₃]
  · show s₃.payloadLen = _
    rw [hs₃, hs₂, hs₁]
  · intro hlen hempty hnul
    refine ⟨?_, rfl, ?_, ?_⟩
    · show s₃.method.cstr = _
      rw [hs₃, hs₂]
      exact hmethod hnul
    · show s₃.correlation.text s₃.correlationLen = _
      rw [hs₃]
      exact hcorr (by rw [hs₁]; exact hlen)
    · exact htopic (by rw [hs₂, hs₁]; exact hempty)

/-- Appending a fragment writes inside the payload, whatever the event says. -/
theorem copyFragment_spec (slot : Slot payloadMax) (evt : Event) :
    ∃ slot', slot.copyFragment evt = some slot' ∧
      slot' = { slot with
        payload := slot'.payload, payloadLen := slot'.payloadLen
        payloadLen_le := slot'.payloadLen_le } ∧
      (slot.Fits evt → slot'.payloadLen = evt.currentDataOffset + evt.data.length ∧
        slot'.payload.text slot'.payloadLen =
          slot.payload.text evt.currentDataOffset ++ evt.data) ∧
      (¬ slot.Fits evt → slot' = slot) := by
  unfold copyFragment
  by_cases hfit : slot.Fits evt
  · obtain ⟨b, hb, -⟩ :=
      slot.payload.memcpy_of_le evt.currentDataOffset evt.data
        (Nat.le_succ_of_le hfit.2)
    rw [dif_pos hfit, hb]
    exact ⟨_, rfl, rfl, fun _ => ⟨rfl, Buf.text_memcpy hb⟩, fun hn => absurd hfit hn⟩
  · rw [dif_neg hfit]
    exact ⟨slot, rfl, rfl, fun h => absurd h hfit, fun _ => rfl⟩

/-- The NUL behind the payload is inside the slot and changes none of the payload. -/
theorem terminate_spec (slot : Slot payloadMax) :
    ∃ slot', slot.terminate = some slot' ∧ slot' = { slot with payload := slot'.payload } ∧
      slot'.payload.text slot'.payloadLen = slot.payload.text slot.payloadLen := by
  have hle := slot.payloadLen_le
  obtain ⟨b, hb, -⟩ :=
    slot.payload.memcpy_of_le slot.payloadLen [0]
      (by simp only [List.length_singleton]; omega)
  refine ⟨{ slot with payload := b }, ?_, rfl, Buf.text_memcpy_of_le hb (Nat.le_refl _)⟩
  simp [terminate, hb]

end Slot

/-- The state of `sc_rpc`. -/
structure Rpc (cfg : Config) where
  slots : Nat → Slot cfg.payloadMax
  freeSlots : Fifo Nat cfg.queueLen
  readySlots : Fifo Nat cfg.queueLen
  /-- `CALL_BUF_SIZE` is 1024. -/
  callBuf : Buf 1024
  /-- Empty while no call is waiting. -/
  callCorrelation : Bytes
  callLen : Nat
  callOverflow : Bool
  /-- A `uint32_t`. -/
  callCounter : Nat

namespace Rpc

variable {cfg : Config}

/-- `sc_rpc::init`: every slot index goes to `free_slots`. -/
def init (cfg : Config) : Rpc cfg where
  slots _ := Slot.fresh cfg.payloadMax
  freeSlots := (List.range cfg.queueLen).foldl Fifo.sendOrDrop (Fifo.empty Nat cfg.queueLen)
  readySlots := Fifo.empty Nat cfg.queueLen
  callBuf := .zero 1024
  callCorrelation := []
  callLen := 0
  callOverflow := false
  callCounter := 0

theorem init_freeSlots (cfg : Config) : (init cfg).freeSlots.items = List.range cfg.queueLen :=
  Fifo.items_foldl_sendOrDrop _ _ (by simp [Fifo.empty])

/-- Write the slot at `idx`. -/
def setSlot (r : Rpc cfg) (idx : Nat) (slot : Slot cfg.payloadMax) : Rpc cfg :=
  { r with slots := Function.update r.slots idx slot }

/-- `static_cast<uint8_t>(slot - slots)`. -/
def slotIndex (idx : Nat) : Nat := idx % 256

/-- `sc_rpc::take_free_slot`. -/
def takeFreeSlot (r : Rpc cfg) : Option (Nat × Rpc cfg) :=
  match r.freeSlots.receive with
  | none => none
  | some (idx, rest) =>
    some (idx, { r with freeSlots := rest }.setSlot idx (r.slots idx).reset)

/-- `sc_rpc::submit`, the queue operation; `none` when `ready_slots` is full. -/
def submit (r : Rpc cfg) (idx : Nat) : Option (Rpc cfg) :=
  (r.readySlots.send (slotIndex idx)).map fun q => { r with readySlots := q }

/-- `sc_rpc::give_back`; `none` when `free_slots` is full. -/
def giveBack (r : Rpc cfg) (idx : Nat) : Option (Rpc cfg) :=
  (r.freeSlots.send (slotIndex idx)).map fun q => { r with freeSlots := q }

/-- The acceptance test of `sc_rpc::deliver_response`: a call is outstanding and
the response carries its correlation. -/
def Ours (r : Rpc cfg) (correlation : Bytes) : Prop :=
  r.callCorrelation ≠ [] ∧ correlation.length = r.callCorrelation.length ∧
    correlation = r.callCorrelation

instance (r : Rpc cfg) (correlation : Bytes) : Decidable (r.Ours correlation) :=
  inferInstanceAs (Decidable (_ ∧ _ ∧ _))

/-- `sc_rpc::deliver_response`, the critical section: the new state and `complete`.
`none` is a write past the end of `call_buf`. -/
def deliverResponse (r : Rpc cfg) (correlation data : Bytes) (offset total : Nat) :
    Option (Rpc cfg × Bool) :=
  if r.Ours correlation then
    -- The offset is taken from the event: nothing relates it to what is there already.
    if offset + data.length < 1024 then do
      let buf ← r.callBuf.memcpy offset data
      return ({ r with callBuf := buf, callLen := offset + data.length },
        decide (total ≤ offset + data.length))
    else some ({ r with callOverflow := true }, decide (total ≤ offset + data.length))
  else some (r, false)

/-- `take_free_slot` takes the oldest free index and resets its slot. -/
theorem takeFreeSlot_items {r r' : Rpc cfg} {idx : Nat} (h : r.takeFreeSlot = some (idx, r')) :
    r.freeSlots.items = idx :: r'.freeSlots.items ∧
      r' = { r with
        freeSlots := r'.freeSlots, slots := Function.update r.slots idx (r.slots idx).reset } := by
  unfold takeFreeSlot at h
  split at h
  · cases h
  · rename_i hrec
    cases h
    exact ⟨Fifo.items_of_receive hrec, rfl⟩

theorem takeFreeSlot_eq_none_iff {r : Rpc cfg} :
    r.takeFreeSlot = none ↔ r.freeSlots.items = [] := by
  rw [← Fifo.receive_eq_none_iff]
  unfold takeFreeSlot
  constructor
  · intro h
    split at h
    · assumption
    · cases h
  · intro h
    rw [h]

/-- `deliver_response` writes inside `call_buf`, whatever the event says: it takes
over a fragment of the outstanding call's answer and ignores any other. -/
theorem deliverResponse_spec (r : Rpc cfg) (correlation data : Bytes) (offset total : Nat) :
    ∃ r', r.deliverResponse correlation data offset total =
        some (r', decide (r.Ours correlation ∧ total ≤ offset + data.length)) ∧
      r' = { r with
        callBuf := r'.callBuf, callLen := r'.callLen, callOverflow := r'.callOverflow } ∧
      (¬ r.Ours correlation → r' = r) ∧
      (r.Ours correlation → offset + data.length < 1024 →
        r'.callOverflow = r.callOverflow ∧ r'.callLen = offset + data.length ∧
          r'.callBuf.text r'.callLen = r.callBuf.text offset ++ data) ∧
      (r.Ours correlation → 1024 ≤ offset + data.length →
        r' = { r with callOverflow := true }) := by
  unfold deliverResponse
  by_cases hours : r.Ours correlation
  · rw [if_pos hours]
    by_cases hfit : offset + data.length < 1024
    · obtain ⟨b, hb, -⟩ := r.callBuf.memcpy_of_le offset data (by omega)
      rw [if_pos hfit, hb]
      refine ⟨{ r with callBuf := b, callLen := offset + data.length }, ?_, rfl,
        fun hn => absurd hours hn, fun _ _ => ⟨rfl, rfl, Buf.text_memcpy hb⟩,
        fun _ hge => by omega⟩
      simp [hours]
    · rw [if_neg hfit]
      refine ⟨{ r with callOverflow := true }, ?_, rfl, fun hn => absurd hours hn,
        fun _ hlt => absurd hlt hfit, fun _ _ => rfl⟩
      simp [hours]
  · rw [if_neg hours]
    refine ⟨r, ?_, rfl, fun _ => rfl, fun h => absurd h hours, fun h => absurd h hours⟩
    simp [hours]

/-- The correlation of the call numbered `counter`: `"c%lu"` into a `char[16]`. -/
def correlationOf (counter : Nat) : Bytes := snprintf 16 (ascii "c" ++ decimal counter)

/-- `sc_rpc::call`, the first critical section, with the counter it prints. -/
def beginCall (r : Rpc cfg) : Rpc cfg :=
  let counter := (r.callCounter + 1) % 2 ^ 32
  { r with
    callCounter := counter
    callCorrelation := correlationOf counter
    callLen := 0
    callOverflow := false }

/-- `sc_rpc::call`, the last critical section, up to what it reads. -/
def endCall (r : Rpc cfg) : Rpc cfg := { r with callCorrelation := [] }

/-- `sub_topic` of a call: "req/<method>" in a `char[64]`, dots as topic levels. -/
def callTopic (method : Bytes) : Bytes :=
  (snprintf 64 (ascii "req/" ++ method)).map fun c => if c = 46 then 47 else c

/-- The properties of a call's publish. -/
def callProps (cfg : Config) (correlation : Bytes) : PublishProps where
  contentType := some contentType
  correlation := correlation
  responseTopic := some (snprintf 48 (cfg.downTopic ++ ascii "res"))

end Rpc

end SoulCloud
