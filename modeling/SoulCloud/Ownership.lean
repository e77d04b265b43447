import SoulCloud.Device
import SoulCloud.Lib.Tokens

/-!
# Slot ownership

A slot index is a token that circulates between four places: `free_slots`,
`ready_slots`, the MQTT task's `rx_slot` and the slot the request task works on.
`holders` reads the four places off a device state, and `kept_reach` shows
that the device refines `Tokens.circulation`: every step of either task moves
one index from one place to another or none at all. What the source says about
its queues ("cannot fail: there are as many queue entries as slots") then
follows from the counting laws of the abstract system.

- `Settled`: what a step needs to know of the state it starts in.
- `Orderly s s'`: what a step does to the slots, in one place for both tasks.
- `slot_ownership`: the laws for every reachable state.
-/

namespace SoulCloud

open Bytes

namespace TaskPc

/-- The slot the request task works on. -/
def slot : TaskPc → Option Nat
  | .handling idx => some idx
  | .responding idx _ => some idx
  | .respondingRes idx _ => some idx
  | .returning idx => some idx
  | _ => none

end TaskPc

/-- Where a slot index can be. -/
inductive Place where
  | free
  | ready
  | rx
  | task
  deriving DecidableEq

instance : Fintype Place := ⟨{.free, .ready, .rx, .task}, fun p => by cases p <;> decide⟩

namespace Device

variable {cfg : Config}

/-- The slot indices at each place. -/
def holders (s : Device cfg) : Place → List Nat
  | .free => s.rpc.freeSlots.items
  | .ready => s.rpc.readySlots.items
  | .rx => s.mqtt.rxSlot.toList
  | .task => s.taskPc.slot.toList

theorem holders_congr {s s' : Device cfg} (hfree : s'.rpc.freeSlots = s.rpc.freeSlots)
    (hready : s'.rpc.readySlots = s.rpc.readySlots) (hrx : s'.mqtt.rxSlot = s.mqtt.rxSlot)
    (htask : s'.taskPc.slot = s.taskPc.slot) : holders s' = holders s := by
  funext p
  cases p with
  | free => show s'.rpc.freeSlots.items = s.rpc.freeSlots.items; rw [hfree]
  | ready => show s'.rpc.readySlots.items = s.rpc.readySlots.items; rw [hready]
  | rx => show s'.mqtt.rxSlot.toList = s.mqtt.rxSlot.toList; rw [hrx]
  | task => show s'.taskPc.slot.toList = s.taskPc.slot.toList; rw [htask]

theorem holders_rx {s : Device cfg} {idx : Nat} (h : s.mqtt.rxSlot = some idx) :
    holders s .rx = [idx] := by
  show s.mqtt.rxSlot.toList = [idx]
  rw [h]
  rfl

theorem holders_task {s : Device cfg} {idx : Nat} (h : s.taskPc.slot = some idx) :
    holders s .task = [idx] := by
  show s.taskPc.slot.toList = [idx]
  rw [h]
  rfl

/-- One step of the slot economy: nothing moves, or one index moves between two places. -/
def Circulates (s s' : Device cfg) : Prop :=
  holders s' = holders s ∨ ∃ p q, Tokens.move (holders s) p q = some (holders s')

/-- A move is witnessed by the head of the source and the four resulting places. -/
theorem Circulates.of_move {s s' : Device cfg} {p q : Place} {x : Nat} {xs : List Nat}
    (hp : holders s p = x :: xs)
    (hq : ∀ r, holders s' r =
      Function.update (Function.update (holders s) p xs) q
        (Function.update (holders s) p xs q ++ [x]) r) : Circulates s s' := by
  refine .inr ⟨p, q, ?_⟩
  unfold Tokens.move
  rw [hp]
  exact congrArg some (funext fun r => (hq r).symm)

/-- What a step needs to know of the state it starts in: all `queueLen` indices are
somewhere, none is out of range, and `route` starts without a slot. -/
structure Settled (s : Device cfg) : Prop where
  total : Tokens.total (holders s) = cfg.queueLen
  lt : ∀ p, ∀ x ∈ holders s p, x < cfg.queueLen
  route : ∀ evt, s.mqttPc = .route evt → s.mqtt.rxSlot = none

/-- What a step does to the slots: indices circulate, no queue refuses one, no write
leaves its array, and a slot is written only if the MQTT task holds it afterwards. -/
structure Orderly (s s' : Device cfg) : Prop where
  circulates : Circulates s s'
  queueFull : s'.queueFull = s.queueFull
  pastEnd : s'.pastEnd = s.pastEnd
  writes : ∀ i, s'.rpc.slots i ≠ s.rpc.slots i → s'.mqtt.rxSlot = some i ∧
    s'.rpc.readySlots = s.rpc.readySlots ∧ s'.taskPc = s.taskPc
  route : ∀ evt, s'.mqttPc = .route evt → s'.mqtt.rxSlot = none

/-- A step that leaves the slots and the four places alone is orderly. -/
theorem Orderly.of_same {s s' : Device cfg} (hholders : holders s' = holders s)
    (hfull : s'.queueFull = s.queueFull) (hpast : s'.pastEnd = s.pastEnd)
    (hslots : s'.rpc.slots = s.rpc.slots)
    (hroute : ∀ evt, s'.mqttPc = .route evt → s'.mqtt.rxSlot = none) : Orderly s s' :=
  ⟨.inl hholders, hfull, hpast, fun i hne => absurd (congrFun hslots i) hne, hroute⟩

/-! ## The two queue operations that send -/

theorem slotIndex_of_lt {idx : Nat} (h : idx < cfg.queueLen) : Rpc.slotIndex idx = idx :=
  Nat.mod_eq_of_lt (by have := cfg.queueLen_le; omega)

/-- Giving back a slot that one of the tasks holds finds room in `free_slots`. -/
theorem Settled.giveBack {s : Device cfg} (hs : s.Settled) {p : Place} {idx : Nat}
    (hp : p ≠ .free) (hidx : idx ∈ holders s p) :
    ∃ q, s.rpc.giveBack idx = some { s.rpc with freeSlots := q } ∧
      q.items = s.rpc.freeSlots.items ++ [idx] := by
  have hlt : (holders s .free).length < cfg.queueLen :=
    hs.total ▸ Tokens.length_lt hp (List.ne_nil_of_mem hidx)
  obtain ⟨q, hq, hitems⟩ := Fifo.send_of_lt (q := s.rpc.freeSlots) (Rpc.slotIndex idx) hlt
  refine ⟨q, ?_, ?_⟩
  · rw [Rpc.giveBack, hq]
    rfl
  · rw [hitems, slotIndex_of_lt (hs.lt p idx hidx)]

/-- Submitting the MQTT task's slot finds room in `ready_slots`. -/
theorem Settled.submit {s : Device cfg} (hs : s.Settled) {idx : Nat}
    (hidx : s.mqtt.rxSlot = some idx) :
    ∃ q, s.rpc.submit idx = some { s.rpc with readySlots := q } ∧
      q.items = s.rpc.readySlots.items ++ [idx] := by
  have hmem : idx ∈ holders s .rx := holders_rx hidx ▸ List.mem_singleton_self idx
  have hlt : (holders s .ready).length < cfg.queueLen :=
    hs.total ▸ Tokens.length_lt (p := .rx) (by decide) (List.ne_nil_of_mem hmem)
  obtain ⟨q, hq, hitems⟩ := Fifo.send_of_lt (q := s.rpc.readySlots) (Rpc.slotIndex idx) hlt
  refine ⟨q, ?_, ?_⟩
  · rw [Rpc.submit, hq]
    rfl
  · rw [hitems, slotIndex_of_lt (hs.lt .rx idx hmem)]

/-! ## The MQTT task -/

/-- `give_back(rx_slot)` empties `rx_slot` into `free_slots` and touches nothing else. -/
theorem Settled.giveBackRx {s : Device cfg} (hs : s.Settled) :
    ∃ q, s.giveBackRx =
        { s with
          rpc := { s.rpc with freeSlots := q }, mqtt := { s.mqtt with rxSlot := none } } ∧
      q.items = s.rpc.freeSlots.items ++ s.mqtt.rxSlot.toList := by
  cases hrx : s.mqtt.rxSlot with
  | none =>
    refine ⟨s.rpc.freeSlots, ?_, (List.append_nil _).symm⟩
    rw [giveBackRx_of_none hrx, ← hrx]
  | some idx =>
    have hmem : idx ∈ holders s .rx := holders_rx hrx ▸ List.mem_singleton_self idx
    obtain ⟨q, hq, hitems⟩ := hs.giveBack (p := .rx) (by decide) hmem
    exact ⟨q, giveBackRx_of_some hrx hq, hitems⟩

/-- The steps of the event handler out of a settled state: where each is possible and
what it leaves. -/
inductive MqttStep (s : Device cfg) : Device cfg → Prop where
  | takeSlot {evt : Event} {idx : Nat} {rest : Fifo Nat cfg.queueLen} (hpc : s.mqttPc = .route evt)
      (hreq : IsRequestTopic cfg evt.topic) (hfree : s.rpc.freeSlots.items = idx :: rest.items) :
      MqttStep s
        { s with
          rpc := { s.rpc with
            freeSlots := rest, slots := Function.update s.rpc.slots idx (s.rpc.slots idx).reset }
          mqtt := { s.mqtt with rxSlot := some idx }
          mqttPc := .fill evt (requestMethod cfg evt.topic) }
  | busy {evt : Event} (hpc : s.mqttPc = .route evt) (hreq : IsRequestTopic cfg evt.topic)
      (hfree : s.rpc.freeSlots.items = []) : MqttStep s { s with mqttPc := .data evt }
  | response {evt : Event} {b : Buf 64} {len : Nat} (hpc : s.mqttPc = .route evt)
      (hres : IsResponseTopic cfg evt.topic)
      (hcorr : b.text len = Property.responseCorrelation evt.property) :
      MqttStep s
        { s with
          mqtt := { s.mqtt with rxResponse := true, rxCorrelation := b, rxCorrelationLen := len }
          mqttPc := .data evt }
  | ignored {evt : Event} {pc : MqttPc} (hpc : s.mqttPc = .route evt)
      (hreq : ¬ IsRequestTopic cfg evt.topic) (hres : ¬ IsResponseTopic cfg evt.topic)
      (hpc' : pc = .idle ∨ pc = .data evt) : MqttStep s { s with mqttPc := pc }
  | fill {evt : Event} {method : Bytes} {idx : Nat} {slot : Slot cfg.payloadMax}
      (hpc : s.mqttPc = .fill evt method) (hrx : s.mqtt.rxSlot = some idx)
      (hslot : (s.rpc.slots idx).startRequest evt method = some slot) :
      MqttStep s { s with rpc := s.rpc.setSlot idx slot, mqttPc := .data evt }
  | fillNone {evt : Event} {method : Bytes} (hpc : s.mqttPc = .fill evt method)
      (hrx : s.mqtt.rxSlot = none) : MqttStep s { s with mqttPc := .data evt }
  | deliver {evt : Event} {rpc : Rpc cfg} (hpc : s.mqttPc = .data evt)
      (hres : s.mqtt.rxResponse = true)
      (hrpc : s.rpc.deliverResponse s.mqtt.correlation evt.data evt.currentDataOffset
        evt.totalDataLen = some (rpc, decide (s.rpc.Ours s.mqtt.correlation ∧
          evt.totalDataLen ≤ evt.currentDataOffset + evt.data.length)))
      (hsame : rpc = { s.rpc with
        callBuf := rpc.callBuf, callLen := rpc.callLen, callOverflow := rpc.callOverflow }) :
      MqttStep s
        { s with
          rpc
          mqttPc := if s.rpc.Ours s.mqtt.correlation ∧
              evt.totalDataLen ≤ evt.currentDataOffset + evt.data.length then .setCallDone
            else .idle }
  | append {evt : Event} {idx : Nat} {slot : Slot cfg.payloadMax} (hpc : s.mqttPc = .data evt)
      (hres : s.mqtt.rxResponse = false) (hrx : s.mqtt.rxSlot = some idx)
      (hslot : appendFragment (s.rpc.slots idx) evt = some slot) :
      MqttStep s
        { s with
          rpc := s.rpc.setSlot idx slot
          mqttPc :=
            if evt.totalDataLen ≤ evt.currentDataOffset + evt.data.length then .submit
            else .idle }
  | dropData {evt : Event} (hpc : s.mqttPc = .data evt) (hres : s.mqtt.rxResponse = false)
      (hrx : s.mqtt.rxSlot = none) : MqttStep s { s with mqttPc := .idle }
  | submit {idx : Nat} {q : Fifo Nat cfg.queueLen} (hpc : s.mqttPc = .submit)
      (hrx : s.mqtt.rxSlot = some idx) (hitems : q.items = s.rpc.readySlots.items ++ [idx]) :
      MqttStep s
        { s with
          rpc := { s.rpc with readySlots := q }
          mqtt := { s.mqtt with rxSlot := none }
          mqttPc := .setRequest }
  | submitNone (hpc : s.mqttPc = .submit) (hrx : s.mqtt.rxSlot = none) :
      MqttStep s { s with mqttPc := .setRequest }
  | setRequest (hpc : s.mqttPc = .setRequest) :
      MqttStep s { s with bits := { s.bits with request := true }, mqttPc := .idle }
  | setCallDone (hpc : s.mqttPc = .setCallDone) :
      MqttStep s { s with bits := { s.bits with callDone := true }, mqttPc := .idle }
  | setConnected (hpc : s.mqttPc = .setConnected) :
      MqttStep s { s with bits := { s.bits with connected := true }, mqttPc := .idle }
  | dropSlot {was : Bool} {q : Fifo Nat cfg.queueLen} (hpc : s.mqttPc = .dropSlot was)
      (hitems : q.items = s.rpc.freeSlots.items ++ s.mqtt.rxSlot.toList) :
      MqttStep s
        { s with
          rpc := { s.rpc with freeSlots := q }
          mqtt := { s.mqtt with rxSlot := none }
          mqttPc := if was then .setDisconnected else .idle }
  | setDisconnected (hpc : s.mqttPc = .setDisconnected) :
      MqttStep s { s with bits := { s.bits with disconnected := true }, mqttPc := .idle }

theorem mqttStep_route (s : Device cfg) {evt : Event} (hpc : s.mqttPc = .route evt) :
    MqttStep s (s.route evt) := by
  by_cases hreq : IsRequestTopic cfg evt.topic
  · cases htake : s.rpc.takeFreeSlot with
    | none =>
      rw [route_busy s hreq htake]
      exact .busy hpc hreq (Rpc.takeFreeSlot_eq_none_iff.mp htake)
    | some p =>
      obtain ⟨idx, rpc⟩ := p
      obtain ⟨hfree, hrpc⟩ := Rpc.takeFreeSlot_items htake
      rw [route_request s hreq htake, hrpc]
      exact .takeSlot hpc hreq hfree
  · by_cases hres : IsResponseTopic cfg evt.topic
    · obtain ⟨m, hm, hsame, hcorr⟩ := s.mqtt.startResponse_spec evt
      rw [route_response s hres hm, hsame]
      exact .response hpc hres hcorr
    · rcases route_ignored s hreq hres with h | h <;> rw [h]
      · exact .ignored hpc hreq hres (.inl rfl)
      · exact .ignored hpc hreq hres (.inr rfl)

theorem mqttStep_data (s : Device cfg) {evt : Event} (hpc : s.mqttPc = .data evt) :
    MqttStep s (s.data evt) := by
  cases hres : s.mqtt.rxResponse with
  | true =>
    obtain ⟨rpc, hrpc, hdata⟩ := data_response hres evt
    obtain ⟨rpc', hrpc', hsame, -⟩ := s.rpc.deliverResponse_spec s.mqtt.correlation evt.data
      evt.currentDataOffset evt.totalDataLen
    obtain rfl : rpc = rpc' := congrArg Prod.fst (Option.some.inj (hrpc.symm.trans hrpc'))
    rw [hdata]
    exact .deliver hpc hres hrpc hsame
  | false =>
    cases hrx : s.mqtt.rxSlot with
    | none =>
      rw [data_ignored hres hrx]
      exact .dropData hpc hres hrx
    | some idx =>
      obtain ⟨slot, hslot, hdata⟩ := data_request hres hrx evt
      rw [hdata]
      exact .append hpc hres hrx hslot

theorem Settled.mqttStep_cases {s s' : Device cfg} (hs : s.Settled) (h : s.mqttStep = some s') :
    MqttStep s s' := by
  unfold Device.mqttStep at h
  cases hpc : s.mqttPc with
  | idle => rw [hpc] at h; cases h
  | route evt => rw [hpc] at h; cases h; exact mqttStep_route s hpc
  | fill evt method =>
    rw [hpc] at h
    cases h
    cases hrx : s.mqtt.rxSlot with
    | none =>
      rw [fill_of_none hrx]
      exact .fillNone hpc hrx
    | some idx =>
      obtain ⟨slot, hslot, hfill⟩ := fill_of_some hrx evt method
      rw [hfill]
      exact .fill hpc hrx hslot
  | data evt => rw [hpc] at h; cases h; exact mqttStep_data s hpc
  | submit =>
    rw [hpc] at h
    cases h
    cases hrx : s.mqtt.rxSlot with
    | none =>
      rw [submit_of_none hrx]
      exact .submitNone hpc hrx
    | some idx =>
      obtain ⟨q, hq, hitems⟩ := hs.submit hrx
      rw [submit_of_some hrx hq]
      exact .submit hpc hrx hitems
  | setRequest => rw [hpc] at h; cases h; exact .setRequest hpc
  | setCallDone => rw [hpc] at h; cases h; exact .setCallDone hpc
  | setConnected => rw [hpc] at h; cases h; exact .setConnected hpc
  | dropSlot was =>
    rw [hpc] at h
    cases h
    obtain ⟨q, hq, hitems⟩ := hs.giveBackRx
    rw [hq]
    exact .dropSlot hpc hitems
  | setDisconnected => rw [hpc] at h; cases h; exact .setDisconnected hpc

/-! ### Every step circulates -/

/-- Any state whose four places are those of `giveBackRx` came from one move or none. -/
theorem circulates_giveBackRx {s s' : Device cfg}
    (hfree : s'.rpc.freeSlots.items = s.rpc.freeSlots.items ++ s.mqtt.rxSlot.toList)
    (hready : s'.rpc.readySlots = s.rpc.readySlots) (hrx : s'.mqtt.rxSlot = none)
    (htask : s'.taskPc = s.taskPc) : Circulates s s' := by
  cases hold : s.mqtt.rxSlot with
  | none =>
    left
    refine holders_congr (Fifo.ext ?_) hready (hrx.trans hold.symm) (by rw [htask])
    rw [hfree, hold]
    exact List.append_nil _
  | some idx =>
    rw [hold] at hfree
    refine .of_move (q := .free) (holders_rx hold) ?_
    intro r
    cases r <;> simp [holders, hfree, hready, hrx, htask]

theorem Settled.event {s : Device cfg} (hs : s.Settled) (e : MqttEvent) :
    Orderly s (s.event e) := by
  have hidle : ∀ evt, s.mqttPc = .route evt → s.mqtt.rxSlot = none := hs.route
  cases e with
  | connected subscribed =>
    cases subscribed with
    | true => exact .of_same rfl rfl rfl rfl (by rintro evt ⟨⟩)
    | false => exact .of_same rfl rfl rfl rfl hidle
  | disconnected => exact .of_same rfl rfl rfl rfl (by rintro evt ⟨⟩)
  | data evt =>
    by_cases hoff : evt.currentDataOffset = 0
    · obtain ⟨q, hq, hitems⟩ := hs.giveBackRx
      rw [event_first s evt hoff, hq]
      exact ⟨circulates_giveBackRx hitems rfl rfl rfl, rfl, rfl, fun i hne => absurd rfl hne,
        fun _ _ => rfl⟩
    · rw [event_later s evt hoff]
      exact .of_same rfl rfl rfl rfl (by rintro evt ⟨⟩)
  | other => exact .of_same rfl rfl rfl rfl hidle

/-- Writing the slot in hand is orderly. -/
theorem Orderly.of_setSlot {s : Device cfg} {idx : Nat} {slot : Slot cfg.payloadMax}
    {pc : MqttPc} (hrx : s.mqtt.rxSlot = some idx) (hroute : ∀ evt, pc ≠ .route evt) :
    Orderly s { s with rpc := s.rpc.setSlot idx slot, mqttPc := pc } := by
  refine ⟨.inl rfl, rfl, rfl, fun i hne => ⟨?_, rfl, rfl⟩, fun evt h => absurd h (hroute evt)⟩
  show s.mqtt.rxSlot = some i
  rw [hrx]
  by_contra hi
  exact hne (Function.update_of_ne (fun h => hi (congrArg some h.symm)) _ _)

theorem Settled.mqttStep {s s' : Device cfg} (hs : s.Settled) (h : s.mqttStep = some s') :
    Orderly s s' := by
  cases hs.mqttStep_cases h with
  | @takeSlot evt idx rest hpc hreq hfree =>
    -- The one place `rx_slot` is filled: `route` starts without a slot.
    refine ⟨.of_move (p := .free) (q := .rx) hfree ?_, rfl, rfl,
      fun i hne => ⟨?_, rfl, rfl⟩, by rintro evt ⟨⟩⟩
    · intro r
      cases r <;> simp [holders, hs.route evt hpc]
    · show some idx = some i
      by_contra hi
      exact hne (Function.update_of_ne (fun h => hi (congrArg some h.symm)) _ _)
  | @ignored evt pc hpc hreq hres hpc' =>
    refine .of_same rfl rfl rfl rfl ?_
    intro evt' h
    exact hs.route evt hpc
  | fill hpc hrx hslot => exact .of_setSlot hrx (by rintro evt ⟨⟩)
  | deliver hpc hres hrpc hsame =>
    rw [hsame]
    refine .of_same rfl rfl rfl rfl ?_
    intro evt h
    dsimp only at h
    split at h <;> cases h
  | append hpc hres hrx hslot =>
    refine .of_setSlot hrx ?_
    intro evt h
    split at h <;> cases h
  | @submit idx q hpc hrx hitems =>
    refine ⟨.of_move (q := .ready) (holders_rx hrx) ?_, rfl, rfl,
      fun i hne => absurd rfl hne, by rintro evt ⟨⟩⟩
    intro r
    cases r <;> simp [holders, hitems]
  | dropSlot hpc hitems =>
    exact ⟨circulates_giveBackRx hitems rfl rfl rfl, rfl, rfl, fun i hne => absurd rfl hne,
      fun _ _ => rfl⟩
  | busy | response | fillNone | dropData | submitNone | setRequest | setCallDone | setConnected
  | setDisconnected => exact .of_same rfl rfl rfl rfl (by rintro evt ⟨⟩)

/-! ## The request task -/

theorem Settled.taskStep {s s' : Device cfg} {a : TaskAct} (hs : s.Settled)
    (h : s.taskStep a = some s') : Orderly s s' := by
  have hroute := hs.route
  cases taskStep_cases h with
  | take hpc hready =>
    refine ⟨.of_move (p := .ready) (q := .task) hready ?_, rfl, rfl,
      fun i hne => absurd rfl hne, hroute⟩
    intro r
    cases r <;> simp [holders, TaskPc.slot, hpc]
  | @giveBack idx rpc hpc hrpc =>
    have htask : holders s .task = [idx] := holders_task (by rw [hpc]; rfl)
    obtain ⟨q, hq, hitems⟩ :=
      hs.giveBack (p := .task) (by decide) (htask ▸ List.mem_singleton_self idx)
    obtain rfl : { s.rpc with freeSlots := q } = rpc := Option.some.inj (hq.symm.trans hrpc)
    refine ⟨.of_move (q := .free) htask ?_, rfl, rfl, fun i hne => absurd rfl hne,
      hroute⟩
    intro r
    cases r <;> simp [holders, TaskPc.slot, hitems]
  | @giveBackFull idx hpc hrpc =>
    -- The index in hand leaves room in `free_slots`.
    have htask : holders s .task = [idx] := holders_task (by rw [hpc]; rfl)
    obtain ⟨q, hq, -⟩ := hs.giveBack (p := .task) (by decide) (htask ▸ List.mem_singleton_self idx)
    rw [hrpc] at hq
    cases hq
  | wake hpc => exact .of_same rfl rfl rfl rfl hroute
  | handle hpc | respondOwnForeign hpc | respondOwn hpc | respondRes hpc | callBegin hpc
  | callClear hpc | callPublish hpc | callPublishFailed hpc | callWake hpc | callTimeout hpc
  | callEnd hpc | callReturn hpc =>
    refine .of_same (holders_congr rfl rfl rfl ?_) rfl rfl rfl hroute
    rw [hpc]
    rfl

/-- **Step lemma**: every step of the device is orderly. -/
theorem Settled.step {s s' : Device cfg} {a : Act} (hs : s.Settled) (h : s.step a = some s') :
    Orderly s s' := by
  cases a with
  | event e =>
    simp only [Device.step] at h
    split at h
    · cases h
      exact hs.event e
    · cases h
  | mqtt => exact hs.mqttStep h
  | task a => exact hs.taskStep h
  | requestReport | stop =>
    cases h
    exact .of_same rfl rfl rfl rfl hs.route

/-! ## Every run -/

/-- The device read as circulating tokens. -/
def economy (cfg : Config) : Lts (Place → List Nat) (Place × Place) :=
  Tokens.circulation (holders (init cfg))

theorem holders_init (cfg : Config) (p : Place) :
    holders (init cfg) p = if p = .free then List.range cfg.queueLen else [] := by
  cases p with
  | free => exact Rpc.init_freeSlots cfg
  | ready | rx | task => rfl

theorem total_init (cfg : Config) : Tokens.total (holders (init cfg)) = cfg.queueLen := by
  have hfree := holders_init cfg .free
  have hrest : ∀ p, p ≠ .free → holders (init cfg) p = [] := fun p hp => by
    rw [holders_init, if_neg hp]
  unfold Tokens.total Tokens.tally
  rw [Finset.sum_eq_single Place.free]
  · rw [hfree, if_pos rfl, List.length_range]
  · intro p _ hp
    rw [hrest p hp]
    rfl
  · intro hn
    exact absurd (Finset.mem_univ _) hn

theorem copies_init (cfg : Config) (i : Nat) :
    Tokens.copies (holders (init cfg)) i = if i < cfg.queueLen then 1 else 0 := by
  unfold Tokens.copies Tokens.tally
  rw [Finset.sum_eq_single Place.free]
  · rw [holders_init, if_pos rfl, List.count_range]
  · intro p _ hp
    rw [holders_init, if_neg hp]
    rfl
  · intro hn
    exact absurd (Finset.mem_univ _) hn

/-- Distributions reached from the initial one settle. -/
theorem settled_of_economy {s : Device cfg} (h : (economy cfg).Reach (holders s))
    (hroute : ∀ evt, s.mqttPc = .route evt → s.mqtt.rxSlot = none) : s.Settled where
  total := (Tokens.total_reach h).trans (total_init cfg)
  lt p x hx := by
    obtain ⟨q, hq⟩ := Tokens.mem_init_of_mem h hx
    rw [holders_init] at hq
    split at hq
    · exact List.mem_range.mp hq
    · cases hq
  route := hroute

/-- What holds of the slots in every reachable state. -/
structure Kept (s : Device cfg) : Prop where
  economy : (economy cfg).Reach (holders s)
  queueFull : s.queueFull = false
  pastEnd : s.pastEnd = false
  route : ∀ evt, s.mqttPc = .route evt → s.mqtt.rxSlot = none

theorem Kept.settled {s : Device cfg} (h : s.Kept) : s.Settled :=
  settled_of_economy h.economy h.route

theorem Kept.step {s s' : Device cfg} {a : Act} (h : s.Kept) (hst : s.step a = some s') :
    s'.Kept := by
  -- The totals come from the circulation so far, the step from the totals.
  obtain ⟨hcirc, hfull, hpast, -, hroute⟩ := h.settled.step hst
  refine ⟨?_, hfull.trans h.queueFull, hpast.trans h.pastEnd, hroute⟩
  rcases hcirc with heq | ⟨p, q, hmove⟩
  · rw [heq]
    exact h.economy
  · exact .step (a := (p, q)) h.economy trivial hmove

/-- **The device refines the circulation of tokens**, in every run. -/
theorem kept_reach {s : Device cfg} (h : (device cfg).Reach s) : s.Kept :=
  h.invariant ⟨.init, rfl, rfl, by rintro evt ⟨⟩⟩ fun _ hI _ hst => hI.step hst

/-- The places of an index, counted. -/
theorem copies_holders (s : Device cfg) (i : Nat) :
    Tokens.copies (holders s) i =
      s.rpc.freeSlots.items.count i + s.rpc.readySlots.items.count i +
        s.mqtt.rxSlot.toList.count i + s.taskPc.slot.toList.count i := by
  unfold Tokens.copies Tokens.tally
  show ∑ p ∈ ({.free, .ready, .rx, .task} : Finset Place), (holders s p).count i = _
  rw [Finset.sum_insert (by decide), Finset.sum_insert (by decide), Finset.sum_insert (by decide),
    Finset.sum_singleton]
  simp only [holders, Nat.add_assoc]

theorem Kept.copies {s : Device cfg} (h : s.Kept) (i : Nat) :
    s.rpc.freeSlots.items.count i + s.rpc.readySlots.items.count i +
      s.mqtt.rxSlot.toList.count i + s.taskPc.slot.toList.count i =
        if i < cfg.queueLen then 1 else 0 := by
  rw [← copies_holders, Tokens.copies_reach h.economy, copies_init]

/-- The MQTT task's slot is nowhere else. -/
theorem Kept.rx_exclusive {s : Device cfg} (h : s.Kept) {i : Nat} (hrx : s.mqtt.rxSlot = some i) :
    i ∉ s.rpc.freeSlots.items ∧ i ∉ s.rpc.readySlots.items ∧ s.taskPc.slot ≠ some i := by
  have hcount := h.copies i
  rw [hrx] at hcount
  have hone : (some i).toList.count i = 1 := by simp
  have hle : (if i < cfg.queueLen then 1 else 0) ≤ 1 := by split <;> omega
  refine ⟨?_, ?_, ?_⟩
  · intro hmem
    have := List.count_pos_iff.mpr hmem
    omega
  · intro hmem
    have := List.count_pos_iff.mpr hmem
    omega
  · intro htask
    rw [htask] at hcount
    omega

/-- The arrival of an event touches `free_slots` and the MQTT task's own state only. -/
theorem Settled.event_frame {s : Device cfg} (hs : s.Settled) (e : MqttEvent) :
    (∃ q, (s.event e).rpc = { s.rpc with freeSlots := q }) ∧ (s.event e).taskPc = s.taskPc ∧
      (s.event e).bits = s.bits := by
  cases e with
  | connected subscribed => cases subscribed <;> exact ⟨⟨_, rfl⟩, rfl, rfl⟩
  | disconnected | other => exact ⟨⟨_, rfl⟩, rfl, rfl⟩
  | data evt =>
    by_cases hoff : evt.currentDataOffset = 0
    · obtain ⟨q, hq, -⟩ := hs.giveBackRx
      rw [event_first s evt hoff, hq]
      exact ⟨⟨q, rfl⟩, rfl, rfl⟩
    · rw [event_later s evt hoff]
      exact ⟨⟨_, rfl⟩, rfl, rfl⟩

/-- The request task does not write slots. -/
theorem TaskStep.slots {s s' : Device cfg} {a : TaskAct} (h : TaskStep s a s') :
    s'.rpc.slots = s.rpc.slots := by
  cases h with
  | giveBack _ hrpc =>
    obtain ⟨q, -, rfl⟩ := Option.map_eq_some_iff.mp hrpc
    rfl
  | _ => rfl

/-- Only the MQTT task writes slots. -/
theorem Settled.slots_of_ne_mqtt {s s' : Device cfg} {a : Act} (hs : s.Settled)
    (h : s.step a = some s') (ha : a ≠ .mqtt) : s'.rpc.slots = s.rpc.slots := by
  cases a with
  | event e =>
    simp only [Device.step] at h
    split at h
    · cases h
      obtain ⟨⟨q, hq⟩, -⟩ := hs.event_frame e
      rw [hq]
    · cases h
  | mqtt => exact absurd rfl ha
  | task a => exact (taskStep_cases h).slots
  | requestReport | stop =>
    cases h
    rfl

/-- **Frame**: no step writes a slot that is queued or with the request task. -/
theorem Kept.frame {s s' : Device cfg} {a : Act} (hk : s.Kept) (hst : s.step a = some s') {i : Nat}
    (hi : i ∈ s.rpc.readySlots.items ∨ s.taskPc.slot = some i) :
    s'.rpc.slots i = s.rpc.slots i := by
  by_contra hne
  -- A slot that was written is with the MQTT task afterwards, and nowhere else.
  obtain ⟨hrx, hready, htask⟩ := (hk.settled.step hst).writes i hne
  obtain ⟨-, hready', htask'⟩ := (hk.step hst).rx_exclusive hrx
  rcases hi with hi | hi
  · exact hready' (hready ▸ hi)
  · exact htask' (htask ▸ hi)

/-- **Slot ownership.** In every reachable state each slot index is in exactly one of
`free_slots`, `ready_slots`, `rx_slot` and the hands of the request task, no queue has
ever refused an index, and the next step writes a slot only if it is a step of the MQTT
task on a slot that is neither queued nor with the request task, before or after it. -/
theorem slot_ownership (cfg : Config) {s : Device cfg} (h : (device cfg).Reach s) :
    (∀ i, s.rpc.freeSlots.items.count i + s.rpc.readySlots.items.count i +
      s.mqtt.rxSlot.toList.count i + s.taskPc.slot.toList.count i =
        if i < cfg.queueLen then 1 else 0) ∧
    s.queueFull = false ∧
    ∀ a s', s.step a = some s' → s'.queueFull = false ∧
      ∀ i, s'.rpc.slots i ≠ s.rpc.slots i →
        a = .mqtt ∧ s'.mqtt.rxSlot = some i ∧
        (i ∉ s.rpc.readySlots.items ∧ s.taskPc.slot ≠ some i) ∧
        (i ∉ s'.rpc.freeSlots.items ∧ i ∉ s'.rpc.readySlots.items ∧
          s'.taskPc.slot ≠ some i) := by
  have hk := kept_reach h
  refine ⟨hk.copies, hk.queueFull, fun a s' hst => ⟨(hk.step hst).queueFull, ?_⟩⟩
  intro i hne
  obtain ⟨hrx, hready, htask⟩ := (hk.settled.step hst).writes i hne
  obtain ⟨hfree', hready', htask'⟩ := (hk.step hst).rx_exclusive hrx
  refine ⟨?_, hrx, ⟨hready ▸ hready', htask ▸ htask'⟩, hfree', hready', htask'⟩
  by_contra ha
  exact hne (congrFun (hk.settled.slots_of_ne_mqtt hst ha) i)

/-- A request without parameters. -/
def ping : Message where
  topic := ascii "d/a1/down/req/ping"
  property := none
  payload := []

/-- The laws at work while a request is being filled in: its slot is not queued. -/
theorem slot_ownership_filling :
    ∃ s : Device .sample, (device .sample).Reach s ∧ s.mqtt.rxSlot = some 0 ∧
      s.rpc.readySlots.items.count 0 = 0 ∧ s.queueFull = false := by
  have hrun : ((device .sample).run [.event (.data (ping.fragment 0 0)), .mqtt]).map
      (fun s => decide (s.mqtt.rxSlot = some 0)) = some true := by decide +kernel
  obtain ⟨s, hs, hdec⟩ := Lts.exists_reach_of_run hrun
  have hrx := of_decide_eq_true hdec
  obtain ⟨hcount, hfull, -⟩ := slot_ownership .sample hs
  refine ⟨s, hs, hrx, ?_, hfull⟩
  have hzero := hcount 0
  rw [hrx] at hzero
  have hone : (some 0).toList.count 0 = 1 := rfl
  have hcap : (if 0 < Config.sample.queueLen then 1 else 0) = 1 := rfl
  omega

end Device

end SoulCloud
