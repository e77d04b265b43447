import SoulCloud.Client
import SoulCloud.Ownership

/-!
# What the application is told about the connection

The MQTT task turns its ordered history of connections and disconnections into two
event bits; the request task serves them in a fixed order, connected first, whenever
it comes back to its wait.

- `InStep`: what two such bits tell about a value, in terms of the bits alone. The
  rules `rise`, `fall` and `serve` are what the two tasks do to it.
- `Client.Following`: the client's bits, counting those about to be set, against what
  the application has been told or is about to be told in this round.
- `told_connected`: in runs in which the request task never wakes to both bits of a
  connection that has come back, the application knows the connection.
- `told_disconnected`: a disconnect and a reconnect while the task is busy.
-/

namespace SoulCloud

open Bytes

/-! ## Two bits for one value -/

/-- Pending bits `up` and `down` against the value they report and the last value told:
a single pending bit is right about the value, and with none pending the value has
been told. -/
structure InStep (up down value ever : Bool) (last : Option Bool) : Prop where
  onlyUp : up = true → down = false → value = true
  onlyDown : down = true → up = false → value = false
  quiet : up = false → down = false → ever = true → last = some value

namespace InStep

variable {up down value ever : Bool} {last : Option Bool}

theorem rise (down : Bool) (last : Option Bool) : InStep true down true true last :=
  ⟨fun _ _ => rfl, nofun, nofun⟩

theorem fall (up ever : Bool) (last : Option Bool) : InStep up true false ever last :=
  ⟨nofun, fun _ _ => rfl, nofun⟩

/-- Serving the visible bits, up before down. Bits still on their way stay pending; they
are right about the value. Both bits must not hide a value that came back up. -/
theorem serve {seenUp seenDown coming going : Bool}
    (h : InStep (seenUp || coming) (seenDown || going) value ever last)
    (hcoming : coming = true → value = true) (hgoing : going = true → value = false)
    (hboth : seenUp = true → seenDown = true → value = true → coming = true) :
    InStep coming going value ever
      (if seenDown then some false else if seenUp then some true else last) := by
  refine ⟨fun hup _ => hcoming hup, fun hdown _ => hgoing hdown, ?_⟩
  rintro rfl rfl hever
  rw [Bool.or_false, Bool.or_false] at h
  cases hd : seenDown with
  | true =>
    -- Down is told last: the value must not have come back.
    have hvalue : value = false := by
      cases hu : seenUp with
      | true => exact Bool.eq_false_iff.mpr fun hv => absurd (hboth hu hd hv) (by decide)
      | false => exact h.onlyDown hd hu
    rw [hvalue]
    rfl
  | false =>
    cases hu : seenUp with
    | true =>
      rw [h.onlyUp hu hd]
      rfl
    | false => exact h.quiet hu hd hever

end InStep

/-! ## The client's bits -/

/-- `BIT_CONNECTED` is about to be set. -/
def MqttPc.coming : MqttPc → Bool
  | .setConnected => true
  | _ => false

/-- `BIT_DISCONNECTED` is about to be set. -/
def MqttPc.going : MqttPc → Bool
  | .dropSlot was => was
  | .setDisconnected => true
  | _ => false

/-- The request task is in `on_connected`. -/
@[simp] def ClientPc.connecting : ClientPc → Bool
  | .birth | .confirm | .syncTime | .inTime | .checkUpdate | .inCheck | .tellUp => true
  | _ => false

/-- The request task waits or is about to. -/
def ClientPc.waiting : ClientPc → Bool
  | .deadline | .wait _ => true
  | _ => false

namespace Client

variable {cfg : Config} {opts : ClientOptions}

/-- The values passed to `connection_cb` so far. -/
def told (s : Client cfg) : List Bool :=
  s.calls.filterMap fun
    | .told connected => some connected
    | _ => none

/-- The values that the present round of the loop is still to pass to it. -/
def toTell (s : Client cfg) : List Bool :=
  (if s.pc.connecting then [true] else []) ++
    if s.pc = .tellDown ∨ s.pc.connecting = true ∧ s.woken.disconnected = true then [false]
    else []

/-- The last value told once the present round is over. -/
def lastTold (s : Client cfg) : Option Bool := (s.told ++ s.toTell).getLast?

/-- A connection has been made. -/
def everConnected (_ : Client cfg) (a : ClientAct) (_ : Client cfg) (ever : Bool) : Bool :=
  match a with
  | .event (.connected true) => true
  | _ => ever

/-- `stop` is not called. -/
def notStopped : ClientAct → Bool
  | .stop => false
  | _ => true

/-- The request task does not wake to both bits while the connection is up again and its
bit is set. -/
def wakesInOrder (s : Client cfg) : ClientAct → Bool
  | .wake _ => !(s.dev.bits.connected && s.dev.bits.disconnected && s.dev.mqtt.isConnected &&
      !s.dev.mqttPc.coming)
  | _ => true

/-- While the request task waits with neither bit
pending, the MQTT task is between events and there has been a connection, the last value
passed to `connection_cb` is `connected()`. -/
def KnowsConnection (s : Client cfg) (ever : Bool) : Prop :=
  s.pc.waiting = true → s.dev.bits.connected = false → s.dev.bits.disconnected = false →
    s.dev.mqttPc = .idle → ever = true → s.told.getLast? = some s.dev.mqtt.isConnected

/-- The bits follow the connection. -/
structure Following (s : Client cfg) (ever : Bool) : Prop where
  coming : s.dev.mqttPc.coming = true → s.dev.mqtt.isConnected = true
  going : s.dev.mqttPc.going = true → s.dev.mqtt.isConnected = false
  inStep : InStep (s.dev.bits.connected || s.dev.mqttPc.coming)
    (s.dev.bits.disconnected || s.dev.mqttPc.going) s.dev.mqtt.isConnected ever s.lastTold

variable {s s' : Client cfg} {ever : Bool} {a : ClientAct}

/-! ## Steps of the device -/

theorem Following.congr (h : Following s ever)
    (hup : s'.dev.bits.connected = s.dev.bits.connected)
    (hdown : s'.dev.bits.disconnected = s.dev.bits.disconnected)
    (hcoming : s'.dev.mqttPc.coming = s.dev.mqttPc.coming)
    (hgoing : s'.dev.mqttPc.going = s.dev.mqttPc.going)
    (hconn : s'.dev.mqtt.isConnected = s.dev.mqtt.isConnected)
    (hlast : s'.lastTold = s.lastTold) : Following s' ever := by
  obtain ⟨h₁, h₂, h₃⟩ := h
  rw [← hcoming, ← hconn] at h₁
  rw [← hgoing, ← hconn] at h₂
  rw [← hup, ← hdown, ← hcoming, ← hgoing, ← hconn, ← hlast] at h₃
  exact ⟨h₁, h₂, h₃⟩

/-- A step of the MQTT task moves a pending bit into the event group and starts none. -/
theorem mqttStep_bits {d d' : Device cfg} (h : d.MqttStep d') :
    d'.mqtt.isConnected = d.mqtt.isConnected ∧
    (d'.bits.connected || d'.mqttPc.coming) = (d.bits.connected || d.mqttPc.coming) ∧
    (d'.bits.disconnected || d'.mqttPc.going) = (d.bits.disconnected || d.mqttPc.going) ∧
    (d'.mqttPc.coming = true → d.mqttPc.coming = true) ∧
    (d'.mqttPc.going = true → d.mqttPc.going = true) := by
  cases h with
  | takeSlot hpc | busy hpc | response hpc | fill hpc | fillNone hpc | dropData hpc | submit hpc
  | submitNone hpc | setRequest hpc | setCallDone hpc =>
    rw [hpc]
    exact ⟨rfl, rfl, rfl, nofun, nofun⟩
  | ignored hpc _ _ hpc' =>
    rw [hpc]
    rcases hpc' with rfl | rfl <;> exact ⟨rfl, rfl, rfl, nofun, nofun⟩
  | deliver hpc | append hpc =>
    rw [hpc]
    dsimp only
    split <;> exact ⟨rfl, rfl, rfl, nofun, nofun⟩
  | setConnected hpc | setDisconnected hpc =>
    rw [hpc]
    exact ⟨rfl, by simp [MqttPc.coming], by simp [MqttPc.going], nofun, nofun⟩
  | @dropSlot was q hpc =>
    rw [hpc]
    cases was with
    | false => exact ⟨rfl, rfl, rfl, nofun, nofun⟩
    | true => exact ⟨rfl, rfl, rfl, nofun, fun _ => rfl⟩

theorem Following.mqtt {dev : Device cfg} (h : Following s ever) (hdev : s.dev.MqttStep dev) :
    Following { s with dev } ever := by
  obtain ⟨hconn, hup, hdown, hcoming, hgoing⟩ := mqttStep_bits hdev
  refine ⟨?_, ?_, ?_⟩
  · intro hc
    rw [hconn]
    exact h.coming (hcoming hc)
  · intro hg
    rw [hconn]
    exact h.going (hgoing hg)
  · show InStep (dev.bits.connected || dev.mqttPc.coming)
      (dev.bits.disconnected || dev.mqttPc.going) dev.mqtt.isConnected ever s.lastTold
    rw [hup, hdown, hconn]
    exact h.inStep

/-- Any event but the two that change the connection leaves it and its bits alone. -/
theorem event_bits {dev : Device cfg} (hset : dev.Settled) (hidle : dev.mqttPc = .idle)
    (e : MqttEvent) (hup : e ≠ .connected true)
    (hdown : e = .disconnected → dev.mqtt.isConnected = false) :
    (dev.event e).bits = dev.bits ∧ (dev.event e).mqttPc.coming = dev.mqttPc.coming ∧
      (dev.event e).mqttPc.going = dev.mqttPc.going ∧
      (dev.event e).mqtt.isConnected = dev.mqtt.isConnected := by
  refine ⟨(hset.event_frame e).2.2, ?_⟩
  rw [hidle]
  cases e with
  | connected subscribed =>
    cases subscribed with
    | false => exact ⟨congrArg _ hidle, congrArg _ hidle, rfl⟩
    | true => exact absurd rfl hup
  | disconnected =>
    have hconn := hdown rfl
    exact ⟨rfl, hconn, hconn.symm⟩
  | data evt =>
    by_cases hoff : evt.currentDataOffset = 0
    · obtain ⟨q, hq, -⟩ := hset.giveBackRx
      rw [dev.event_first evt hoff, hq]
      exact ⟨rfl, rfl, rfl⟩
    · rw [dev.event_later evt hoff]
      exact ⟨rfl, rfl, rfl⟩
  | other => exact ⟨congrArg _ hidle, congrArg _ hidle, rfl⟩

/-- An event starts a bit exactly when it changes the connection. -/
theorem Following.event {e : MqttEvent} (h : Following s ever) (hset : s.dev.Settled)
    (hidle : s.dev.mqttPc = .idle) :
    Following { s with dev := s.dev.event e } (everConnected s (.event e) s ever) := by
  cases e with
  | connected subscribed =>
    cases subscribed with
    | false => exact h
    | true =>
      refine ⟨fun _ => rfl, nofun, ?_⟩
      show InStep (s.dev.bits.connected || true) (s.dev.bits.disconnected || false) true true
        s.lastTold
      rw [Bool.or_true]
      exact .rise _ _
  | disconnected =>
    cases hconn : s.dev.mqtt.isConnected with
    | false =>
      obtain ⟨hbits, hcoming, hgoing, hsame⟩ :=
        event_bits hset hidle .disconnected nofun fun _ => hconn
      exact h.congr (congrArg _ hbits) (congrArg _ hbits) hcoming hgoing hsame rfl
    | true =>
      -- Up or not told yet: down is pending from here on and is right.
      refine ⟨nofun, fun _ => rfl, ?_⟩
      show InStep (s.dev.bits.connected || false)
        (s.dev.bits.disconnected || s.dev.mqtt.isConnected) false ever s.lastTold
      rw [hconn, Bool.or_true]
      exact .fall _ _ _
  | data evt =>
    obtain ⟨hbits, hcoming, hgoing, hsame⟩ := event_bits hset hidle (.data evt) nofun nofun
    exact h.congr (congrArg _ hbits) (congrArg _ hbits) hcoming hgoing hsame rfl
  | other => exact h

/-- Inside a call or a request the task leaves the connection and its bits alone. -/
theorem taskStep_bits {d d' : Device cfg} {a : Device.TaskAct} (h : d.TaskStep a d')
    (hwake : a ≠ .wake) :
    d'.mqtt = d.mqtt ∧ d'.mqttPc = d.mqttPc ∧ d'.bits.connected = d.bits.connected ∧
      d'.bits.disconnected = d.bits.disconnected := by
  cases h with
  | wake => exact absurd rfl hwake
  | _ => exact ⟨rfl, rfl, rfl, rfl⟩

/-! ## Steps of the loop -/

theorem toTell_afterWait {woken : EventBits} {dev : Device cfg} :
    toTell { s with dev, woken, pc := afterWait woken } =
      (if woken.connected then [true] else []) ++ if woken.disconnected then [false] else [] := by
  by_cases hup : woken.connected = true <;> by_cases hdown : woken.disconnected = true <;>
    simp [toTell, afterWait, hup, hdown]

theorem toTell_afterConnected {now : Nat} {calls : List ClientCall} :
    toTell { s with nextReport := now, calls, pc := afterConnected s.woken } =
      if s.woken.disconnected then [false] else [] := by
  by_cases hdown : s.woken.disconnected = true <;> simp [toTell, afterConnected, hdown]

theorem told_append (calls : List ClientCall) (c : ClientCall) :
    told { s with calls := calls ++ [c] } =
      told { s with calls } ++ (match c with | .told connected => [connected] | _ => []) := by
  unfold told
  rw [List.filterMap_append]
  cases c <;> rfl

/-- A waiting task has told all there was to tell. -/
theorem lastTold_of_waiting (hwait : s.pc.waiting = true) : s.lastTold = s.told.getLast? := by
  have htell : s.toTell = [] := by
    simp only [toTell]
    revert hwait
    cases s.pc <;> simp [ClientPc.waiting]
  unfold lastTold
  rw [htell, List.append_nil]

/-- The wait serves the bits it sees, connected first. -/
theorem lastTold_wake {ticks : Int} (hpc : s.pc = .wait ticks) :
    lastTold { s with
      dev := { s.dev with bits := s.dev.bits.clearMain }
      woken := s.dev.bits.main
      pc := afterWait s.dev.bits.main } =
      if s.dev.bits.disconnected then some false
      else if s.dev.bits.connected then some true else s.lastTold := by
  have htell : s.toTell = [] := by
    simp [toTell, hpc]
  unfold lastTold
  rw [toTell_afterWait, htell]
  show (s.told ++ ((if s.dev.bits.connected then [true] else []) ++
    if s.dev.bits.disconnected then [false] else [])).getLast? = _
  cases s.dev.bits.disconnected <;> cases s.dev.bits.connected <;> simp

theorem Following.wake {ticks : Int} {timedOut : Bool} (h : Following s ever)
    (hpc : s.pc = .wait ticks) (hg : wakesInOrder s (.wake timedOut) = true) :
    Following { s with
      dev := { s.dev with bits := s.dev.bits.clearMain }
      woken := s.dev.bits.main
      pc := afterWait s.dev.bits.main } ever := by
  refine ⟨h.coming, h.going, ?_⟩
  rw [lastTold_wake hpc]
  show InStep (false || s.dev.mqttPc.coming) (false || s.dev.mqttPc.going) _ _ _
  rw [Bool.false_or, Bool.false_or]
  refine h.inStep.serve h.coming h.going ?_
  -- Both bits of a connection that is up again is what the condition excludes.
  intro hup hdown hconn
  unfold wakesInOrder at hg
  rw [hup, hdown, hconn] at hg
  simpa using hg

/-- The connection, its bits and what is told in the end are left alone. -/
structure SameLink (s s' : Client cfg) : Prop where
  up : s'.dev.bits.connected = s.dev.bits.connected
  down : s'.dev.bits.disconnected = s.dev.bits.disconnected
  mqttPc : s'.dev.mqttPc = s.dev.mqttPc
  mqtt : s'.dev.mqtt = s.dev.mqtt
  last : s'.lastTold = s.lastTold

/-- The loop goes on without telling anything: the device is left alone and the round is
as far as it was. -/
theorem SameLink.of_loop (hdev : s'.dev = s.dev) (htold : s'.told = s.told)
    (htell : s'.toTell = s.toTell) : SameLink s s' := by
  refine ⟨?_, ?_, ?_, ?_, ?_⟩ <;> (try rw [hdev])
  unfold lastTold
  rw [htold, htell]

theorem SameLink.of_task {dev : Device cfg} {b : Device.TaskAct}
    (hdev : s.dev.taskStep b = some dev) (hwake : b ≠ .wake) (hs' : s'.dev = dev)
    (hlast : s'.lastTold = s.lastTold) : SameLink s s' := by
  obtain ⟨hmqtt, hpc, hup, hdown⟩ := taskStep_bits (Device.taskStep_cases hdev) hwake
  rw [← hs'] at hmqtt hpc hup hdown
  exact ⟨hup, hdown, hpc, hmqtt, hlast⟩

/-- The steps of the request task, but for its wait, tell what the round was to tell. -/
theorem sameLink_step (hopts : opts.connectionCb = true) (h : ClientStep opts s a s')
    (hevent : ∀ e, a ≠ .event e) (hmqtt : a ≠ .mqtt) (hstop : a ≠ .stop)
    (hwait : ∀ timedOut, a ≠ .wake timedOut) : SameLink s s' := by
  cases h with
  | event => exact absurd rfl (hevent _)
  | mqtt => exact absurd rfl hmqtt
  | stop => exact absurd rfl hstop
  | wake => exact absurd rfl (hwait _)
  | requestReport => exact ⟨rfl, rfl, rfl, rfl, rfl⟩
  | boot hpc | deadline hpc | drained hpc | rearm hpc | clockSet hpc =>
    refine .of_loop rfl rfl ?_
    simp [toTell, hpc]
  | due hpc | heartbeat hpc =>
    refine .of_loop rfl rfl ?_
    simp only [toTell, hpc]
    split <;> simp
  | birth hpc =>
    refine .of_loop rfl ?_ ?_
    · exact (told_append s.calls _).trans (List.append_nil _)
    · simp only [toTell, hpc]
      split <;> simp
  | report hpc =>
    refine .of_loop rfl ?_ ?_
    · exact (told_append s.calls _).trans (List.append_nil _)
    · simp [toTell, hpc]
  | confirm hpc =>
    unfold confirmRunningImage
    split
    · refine .of_loop rfl ?_ ?_
      · exact (told_append s.calls _).trans (List.append_nil _)
      · simp [toTell, hpc]
    · refine .of_loop rfl rfl ?_
      simp [toTell, hpc]
  | syncTime hpc hdev | checkUpdate hpc hdev | take hpc hdev =>
    refine .of_task hdev nofun rfl ?_
    simp [lastTold, toTell, told, hpc]
  | @task b dev dest hpc hwake hdev =>
    refine .of_task hdev hwake rfl ?_
    simp only [lastTold, toTell]
    rcases hpc with ⟨hpc, rfl⟩ | ⟨hpc, rfl⟩ | ⟨hpc, rfl⟩ <;> rw [hpc] <;> split <;> simp [told]
  | tellUp hpc =>
    -- What was about to be told has been told; down may follow in this round.
    have htell : s.toTell = [true] ++ if s.woken.disconnected then [false] else [] := by
      simp [toTell, hpc]
    rw [show s.tell opts true = { s with calls := s.calls ++ [.told true] } from if_pos hopts]
    refine ⟨rfl, rfl, rfl, rfl, ?_⟩
    unfold lastTold
    rw [htell, ← List.append_assoc]
    dsimp only
    rw [toTell_afterConnected]
    exact congrArg (fun l => List.getLast? (l ++ _)) (told_append s.calls _)
  | tellDown hpc =>
    have htell : s.toTell = [false] := by
      simp [toTell, hpc]
    rw [show s.tell opts false = { s with calls := s.calls ++ [.told false] } from if_pos hopts]
    refine ⟨rfl, rfl, rfl, rfl, ?_⟩
    have hnone : toTell { s with calls := s.calls ++ [.told false], pc := .ready } = [] := by
      simp [toTell]
    unfold lastTold
    rw [htell]
    dsimp only
    rw [hnone, List.append_nil]
    exact congrArg List.getLast? (told_append s.calls _)

theorem following_step (hopts : opts.connectionCb = true) (hset : s.dev.Settled)
    (h : ClientStep opts s a s') (hrun : notStopped a = true) (hg : wakesInOrder s a = true)
    (hf : Following s ever) : Following s' (everConnected s a s' ever) := by
  cases a with
  | event e =>
    cases h with
    | event hidle => exact hf.event hset hidle
  | mqtt =>
    cases h with
    | mqtt hdev => exact hf.mqtt (hset.mqttStep_cases hdev)
  | stop => cases hrun
  | wake timedOut =>
    cases h with
    | wake hpc => exact hf.wake hpc hg
  | _ =>
    obtain ⟨hup, hdown, hpc, hmqtt, hlast⟩ := sameLink_step hopts h nofun nofun nofun nofun
    exact hf.congr hup hdown (by rw [hpc]) (by rw [hpc]) (by rw [hmqtt]) hlast

end Client

/-- The client, and whether there has been a connection. -/
def watched (cfg : Config) (opts : ClientOptions) : Lts (Client cfg × Bool) ClientAct :=
  (client cfg opts).withHist false Client.everConnected

namespace Client

theorem following_reach {cfg : Config} {opts : ClientOptions} (hopts : opts.connectionCb = true)
    {p : Client cfg × Bool}
    (h : (watched cfg opts).ReachBy
      (fun p a => notStopped a = true ∧ wakesInOrder p.1 a = true) p) : Following p.1 p.2 := by
  refine h.invariant (I := fun p => Following p.1 p.2) ?_ ?_
  · exact ⟨nofun, nofun, nofun, nofun, nofun⟩
  · rintro p a p' hp hI ⟨hrun, hg⟩ hst
    obtain ⟨hst, hever⟩ := Lts.withHist_step hst
    have hset := (Device.kept_reach (reach_dev (Lts.reach_fst hp))).settled
    rw [hever]
    exact following_step hopts hset (step_cases hst) hrun hg hI

/-- **The application knows the connection.** In every run without `stop` in which the
request task never wakes to both bits of a connection that is up again, the last value
passed to `connection_cb` is `connected()` whenever the task waits with neither bit
pending, the MQTT task is between events and there has been a connection. -/
theorem told_connected (cfg : Config) (opts : ClientOptions) (hopts : opts.connectionCb = true)
    {p : Client cfg × Bool}
    (h : (watched cfg opts).ReachBy
      (fun p a => notStopped a = true ∧ wakesInOrder p.1 a = true) p) :
    KnowsConnection p.1 p.2 := by
  intro hwait hup hdown hidle hever
  obtain ⟨-, -, hstep⟩ := following_reach hopts h
  rw [hup, hdown, hidle] at hstep
  rw [← lastTold_of_waiting hwait]
  exact hstep.quiet rfl rfl hever

/-- The first connection, up to the next wait. -/
def firstConnectionRun : List ClientAct :=
  [.boot 0, .deadline 0, .event (.connected true), .mqtt, .wake false,
    .birth ⟨true, .ok, 1⟩ .sample [], .confirm true, .syncTime true, .checkUpdate,
    .task .callClear, .task (.callPublish ⟨true, .ok, 2⟩), .task .callTimeout, .task .callEnd,
    .task .callReturn, .tellUp 1, .drained, .due 1]

/-- The application is told of the first connection. -/
theorem told_connected_first :
    ∃ p, (watched .sample .sample).ReachBy
        (fun p a => notStopped a = true ∧ wakesInOrder p.1 a = true) p ∧
      p.1.dev.mqtt.isConnected = true ∧ p.1.told.getLast? = some true := by
  have hrun : ((watched .sample .sample).runBy
      (fun p a => notStopped a = true ∧ wakesInOrder p.1 a = true)
      (watched .sample .sample).init firstConnectionRun).map
      (fun p => p.1.pc.waiting && !p.1.dev.bits.connected && !p.1.dev.bits.disconnected &&
        p.1.dev.mqttPc.isIdle && p.2 && p.1.dev.mqtt.isConnected) = some true := by
    decide +kernel
  obtain ⟨p, hp, hcheck⟩ := Lts.exists_reachBy_of_runBy hrun
  simp only [Bool.and_eq_true, Bool.not_eq_true'] at hcheck
  obtain ⟨⟨⟨⟨⟨hwait, hup⟩, hdown⟩, hidle⟩, hever⟩, hconn⟩ := hcheck
  have hlast := told_connected .sample .sample rfl hp hwait hup hdown (MqttPc.eq_idle hidle) hever
  exact ⟨p, hp, hconn, by rw [hlast, hconn]⟩

/-- The connection is lost and comes back while the request task is on its way to the
wait: the application ends with `connection_cb(false)`. -/
theorem told_disconnected :
    ∃ p, (watched .sample .sample).run (firstConnectionRun ++
        [.event .disconnected, .mqtt, .mqtt, .event (.connected true), .mqtt, .deadline 1,
          .wake false, .birth ⟨true, .ok, 3⟩ .sample [], .tellUp 2, .tellDown, .drained,
          .due 2]) = some p ∧ ¬ KnowsConnection p.1 p.2 := by
  have hrun : ((watched .sample .sample).run (firstConnectionRun ++
      [.event .disconnected, .mqtt, .mqtt, .event (.connected true), .mqtt, .deadline 1,
        .wake false, .birth ⟨true, .ok, 3⟩ .sample [], .tellUp 2, .tellDown, .drained,
        .due 2])).map
      (fun p => p.1.pc.waiting && !p.1.dev.bits.connected && !p.1.dev.bits.disconnected &&
        p.1.dev.mqttPc.isIdle && p.2 && p.1.dev.mqtt.isConnected &&
        decide (p.1.told.getLast? = some false)) = some true := by
    decide +kernel
  obtain ⟨p, hp, hcheck⟩ := Option.map_eq_some_iff.mp hrun
  refine ⟨p, hp, ?_⟩
  intro hknows
  simp only [Bool.and_eq_true, Bool.not_eq_true', decide_eq_true_eq] at hcheck
  obtain ⟨⟨⟨⟨⟨⟨hwait, hup⟩, hdown⟩, hidle⟩, hever⟩, hconn⟩, hfalse⟩ := hcheck
  have hlast := hknows hwait hup hdown (MqttPc.eq_idle hidle) hever
  rw [hfalse, hconn] at hlast
  cases hlast

end Client

end SoulCloud
