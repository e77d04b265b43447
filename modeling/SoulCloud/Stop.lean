import SoulCloud.Connection

/-!
# Stopping the client (`sc_mqtt::stop`)

`stop` stores `is_connected` and then calls `esp_mqtt_client_stop`, which comes back when
the esp-mqtt task is gone. Until then events still arrive, and a loss of the connection
is only told where the event finds the flag set.

- `EspMqtt`, `switched cfg opts`: the client with `start` and `stop` in two steps. No event
  comes while esp-mqtt is stopped, and stopping brings none.
- `StopTold`: while stopped, the flag is false and the application has been told so.
- `stopsClean`: what the events inside of `stop` leave when it returns.
- `Switching`: the invariant; inside of `stop` the flag follows the events since its store.
- `stop_told`: in runs in which no connection comes up inside of `stop` and stays, and none that
  only the store of `stop` ends is the last thing the application is told, this holds.
- `stop_untold`, `stop_overtaken`: a stop while connected; a connection that comes up
  inside of `stop`.
-/

namespace SoulCloud

/-- The esp-mqtt client. -/
inductive EspMqtt where
  /-- There is no esp-mqtt task. -/
  | stopped
  | started
  /-- `sc_mqtt::stop` has stored `is_connected` and is in `esp_mqtt_client_stop`. Of the events
  since the store, `cameUp` notes that the last of a connection brought it up, and `takenBack`
  that the store ended a connection and no event has ended one since. -/
  | stopping (cameUp takenBack : Bool)
  deriving DecidableEq, Repr

/-- The client under `start` and `stop`. -/
structure Switched (cfg : Config) where
  client : Client cfg
  esp : EspMqtt

/-- A step of the client, or of the task that starts and stops it. -/
inductive SwitchAct where
  /-- `esp_mqtt_client_start`. -/
  | start
  /-- The store in `sc_mqtt::stop`. -/
  | stop
  /-- `esp_mqtt_client_stop` returns. -/
  | stopReturn
  | client (a : ClientAct)

namespace Switched

variable {cfg : Config} {opts : ClientOptions}

/-- Before the first `start`. -/
def init (cfg : Config) (opts : ClientOptions) : Switched cfg where
  client := Client.init cfg opts
  esp := .stopped

/-- `is_connected` as the other tasks see it. -/
def isConnected (s : Switched cfg) : Bool := s.client.dev.mqtt.isConnected

/-- What `stopping` notes of an event. -/
def afterEvent (s : Switched cfg) (e : MqttEvent) : EspMqtt :=
  match s.esp with
  | .stopping cameUp takenBack =>
    match e with
    | .connected true => .stopping true takenBack
    | .disconnected => .stopping false (takenBack && !cameUp)
    | _ => .stopping cameUp takenBack
  | esp => esp

/-- The step function. -/
def step (opts : ClientOptions) (s : Switched cfg) : SwitchAct → Option (Switched cfg)
  | .start =>
    match s.esp with
    | .stopped => some { s with esp := .started }
    -- Already started: `esp_mqtt_client_start` refuses.
    | .started => some s
    | .stopping _ _ => none
  | .stop =>
    match s.esp with
    -- Nothing to stop: `esp_mqtt_client_stop` refuses at once.
    | .stopped => (s.client.step opts .stop).map fun client => { s with client }
    | .started =>
      (s.client.step opts .stop).map fun client => ⟨client, .stopping false s.isConnected⟩
    | .stopping _ _ => none
  | .stopReturn =>
    match s.esp, s.client.dev.mqttPc with
    -- The task ends between two events.
    | .stopping _ _, .idle => some { s with esp := .stopped }
    | _, _ => none
  | .client .stop => none
  | .client (.event e) =>
    match s.esp with
    | .stopped => none
    | _ => (s.client.step opts (.event e)).map fun client => ⟨client, s.afterEvent e⟩
  | .client a => (s.client.step opts a).map fun client => { s with client }

/-- What a step does: where each is possible and what it leaves. -/
inductive SwitchStep (opts : ClientOptions) (s : Switched cfg) :
    SwitchAct → Switched cfg → Prop where
  | start (hesp : ∀ cameUp takenBack, s.esp ≠ .stopping cameUp takenBack) :
      SwitchStep opts s .start { s with esp := .started }
  | stop {client : Client cfg} {esp : EspMqtt}
      (hesp : s.esp = .stopped ∧ esp = .stopped ∨
        s.esp = .started ∧ esp = .stopping false s.isConnected)
      (hclient : s.client.step opts .stop = some client) : SwitchStep opts s .stop ⟨client, esp⟩
  | stopReturn {cameUp takenBack : Bool} (hesp : s.esp = .stopping cameUp takenBack)
      (hidle : s.client.dev.mqttPc = .idle) :
      SwitchStep opts s .stopReturn { s with esp := .stopped }
  | event {client : Client cfg} {e : MqttEvent} (hesp : s.esp ≠ .stopped)
      (hclient : s.client.step opts (.event e) = some client) :
      SwitchStep opts s (.client (.event e)) ⟨client, s.afterEvent e⟩
  | client {client : Client cfg} {a : ClientAct} (hstop : a ≠ .stop) (hevent : ∀ e, a ≠ .event e)
      (hclient : s.client.step opts a = some client) :
      SwitchStep opts s (.client a) { s with client }

theorem step_cases {s s' : Switched cfg} {a : SwitchAct} (h : s.step opts a = some s') :
    SwitchStep opts s a s' := by
  unfold step at h
  split at h
  · split at h
    · rename_i hesp
      cases h
      exact .start (by rw [hesp]; nofun)
    · rename_i hesp
      cases h
      have hstep : SwitchStep opts s .start { s with esp := .started } :=
        .start (by rw [hesp]; nofun)
      rwa [← hesp] at hstep
    · cases h
  · split at h
    · rename_i hesp
      obtain ⟨client, hclient, rfl⟩ := Option.map_eq_some_iff.mp h
      exact .stop (.inl ⟨hesp, hesp⟩) hclient
    · rename_i hesp
      obtain ⟨client, hclient, rfl⟩ := Option.map_eq_some_iff.mp h
      exact .stop (.inr ⟨hesp, rfl⟩) hclient
    · cases h
  · split at h
    · rename_i hesp hidle
      cases h
      exact .stopReturn hesp hidle
    · cases h
  · cases h
  · split at h
    · cases h
    · rename_i hesp
      obtain ⟨client, hclient, rfl⟩ := Option.map_eq_some_iff.mp h
      exact .event hesp hclient
  · rename_i hstop hevent
    obtain ⟨client, hclient, rfl⟩ := Option.map_eq_some_iff.mp h
    refine .client ?_ ?_ hclient
    · rintro rfl
      exact hstop rfl
    · rintro e rfl
      exact hevent e rfl

/-- While esp-mqtt is stopped, `is_connected` is false, and when the request task waits with
neither bit pending, the last value passed to `connection_cb` is not true. -/
def StopTold (s : Switched cfg) : Prop :=
  s.esp = .stopped → s.isConnected = false ∧
    (s.client.pc.waiting = true → s.client.dev.bits.connected = false →
      s.client.dev.bits.disconnected = false → s.client.told.getLast? ≠ some true)

/-- The application is left with a connection: it has been told of one, or a bit that is pending
is to tell it, and no bit of its end is pending. -/
def leftUp (s : Client cfg) : Bool :=
  !s.dev.bits.disconnected && (s.dev.bits.connected || decide (s.lastTold = some true))

/-- Between the store of `stop` and its return no connection comes up and stays, and if there is a
callback, the application is not left with a connection that only the store has ended. -/
def stopsClean (opts : ClientOptions) (s : Switched cfg) : SwitchAct → Bool
  | .stopReturn =>
    match s.esp with
    | .stopping cameUp takenBack =>
      !cameUp && !(opts.connectionCb && takenBack && leftUp s.client)
    | _ => true
  | _ => true

end Switched

/-- The client under `start` and `stop` as a transition system. -/
def switched (cfg : Config) (opts : ClientOptions) : Lts (Switched cfg) SwitchAct :=
  ⟨Switched.init cfg opts, Switched.step opts⟩

namespace Client

variable {cfg : Config} {opts : ClientOptions} {s s' : Client cfg} {a : ClientAct}

/-- Without a connection, its loss is pending or the application does not think that it is
connected. -/
structure DownTold (s : Client cfg) : Prop where
  coming : s.dev.mqttPc.coming = true → s.dev.mqtt.isConnected = true
  told : s.dev.mqtt.isConnected = false →
    (s.dev.bits.disconnected || s.dev.mqttPc.going) = true ∨
      s.dev.bits.connected = false ∧ s.lastTold ≠ some true

/-- The end of a connection by its event starts the bit, whatever was told before. -/
theorem downTold_lost (hconn : s.dev.mqtt.isConnected = true) :
    DownTold { s with dev := s.dev.event .disconnected } := by
  refine ⟨nofun, fun _ => .inl ?_⟩
  show (s.dev.bits.disconnected || s.dev.mqtt.isConnected) = true
  rw [hconn, Bool.or_true]

theorem DownTold.congr (h : DownTold s) (hup : s'.dev.bits.connected = s.dev.bits.connected)
    (hdown : s'.dev.bits.disconnected = s.dev.bits.disconnected)
    (hcoming : s'.dev.mqttPc.coming = s.dev.mqttPc.coming)
    (hgoing : s'.dev.mqttPc.going = s.dev.mqttPc.going)
    (hconn : s'.dev.mqtt.isConnected = s.dev.mqtt.isConnected)
    (hlast : s'.lastTold = s.lastTold) : DownTold s' := by
  obtain ⟨h₁, h₂⟩ := h
  rw [← hcoming, ← hconn] at h₁
  rw [← hup, ← hdown, ← hgoing, ← hconn, ← hlast] at h₂
  exact ⟨h₁, h₂⟩

theorem DownTold.event {e : MqttEvent} (h : DownTold s) (hset : s.dev.Settled)
    (hidle : s.dev.mqttPc = .idle) : DownTold { s with dev := s.dev.event e } := by
  cases e with
  | connected subscribed =>
    cases subscribed with
    | false => exact h
    | true => exact ⟨fun _ => rfl, nofun⟩
  | disconnected =>
    cases hconn : s.dev.mqtt.isConnected with
    | false =>
      obtain ⟨hbits, hcoming, hgoing, hsame⟩ :=
        event_bits hset hidle .disconnected nofun fun _ => hconn
      exact h.congr (congrArg _ hbits) (congrArg _ hbits) hcoming hgoing hsame rfl
    | true => exact downTold_lost hconn
  | data evt =>
    obtain ⟨hbits, hcoming, hgoing, hsame⟩ := event_bits hset hidle (.data evt) nofun nofun
    exact h.congr (congrArg _ hbits) (congrArg _ hbits) hcoming hgoing hsame rfl
  | other => exact h

theorem DownTold.mqtt {dev : Device cfg} (h : DownTold s) (hdev : s.dev.MqttStep dev) :
    DownTold { s with dev } := by
  obtain ⟨hconn, hup, hdown, hcoming, -⟩ := mqttStep_bits hdev
  constructor
  · intro hc
    rw [hconn]
    exact h.coming (hcoming hc)
  · intro hoff
    rw [hconn] at hoff
    rw [hdown]
    refine (h.told hoff).imp_right fun ⟨hbit, hlast⟩ => ⟨?_, hlast⟩
    -- A bit about to be set belongs to a connection that is up.
    have hcoming : s.dev.mqttPc.coming = false := by
      by_contra hc
      rw [Bool.not_eq_false] at hc
      rw [h.coming hc] at hoff
      cases hoff
    rw [hbit, hcoming] at hup
    exact (Bool.or_eq_false_iff.mp hup).1

theorem DownTold.wake {ticks : Int} (h : DownTold s) (hpc : s.pc = .wait ticks) :
    DownTold { s with
      dev := { s.dev with bits := s.dev.bits.clearMain }
      woken := s.dev.bits.main
      pc := afterWait s.dev.bits.main } := by
  refine ⟨h.coming, fun hoff => ?_⟩
  rw [lastTold_wake hpc]
  cases hdown : s.dev.bits.disconnected with
  | true =>
    -- Down is told last.
    exact .inr ⟨rfl, nofun⟩
  | false =>
    rcases h.told hoff with hpending | ⟨hbit, hlast⟩
    · rw [hdown] at hpending
      exact .inl hpending
    · rw [hbit]
      exact .inr ⟨rfl, hlast⟩

/-- What the application thinks stays right in every step but a store of `stop`. -/
theorem downTold_step (hopts : opts.connectionCb = true) (hset : s.dev.Settled)
    (h : ClientStep opts s a s') (hstop : a ≠ .stop) (hs : DownTold s) : DownTold s' := by
  cases a with
  | event e =>
    cases h with
    | event hidle => exact hs.event hset hidle
  | mqtt =>
    cases h with
    | mqtt hdev => exact hs.mqtt (hset.mqttStep_cases hdev)
  | stop => exact absurd rfl hstop
  | wake timedOut =>
    cases h with
    | wake hpc => exact hs.wake hpc
  | _ =>
    obtain ⟨hup, hdown, hpc, hmqtt, hlast⟩ := sameLink_step hopts h nofun nofun nofun nofun
    exact hs.congr hup hdown (by rw [hpc]) (by rw [hpc]) (by rw [hmqtt]) hlast

/-- A store that ends no connection changes nothing. -/
theorem DownTold.stop (h : DownTold s) (hstep : ClientStep opts s .stop s')
    (hconn : s.dev.mqtt.isConnected = false) : DownTold s' := by
  cases hstep with
  | stop => exact h.congr rfl rfl rfl rfl hconn.symm rfl

/-- Without a callback nothing is told. -/
theorem told_nil_step (hopts : opts.connectionCb = false) (h : ClientStep opts s a s')
    (hs : s.told = []) : s'.told = [] := by
  cases h with
  | birth | report => exact (told_append s.calls _).trans ((List.append_nil _).trans hs)
  | confirm =>
    unfold confirmRunningImage
    split_ifs
    · exact (told_append s.calls _).trans ((List.append_nil _).trans hs)
    · exact hs
  | tellUp | tellDown =>
    unfold tell
    rw [hopts]
    exact hs
  | _ => exact hs

end Client

namespace Switched

variable {cfg : Config} {opts : ClientOptions} {s s' : Switched cfg} {a : SwitchAct}

/-- A step of the switched client is a step of the client or leaves it alone. -/
theorem SwitchStep.client_step (h : SwitchStep opts s a s') :
    s'.client = s.client ∨ ∃ b, s.client.step opts b = some s'.client := by
  cases h with
  | start | stopReturn => exact .inl rfl
  | stop _ hclient | event _ hclient | client _ _ hclient => exact .inr ⟨_, hclient⟩

/-- There is no connection, and no event is being handled. -/
structure Off (c : Client cfg) : Prop where
  idle : c.dev.mqttPc = .idle
  isConnected : c.dev.mqtt.isConnected = false

/-- A connection can only come up by an event. -/
theorem Off.step {c c' : Client cfg} {a : ClientAct} (h : Client.ClientStep opts c a c')
    (hevent : ∀ e, a ≠ .event e) (hoff : Off c) : Off c' := by
  have htask : ∀ {b : Device.TaskAct} {dev : Device cfg}, c.dev.taskStep b = some dev →
      b ≠ .wake → dev.mqttPc = .idle ∧ dev.mqtt.isConnected = false := by
    intro b dev hdev hwake
    obtain ⟨hmqtt, hpc, -⟩ := Client.taskStep_bits (Device.taskStep_cases hdev) hwake
    rw [hmqtt, hpc]
    exact ⟨hoff.idle, hoff.isConnected⟩
  cases h with
  | event => exact absurd rfl (hevent _)
  | mqtt hdev =>
    rw [Device.mqttStep, hoff.idle] at hdev
    cases hdev
  | stop => exact ⟨hoff.idle, rfl⟩
  | confirm | tellUp | tellDown =>
    dsimp only [Client.confirmRunningImage, Client.tell]
    split_ifs <;> exact ⟨hoff.idle, hoff.isConnected⟩
  | syncTime _ hdev | checkUpdate _ hdev | take _ hdev =>
    obtain ⟨hidle, hconn⟩ := htask hdev nofun
    exact ⟨hidle, hconn⟩
  | task _ hwake hdev =>
    obtain ⟨hidle, hconn⟩ := htask hdev hwake
    exact ⟨hidle, hconn⟩
  | _ => exact ⟨hoff.idle, hoff.isConnected⟩

/-- Only events and the store of `stop` change the flag. -/
theorem isConnected_step {c c' : Client cfg} {a : ClientAct} (hset : c.dev.Settled)
    (h : Client.ClientStep opts c a c') (hevent : ∀ e, a ≠ .event e)
    (hstop : a ≠ .stop) :
    c'.dev.mqtt.isConnected = c.dev.mqtt.isConnected := by
  cases h with
  | event => exact absurd rfl (hevent _)
  | stop => exact absurd rfl hstop
  | mqtt hdev => exact (Client.mqttStep_bits (hset.mqttStep_cases hdev)).1
  | confirm | tellUp | tellDown =>
    dsimp only [Client.confirmRunningImage, Client.tell]
    split_ifs <;> rfl
  | syncTime _ hdev | checkUpdate _ hdev | take _ hdev =>
    exact congrArg _ (Client.taskStep_bits (Device.taskStep_cases hdev) nofun).1
  | task _ hwake hdev =>
    exact congrArg _ (Client.taskStep_bits (Device.taskStep_cases hdev) hwake).1
  | _ => rfl

/-- An event brings a connection up or down, or leaves it. -/
theorem isConnected_event {d : Device cfg} (hset : d.Settled) (hidle : d.mqttPc = .idle)
    (e : MqttEvent) :
    (d.event e).mqtt.isConnected =
      match e with
      | .connected true => true
      | .disconnected => false
      | _ => d.mqtt.isConnected := by
  cases e with
  | connected subscribed => cases subscribed <;> rfl
  | disconnected => rfl
  | data evt => exact (Client.event_bits hset hidle (.data evt) nofun nofun).2.2.2
  | other => rfl

/-- While esp-mqtt is stopped there is no connection. While it is being stopped the flag follows
the events since the store, and unless the store has taken a connection back, the application
is not left with one that is gone. -/
structure Switching (opts : ClientOptions) (s : Switched cfg) : Prop where
  off : s.esp = .stopped → Off s.client
  follows : ∀ cameUp takenBack, s.esp = .stopping cameUp takenBack → s.isConnected = cameUp
  told : opts.connectionCb = true → (∀ cameUp, s.esp ≠ .stopping cameUp true) →
    s.client.DownTold
  silent : opts.connectionCb = false → s.client.told = []

theorem follows_event {e : MqttEvent} {client : Client cfg} (hset : s.client.dev.Settled)
    (hclient : Client.ClientStep opts s.client (.event e) client)
    (hs : ∀ cameUp takenBack, s.esp = .stopping cameUp takenBack → s.isConnected = cameUp)
    {cameUp takenBack : Bool} (hesp : s.afterEvent e = .stopping cameUp takenBack) :
    client.dev.mqtt.isConnected = cameUp := by
  cases hclient with
  | event hidle =>
    rw [isConnected_event hset hidle]
    unfold afterEvent at hesp
    split at hesp
    · rename_i before _ hprior
      have hsame := hs _ _ hprior
      cases e with
      | connected subscribed =>
        cases subscribed with
        | true =>
          cases hesp
          rfl
        | false =>
          cases hesp
          exact hsame
      | disconnected =>
        cases hesp
        rfl
      | data | other =>
        cases hesp
        exact hsame
    · rename_i hnot
      exact absurd hesp (hnot _ _)

/-- Where a connection that the store took back is forgotten, an event has ended another one. -/
theorem afterEvent_cases {e : MqttEvent} (h : ∀ cameUp, s.afterEvent e ≠ .stopping cameUp true) :
    (∀ cameUp, s.esp ≠ .stopping cameUp true) ∨
      e = .disconnected ∧ s.esp = .stopping true true := by
  by_contra hno
  obtain ⟨hsome, hlost⟩ := not_or.mp hno
  obtain ⟨cameUp, hesp⟩ := not_forall_not.mp hsome
  simp only [afterEvent, hesp] at h
  cases e with
  | connected subscribed =>
    cases subscribed with
    | true => exact h true rfl
    | false => exact h cameUp rfl
  | disconnected =>
    cases cameUp with
    | true => exact hlost ⟨rfl, hesp⟩
    | false => exact h false rfl
  | data | other => exact h cameUp rfl

theorem switching_step (hset : s.client.dev.Settled) (h : SwitchStep opts s a s')
    (hg : stopsClean opts s a = true) (hs : Switching opts s) : Switching opts s' := by
  have hsilent : opts.connectionCb = false → s'.client.told = [] := by
    intro hopts
    rcases h.client_step with heq | ⟨b, hb⟩
    · rw [heq]
      exact hs.silent hopts
    · exact Client.told_nil_step hopts (Client.step_cases hb) (hs.silent hopts)
  cases h with
  | start hesp => exact ⟨nofun, nofun, fun hopts _ => hs.told hopts fun _ => hesp _ true, hsilent⟩
  | stop hesp hclient =>
    have hclient := Client.step_cases hclient
    refine ⟨fun hstopped => ?_, fun cameUp takenBack hstopping => ?_, fun hopts hne => ?_, hsilent⟩
    · rcases hesp with ⟨hesp, -⟩ | ⟨-, rfl⟩
      · exact (hs.off hesp).step hclient nofun
      · cases hstopped
    · -- This is what the store is for.
      rcases hesp with ⟨-, rfl⟩ | ⟨-, rfl⟩
      · cases hstopping
      · cases hstopping
        cases hclient with
        | stop => rfl
    · rcases hesp with ⟨hesp, -⟩ | ⟨hesp, rfl⟩
      · exact (hs.told hopts (by rw [hesp]; nofun)).stop hclient (hs.off hesp).isConnected
      · -- The store has ended no connection.
        have hconn : s.isConnected = false := by
          by_contra hup
          rw [Bool.not_eq_false] at hup
          rw [hup] at hne
          exact hne false rfl
        exact (hs.told hopts (by rw [hesp]; nofun)).stop hclient hconn
  | @stopReturn cameUp takenBack hesp hidle =>
    simp only [stopsClean, hesp, Bool.and_eq_true, Bool.not_eq_true'] at hg
    obtain ⟨hdown, hleft⟩ := hg
    have hconn : s.client.dev.mqtt.isConnected = false := (hs.follows _ _ hesp).trans hdown
    refine ⟨fun _ => ⟨hidle, hconn⟩, nofun, fun hopts _ => ?_, hsilent⟩
    cases takenBack with
    | false => exact hs.told hopts (by rw [hesp]; nofun)
    | true =>
      -- The bits that are pending tell of the end, or there is nothing to tell.
      rw [hopts, Bool.and_true, Bool.true_and] at hleft
      refine ⟨fun hcoming => ?_, fun _ => ?_⟩
      · rw [hidle] at hcoming
        cases hcoming
      · simp only [leftUp, Bool.and_eq_false_iff, Bool.not_eq_false', Bool.or_eq_false_iff,
          decide_eq_false_iff_not] at hleft
        rcases hleft with hbit | hnone
        · exact .inl (Bool.or_eq_true_iff.mpr (.inl hbit))
        · exact .inr hnone
  | @event client e hesp hclient =>
    have hclient := Client.step_cases hclient
    refine ⟨fun hstopped => ?_, fun cameUp takenBack hstopping => ?_, fun hopts hne => ?_, hsilent⟩
    · -- An event comes only while esp-mqtt runs.
      exfalso
      revert hstopped
      show s.afterEvent e = .stopped → False
      unfold afterEvent
      split
      · cases e with
        | connected subscribed => cases subscribed <;> nofun
        | _ => nofun
      · exact hesp
    · exact follows_event hset hclient hs.follows hstopping
    · rcases afterEvent_cases hne with hsame | ⟨rfl, hstopping⟩
      · exact Client.downTold_step hopts hset hclient nofun (hs.told hopts hsame)
      · have hconn := hs.follows _ _ hstopping
        cases hclient with
        | event => exact Client.downTold_lost hconn
  | client hstop hevent hclient =>
    have hclient := Client.step_cases hclient
    refine ⟨fun hesp => ?_, fun cameUp takenBack hesp => ?_, fun hopts hne => ?_, hsilent⟩
    · exact (hs.off hesp).step hclient hevent
    · exact (isConnected_step hset hclient hevent hstop).trans (hs.follows _ _ hesp)
    · exact Client.downTold_step hopts hset hclient hstop (hs.told hopts hne)

/-- A run of the switched client is a run of the client. -/
theorem reach_client {g : Switched cfg → SwitchAct → Prop}
    (h : (switched cfg opts).ReachBy g s) : (SoulCloud.client cfg opts).Reach s.client := by
  refine h.map (T := SoulCloud.client cfg opts) rfl ?_
  intro s a s' _ _ _ hst
  rcases (step_cases hst).client_step with heq | ⟨b, hb⟩
  · exact .inl heq
  · exact .inr ⟨b, trivial, hb⟩

theorem switching_reach
    (h : (switched cfg opts).ReachBy (fun s a => stopsClean opts s a = true) s) :
    Switching opts s := by
  refine h.invariant (I := Switching opts) ?_ ?_
  · exact ⟨fun _ => ⟨rfl, rfl⟩, nofun, fun _ _ => ⟨nofun, fun _ => .inr ⟨rfl, nofun⟩⟩,
      fun _ => rfl⟩
  · intro s a s' hs hI hg hst
    have hset := (Device.kept_reach (Client.reach_dev (reach_client hs))).settled
    exact switching_step hset (step_cases hst) hg hI

/-- **A clean stop is told.** In every run in which no connection comes up between the store of
`stop` and its return and stays, and, if there is a callback, the application is not left with a
connection that only the store has ended: while esp-mqtt is stopped, `connected()` is false, and
once the request task has served all bits the application has not been left with
`connection_cb(true)`. -/
theorem stop_told (cfg : Config) (opts : ClientOptions) {s : Switched cfg}
    (h : (switched cfg opts).ReachBy (fun s a => stopsClean opts s a = true) s) : s.StopTold := by
  obtain ⟨hoff, -, htold, hsilent⟩ := switching_reach h
  intro hesp
  obtain ⟨hidle, hconn⟩ := hoff hesp
  refine ⟨hconn, fun hwait hup hdown => ?_⟩
  cases hopts : opts.connectionCb with
  | false =>
    rw [hsilent hopts]
    nofun
  | true =>
    rw [← Client.lastTold_of_waiting hwait]
    rcases (htold hopts (by rw [hesp]; nofun)).told hconn with hpending | ⟨-, hlast⟩
    · rw [hdown, hidle] at hpending
      cases hpending
    · exact hlast

/-- The first connection under `start`. -/
def startedRun : List SwitchAct := .start :: Client.firstConnectionRun.map .client

/-- The connection is lost and comes back while the request task is busy, and the client is stopped
before the task has served either bit. -/
theorem stop_told_sample :
    ∃ s : Switched .sample, (switched .sample .sample).ReachBy
        (fun s a => stopsClean .sample s a = true) s ∧
      s.esp = .stopped ∧ s.client.told = [true, true, false] ∧ s.StopTold := by
  have hrun : ((switched .sample .sample).runBy (fun s a => stopsClean .sample s a = true)
      (switched .sample .sample).init (startedRun ++
        [.client (.event .disconnected), .client .mqtt, .client .mqtt,
          .client (.event (.connected true)), .client .mqtt, .stop, .stopReturn,
          .client (.deadline 1), .client (.wake false), .client (.birth ⟨true, .ok, 3⟩ .sample []),
          .client (.tellUp 1), .client .tellDown, .client .drained,
          .client (.due 2)])).map
      (fun s => decide (s.esp = .stopped) && decide (s.client.told = [true, true, false])) =
        some true := by
    decide +kernel
  obtain ⟨s, hs, hcheck⟩ := Lts.exists_reachBy_of_runBy hrun
  simp only [Bool.and_eq_true, decide_eq_true_eq] at hcheck
  exact ⟨s, hs, hcheck.1, hcheck.2, stop_told .sample .sample hs⟩

/-- The client is stopped while it is connected: the application is not told. -/
theorem stop_untold :
    ∃ s : Switched .sample, (switched .sample .sample).run (startedRun ++
        [.stop, .stopReturn]) = some s ∧ ¬ s.StopTold := by
  have hrun : ((switched .sample .sample).run (startedRun ++ [.stop, .stopReturn])).map
      (fun s => decide (s.esp = .stopped) && s.client.pc.waiting &&
        !s.client.dev.bits.connected && !s.client.dev.bits.disconnected &&
        decide (s.client.told.getLast? = some true)) = some true := by
    decide +kernel
  obtain ⟨s, hs, hcheck⟩ := Option.map_eq_some_iff.mp hrun
  refine ⟨s, hs, ?_⟩
  intro htold
  simp only [Bool.and_eq_true, Bool.not_eq_true', decide_eq_true_eq] at hcheck
  obtain ⟨⟨⟨⟨hesp, hwait⟩, hup⟩, hdown⟩, hlast⟩ := hcheck
  exact (htold hesp).2 hwait hup hdown hlast

/-- A connection that comes up between the store and the end of the esp-mqtt task: `connected()`
is true from then on. -/
theorem stop_overtaken :
    ∃ s : Switched .sample, (switched .sample .sample).run [.start, .stop,
        .client (.event (.connected true)), .client .mqtt, .stopReturn] = some s ∧
      s.esp = .stopped ∧ s.isConnected = true := by
  have hrun : ((switched .sample .sample).run [.start, .stop,
      .client (.event (.connected true)), .client .mqtt, .stopReturn]).map
      (fun s => decide (s.esp = .stopped) && s.isConnected) = some true := by
    decide +kernel
  obtain ⟨s, hs, hcheck⟩ := Option.map_eq_some_iff.mp hrun
  simp only [Bool.and_eq_true, decide_eq_true_eq] at hcheck
  exact ⟨s, hs, hcheck⟩

end Switched

end SoulCloud
