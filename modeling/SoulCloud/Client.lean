import SoulCloud.Device
import SoulCloud.Lib.Word
import SoulCloud.Status

/-!
# The request task's loop (`sc_client::run_task`)

`client cfg opts` runs the loop of `run_task` over the device: it decides in which
order the request task takes requests, starts calls, reports its status and tells
the application about the connection. A step of the loop is one operation another
task can observe, as in `Device.lean`; `woken` holds the bits the last wait returned.

- `Client.calls` is what the task has shown outside of the device: results of status
  reports, the confirmation of the running image, calls of the connection callback.
- `ClientStep` lists what each step does; `step_cases` is the inversion lemma.
- `Client.reach_dev`: a run of the client is a run of the device.

What the answers of the two calls of `on_connected` lead to (the clock, an update) is
left out: nothing in the loop depends on it.
-/

namespace SoulCloud

open Bytes Word

/-- Build options, and what is settled before the task starts. -/
structure ClientOptions where
  /-- The heartbeat interval in ticks. -/
  heartbeat : Nat
  /-- `CONFIG_SOULCLOUD_MARK_APP_VALID`. -/
  markAppValid : Bool
  /-- The application has set a `connection_cb`. -/
  connectionCb : Bool
  /-- The running image is pending verification at boot. -/
  imagePending : Bool

/-- Options for concrete runs. -/
def ClientOptions.sample : ClientOptions where
  heartbeat := 60000
  markAppValid := true
  connectionCb := true
  imagePending := true

/-- What the request task shows to the platform's users and to the bootloader. -/
inductive ClientCall where
  /-- `status->report` returned. -/
  | reported (ret : EspErr)
  /-- `esp_ota_mark_app_valid_cancel_rollback`. -/
  | markedValid
  /-- `connection_cb`. -/
  | told (connected : Bool)
  deriving DecidableEq, Repr

/-- Where the request task is in `run_task`. -/
inductive ClientPc where
  /-- About to set `next_report` for the first time. -/
  | boot
  /-- About to compute `until_report`. -/
  | deadline
  /-- In `xEventGroupWaitBits`, for at most so many ticks. -/
  | wait (ticks : Int)
  /-- `on_connected`, about to report its birth. -/
  | birth
  /-- `confirm_running_image`. -/
  | confirm
  | syncTime
  /-- In the call of `sync_time`. -/
  | inTime
  | checkUpdate
  /-- In the call of `check_for_update`. -/
  | inCheck
  /-- `on_connected`, about to call `connection_cb`. -/
  | tellUp
  /-- About to call `connection_cb(false)`. -/
  | tellDown
  /-- `handle_ready`, about to receive from `ready_slots`. -/
  | ready
  /-- `handle_ready` with a request. -/
  | handling
  /-- About to compute `report_due`. -/
  | due
  /-- About to test `mqtt->connected()`. -/
  | heartbeat
  | report
  /-- About to set `next_report` again. -/
  | rearm
  deriving DecidableEq

/-- The device with its request task in `run_task`. -/
structure Client (cfg : Config) where
  dev : Device cfg
  pc : ClientPc
  woken : EventBits
  firstConnection : Bool
  imagePending : Bool
  nextReport : Nat
  calls : List ClientCall

/-- A step of the client, with what the outside answers. `now` is the tick count. -/
inductive ClientAct where
  | event (e : MqttEvent)
  | mqtt
  | requestReport
  | stop
  | boot (now : Nat)
  | deadline (now : Nat)
  | wake (timedOut : Bool)
  | birth (env : PublishEnv) (msg : StatusMsg) (extra : List WriterCall)
  /-- `stateRead`: `esp_ota_get_state_partition` succeeds. -/
  | confirm (stateRead : Bool)
  /-- `clockSet`: the clock has been set already. -/
  | syncTime (clockSet : Bool)
  | checkUpdate
  /-- A step inside a call, or of the handling of a request. -/
  | task (a : Device.TaskAct)
  | tellUp (now : Nat)
  | tellDown
  /-- `ready_slots` is empty. -/
  | drained
  | due (now : Nat)
  | heartbeat
  | report (env : PublishEnv) (msg : StatusMsg) (extra : List WriterCall)
  | rearm (now : Nat)

namespace Client

variable {cfg : Config} {opts : ClientOptions}

/-- After `init`, with the task created. -/
def init (cfg : Config) (opts : ClientOptions) : Client cfg where
  dev := Device.init cfg
  pc := .boot
  woken := .none
  firstConnection := true
  imagePending := opts.imagePending
  nextReport := 0
  calls := []

/-- `next_report = xTaskGetTickCount() + heartbeat`. -/
def arm (opts : ClientOptions) (now : Nat) : Nat := toSizeT (now + opts.heartbeat)

/-- `next_report - xTaskGetTickCount()` as an `int32_t`. -/
def untilReport (s : Client cfg) (now : Nat) : Int := toInt32 (s.nextReport - now)

/-- Where the loop goes with the bits of a wait. -/
def afterWait (woken : EventBits) : ClientPc :=
  if woken.connected then .birth else if woken.disconnected then .tellDown else .ready

/-- Where the loop goes after `on_connected`. -/
def afterConnected (woken : EventBits) : ClientPc :=
  if woken.disconnected then .tellDown else .ready

/-- `connection_cb`, if there is one. -/
def tell (opts : ClientOptions) (s : Client cfg) (connected : Bool) : Client cfg :=
  if opts.connectionCb then { s with calls := s.calls ++ [.told connected] } else s

/-- `confirm_running_image`. -/
def confirmRunningImage (opts : ClientOptions) (s : Client cfg) (stateRead : Bool) : Client cfg :=
  if opts.markAppValid = true ∧ stateRead = true ∧ s.imagePending = true then
    { s with imagePending := false, calls := s.calls ++ [.markedValid] }
  else s

/-- `report_due`. -/
def reportDue (s : Client cfg) (now : Nat) : Bool :=
  s.woken.reportStatus || decide (s.untilReport now ≤ 0)

/-- A step of the device inside a call or a request: stay, or go on when it is over. -/
def taskStep (s : Client cfg) (a : Device.TaskAct) (dest : ClientPc) : Option (Client cfg) :=
  (s.dev.taskStep a).map fun dev =>
    { s with dev, pc := match dev.taskPc with | .idle => dest | _ => s.pc }

/-- The step function. -/
def step (opts : ClientOptions) (s : Client cfg) (a : ClientAct) : Option (Client cfg) :=
  match a, s.pc with
  -- The wait of the loop is its own action.
  | .task .wake, _ => none
  | .event e, _ => (s.dev.step (.event e)).map fun dev => { s with dev }
  | .mqtt, _ => (s.dev.step .mqtt).map fun dev => { s with dev }
  | .requestReport, _ => (s.dev.step .requestReport).map fun dev => { s with dev }
  | .stop, _ => (s.dev.step .stop).map fun dev => { s with dev }
  | .boot now, .boot => some { s with nextReport := arm opts now, pc := .deadline }
  | .deadline now, .deadline => some { s with pc := .wait (max (s.untilReport now) 0) }
  | .wake timedOut, .wait _ =>
    -- The wait returns all bits that are set by then, or none when it times out.
    if s.dev.bits.main = .none ∧ ¬ timedOut then none
    else
      (s.dev.taskStep .wake).map fun dev =>
        { s with dev, woken := s.dev.bits.main, pc := afterWait s.dev.bits.main }
  | .birth env msg extra, .birth =>
    -- What the report returned is logged and not looked at again.
    some { s with
      firstConnection := false
      pc := if s.firstConnection then .confirm else .tellUp
      calls := s.calls ++ [.reported
        (statusReport cfg s.dev.mqtt.isConnected env { msg with birth := true } extra).1] }
  | .confirm stateRead, .confirm =>
    some { s.confirmRunningImage opts stateRead with pc := .syncTime }
  | .syncTime clockSet, .syncTime =>
    if clockSet then some { s with pc := .checkUpdate }
    else (s.dev.taskStep (.callBegin (ascii "time") (ascii "{}"))).map fun dev =>
      { s with dev, pc := .inTime }
  | .task a, .inTime => s.taskStep a .checkUpdate
  | .checkUpdate, .checkUpdate =>
    (s.dev.taskStep (.callBegin (ascii "ota.check") (ascii "{}"))).map fun dev =>
      { s with dev, pc := .inCheck }
  | .task a, .inCheck => s.taskStep a .tellUp
  | .tellUp now, .tellUp =>
    some { s.tell opts true with nextReport := arm opts now, pc := afterConnected s.woken }
  | .tellDown, .tellDown => some { s.tell opts false with pc := .ready }
  | .task .take, .ready => (s.dev.taskStep .take).map fun dev => { s with dev, pc := .handling }
  | .task a, .handling => s.taskStep a .ready
  | .drained, .ready =>
    if s.dev.rpc.readySlots.items = [] then some { s with pc := .due } else none
  -- `woken` is of the last wait: a request for a report made meanwhile waits for the next.
  | .due now, .due => some { s with pc := if s.reportDue now then .heartbeat else .deadline }
  | .heartbeat, .heartbeat =>
    some { s with pc := if s.dev.mqtt.isConnected then .report else .rearm }
  | .report env msg extra, .report =>
    some { s with
      pc := .rearm
      calls := s.calls ++ [.reported
        (statusReport cfg s.dev.mqtt.isConnected env { msg with birth := false } extra).1] }
  | .rearm now, .rearm => some { s with nextReport := arm opts now, pc := .deadline }
  | _, _ => none

/-! ## What a step can do -/

/-- The steps by action: where each is possible and what it leaves. -/
inductive ClientStep (opts : ClientOptions) (s : Client cfg) : ClientAct → Client cfg → Prop where
  | event {e : MqttEvent} (hidle : s.dev.mqttPc = .idle) :
      ClientStep opts s (.event e) { s with dev := s.dev.event e }
  | mqtt {dev : Device cfg} (hdev : s.dev.mqttStep = some dev) :
      ClientStep opts s .mqtt { s with dev }
  | requestReport :
      ClientStep opts s .requestReport
        { s with dev := { s.dev with bits := { s.dev.bits with reportStatus := true } } }
  | stop :
      ClientStep opts s .stop
        { s with dev := { s.dev with mqtt := { s.dev.mqtt with isConnected := false } } }
  | boot {now : Nat} (hpc : s.pc = .boot) :
      ClientStep opts s (.boot now) { s with nextReport := arm opts now, pc := .deadline }
  | deadline {now : Nat} (hpc : s.pc = .deadline) :
      ClientStep opts s (.deadline now) { s with pc := .wait (max (s.untilReport now) 0) }
  | wake {timedOut : Bool} {ticks : Int} (hpc : s.pc = .wait ticks)
      (hidle : s.dev.taskPc = .idle) (hwoken : s.dev.bits.main ≠ .none ∨ timedOut = true) :
      ClientStep opts s (.wake timedOut)
        { s with
          dev := { s.dev with bits := s.dev.bits.clearMain }
          woken := s.dev.bits.main
          pc := afterWait s.dev.bits.main }
  | birth {env : PublishEnv} {msg : StatusMsg} {extra : List WriterCall} (hpc : s.pc = .birth) :
      ClientStep opts s (.birth env msg extra)
        { s with
          firstConnection := false
          pc := if s.firstConnection then .confirm else .tellUp
          calls := s.calls ++ [.reported
            (statusReport cfg s.dev.mqtt.isConnected env { msg with birth := true } extra).1] }
  | confirm {stateRead : Bool} (hpc : s.pc = .confirm) :
      ClientStep opts s (.confirm stateRead)
        { s.confirmRunningImage opts stateRead with pc := .syncTime }
  | clockSet (hpc : s.pc = .syncTime) :
      ClientStep opts s (.syncTime true) { s with pc := .checkUpdate }
  | syncTime {dev : Device cfg} (hpc : s.pc = .syncTime)
      (hdev : s.dev.taskStep (.callBegin (ascii "time") (ascii "{}")) = some dev) :
      ClientStep opts s (.syncTime false) { s with dev, pc := .inTime }
  | checkUpdate {dev : Device cfg} (hpc : s.pc = .checkUpdate)
      (hdev : s.dev.taskStep (.callBegin (ascii "ota.check") (ascii "{}")) = some dev) :
      ClientStep opts s .checkUpdate { s with dev, pc := .inCheck }
  | take {dev : Device cfg} (hpc : s.pc = .ready) (hdev : s.dev.taskStep .take = some dev) :
      ClientStep opts s (.task .take) { s with dev, pc := .handling }
  | task {a : Device.TaskAct} {dev : Device cfg} {dest : ClientPc}
      (hpc : s.pc = .inTime ∧ dest = .checkUpdate ∨ s.pc = .inCheck ∧ dest = .tellUp ∨
        s.pc = .handling ∧ dest = .ready)
      (hwake : a ≠ .wake) (hdev : s.dev.taskStep a = some dev) :
      ClientStep opts s (.task a)
        { s with dev, pc := match dev.taskPc with | .idle => dest | _ => s.pc }
  | tellUp {now : Nat} (hpc : s.pc = .tellUp) :
      ClientStep opts s (.tellUp now)
        { s.tell opts true with nextReport := arm opts now, pc := afterConnected s.woken }
  | tellDown (hpc : s.pc = .tellDown) :
      ClientStep opts s .tellDown { s.tell opts false with pc := .ready }
  | drained (hpc : s.pc = .ready) (hempty : s.dev.rpc.readySlots.items = []) :
      ClientStep opts s .drained { s with pc := .due }
  | due {now : Nat} (hpc : s.pc = .due) :
      ClientStep opts s (.due now)
        { s with pc := if s.reportDue now then .heartbeat else .deadline }
  | heartbeat (hpc : s.pc = .heartbeat) :
      ClientStep opts s .heartbeat
        { s with pc := if s.dev.mqtt.isConnected then .report else .rearm }
  | report {env : PublishEnv} {msg : StatusMsg} {extra : List WriterCall} (hpc : s.pc = .report) :
      ClientStep opts s (.report env msg extra)
        { s with
          pc := .rearm
          calls := s.calls ++ [.reported
            (statusReport cfg s.dev.mqtt.isConnected env { msg with birth := false } extra).1] }
  | rearm {now : Nat} (hpc : s.pc = .rearm) :
      ClientStep opts s (.rearm now) { s with nextReport := arm opts now, pc := .deadline }

theorem step_cases {s s' : Client cfg} {a : ClientAct} (h : s.step opts a = some s') :
    ClientStep opts s a s' := by
  unfold step at h
  split at h
  · cases h
  · obtain ⟨dev, hdev, rfl⟩ := Option.map_eq_some_iff.mp h
    simp only [Device.step] at hdev
    split at hdev
    · rename_i hidle
      cases hdev
      exact .event hidle
    · cases hdev
  · obtain ⟨dev, hdev, rfl⟩ := Option.map_eq_some_iff.mp h
    exact .mqtt hdev
  · cases h
    exact .requestReport
  · cases h
    exact .stop
  · rename_i hpc
    cases h
    exact .boot hpc
  · rename_i hpc
    cases h
    exact .deadline hpc
  · rename_i hpc
    split at h
    · cases h
    · rename_i hwoken
      obtain ⟨dev, hdev, rfl⟩ := Option.map_eq_some_iff.mp h
      cases Device.taskStep_cases hdev with
      | wake hidle =>
        refine .wake hpc hidle ?_
        rwa [not_and_or, not_not] at hwoken
  · rename_i hpc
    cases h
    exact .birth hpc
  · rename_i hpc
    cases h
    exact .confirm hpc
  · rename_i clockSet hpc
    cases clockSet with
    | true =>
      cases h
      exact .clockSet hpc
    | false =>
      obtain ⟨dev, hdev, rfl⟩ := Option.map_eq_some_iff.mp h
      exact .syncTime hpc hdev
  · rename_i hpc
    obtain ⟨dev, hdev, rfl⟩ := Option.map_eq_some_iff.mp h
    exact .task (.inl ⟨hpc, rfl⟩) (by rintro rfl; simp_all) hdev
  · rename_i hpc
    obtain ⟨dev, hdev, rfl⟩ := Option.map_eq_some_iff.mp h
    exact .checkUpdate hpc hdev
  · rename_i hpc
    obtain ⟨dev, hdev, rfl⟩ := Option.map_eq_some_iff.mp h
    exact .task (.inr (.inl ⟨hpc, rfl⟩)) (by rintro rfl; simp_all) hdev
  · rename_i hpc
    cases h
    exact .tellUp hpc
  · rename_i hpc
    cases h
    exact .tellDown hpc
  · rename_i hpc
    obtain ⟨dev, hdev, rfl⟩ := Option.map_eq_some_iff.mp h
    exact .take hpc hdev
  · rename_i hpc
    obtain ⟨dev, hdev, rfl⟩ := Option.map_eq_some_iff.mp h
    exact .task (.inr (.inr ⟨hpc, rfl⟩)) (by rintro rfl; simp_all) hdev
  · rename_i hpc
    split at h
    · rename_i hempty
      cases h
      exact .drained hpc hempty
    · cases h
  · rename_i hpc
    cases h
    exact .due hpc
  · rename_i hpc
    cases h
    exact .heartbeat hpc
  · rename_i hpc
    cases h
    exact .report hpc
  · rename_i hpc
    cases h
    exact .rearm hpc
  · cases h

end Client

/-- The client as a transition system. -/
def client (cfg : Config) (opts : ClientOptions) : Lts (Client cfg) ClientAct :=
  ⟨Client.init cfg opts, Client.step opts⟩

/-- A step of the client is a step of the device or leaves the device alone. -/
theorem Client.step_dev {cfg : Config} {opts : ClientOptions} {s s' : Client cfg} {a : ClientAct}
    (h : ClientStep opts s a s') : s'.dev = s.dev ∨ ∃ b, s.dev.step b = some s'.dev := by
  cases h with
  | @event e hidle =>
    refine .inr ⟨.event e, ?_⟩
    simp only [Device.step, hidle]
  | mqtt hdev => exact .inr ⟨.mqtt, hdev⟩
  | requestReport => exact .inr ⟨.requestReport, rfl⟩
  | stop => exact .inr ⟨.stop, rfl⟩
  | wake _ hidle =>
    refine .inr ⟨.task .wake, ?_⟩
    simp only [Device.step, Device.taskStep, hidle]
  | syncTime _ hdev | checkUpdate _ hdev | take _ hdev | task _ _ hdev =>
    exact .inr ⟨.task _, hdev⟩
  | confirm | tellUp | tellDown =>
    left
    dsimp only [confirmRunningImage, tell]
    split <;> rfl
  | _ => exact .inl rfl

/-- A run of the client is a run of the device. -/
theorem Client.reach_dev {cfg : Config} {opts : ClientOptions} {g : Client cfg → ClientAct → Prop}
    {s : Client cfg} (h : (client cfg opts).ReachBy g s) : (device cfg).Reach s.dev := by
  refine h.map (T := device cfg) rfl ?_
  intro s a s' _ _ _ hst
  rcases Client.step_dev (Client.step_cases hst) with heq | ⟨b, hb⟩
  · exact .inl heq
  · exact .inr ⟨b, trivial, hb⟩

end SoulCloud
