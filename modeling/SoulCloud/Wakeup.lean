import SoulCloud.Client
import SoulCloud.Ownership

/-!
# No request is left behind (`sc_rpc::submit`, `sc_client::run_task`)

The MQTT task puts a request on `ready_slots` and then sets `BIT_REQUEST`; the request
task clears the bit when it wakes and then empties the queue. One bit stands for any
number of requests, and the task may be busy elsewhere when it is set.

- `Device.RequestSeen`: what is on `ready_slots` has its bit, or is about to get it.
- `Client.Signalled`: this holds wherever the loop is on its way to the wait.
- `no_lost_request`: a waiting request task has nothing to do, or its wait returns.
-/

namespace SoulCloud

/-- `submit` is between its two operations, or `ready_slots` is empty, or its bit is set. -/
def Device.RequestSeen {cfg : Config} (d : Device cfg) : Prop :=
  d.rpc.readySlots.items = [] ∨ d.bits.request = true ∨ d.mqttPc = .setRequest

/-- The request task is blocked in the wait of `run_task`. -/
def ClientPc.blocked : ClientPc → Bool
  | .wait _ => true
  | _ => false

/-- The loop empties `ready_slots` before it waits again. -/
def ClientPc.drains : ClientPc → Bool
  | .boot | .deadline | .wait _ | .due | .heartbeat | .report | .rearm => false
  | _ => true

/-- The request task is inside a call or has a request. -/
def ClientPc.working : ClientPc → Bool
  | .inTime | .inCheck | .handling => true
  | _ => false

namespace Device

variable {cfg : Config} {d d' : Device cfg}

/-- An event leaves `ready_slots` and the bit alone. -/
theorem RequestSeen.event {e : MqttEvent} (h : d.RequestSeen) (hset : d.Settled)
    (hidle : d.mqttPc = .idle) : (d.event e).RequestSeen := by
  obtain ⟨⟨q, hq⟩, -, hbits⟩ := hset.event_frame e
  unfold RequestSeen
  rw [hq, hbits]
  rcases h with hempty | hbit | hpc
  · exact .inl hempty
  · exact .inr (.inl hbit)
  · rw [hidle] at hpc
    cases hpc

/-- The MQTT task sets the bit after every send. -/
theorem RequestSeen.mqtt (h : d.RequestSeen) (hst : d.MqttStep d') : d'.RequestSeen := by
  cases hst with
  | submit | submitNone => exact .inr (.inr rfl)
  | setRequest => exact .inr (.inl rfl)
  | takeSlot hpc | busy hpc | response hpc | ignored hpc | fill hpc | fillNone hpc | append hpc
  | dropData hpc | setCallDone hpc | setConnected hpc | dropSlot hpc | setDisconnected hpc =>
    rcases h with hempty | hbit | hset
    · exact .inl hempty
    · exact .inr (.inl hbit)
    · rw [hpc] at hset
      cases hset
  | deliver hpc _ _ hsame =>
    rcases h with hempty | hbit | hset
    · left
      dsimp only
      rw [hsame]
      exact hempty
    · exact .inr (.inl hbit)
    · rw [hpc] at hset
      cases hset

end Device

namespace Client

variable {cfg : Config} {opts : ClientOptions} {s s' : Client cfg} {a : ClientAct}

/-- The two tasks agree on what is on `ready_slots`. -/
structure Signalled (s : Client cfg) : Prop where
  idle : s.pc.working = false → s.dev.taskPc = .idle
  seen : s.pc.drains = false → s.dev.RequestSeen

/-- A step of the loop on its own. -/
theorem Signalled.loop (h : s.Signalled) (hdev : s'.dev = s.dev)
    (hwork : s.pc.working = false) (hdrains : s'.pc.drains = false → s.pc.drains = false) :
    s'.Signalled := by
  refine ⟨fun _ => ?_, fun hpc => ?_⟩
  · rw [hdev]
    exact h.idle hwork
  · rw [hdev]
    exact h.seen (hdrains hpc)

/-- A step of another task that keeps the request task's own state. -/
theorem Signalled.device {dev : Device cfg} (h : s.Signalled) (htask : dev.taskPc = s.dev.taskPc)
    (hseen : s.dev.RequestSeen → dev.RequestSeen) : Signalled { s with dev } :=
  ⟨fun hpc => htask.trans (h.idle hpc), fun hpc => hseen (h.seen hpc)⟩

theorem taskPc_mqttStep {d d' : Device cfg} (h : d.MqttStep d') : d'.taskPc = d.taskPc := by
  cases h <;> rfl

/-- After the bits of a wait the loop empties the queue before it waits again. -/
theorem afterWait_drains (woken : EventBits) :
    (afterWait woken).drains = true ∧ (afterWait woken).working = false := by
  unfold afterWait
  split_ifs <;> exact ⟨rfl, rfl⟩

theorem afterConnected_drains (woken : EventBits) :
    (afterConnected woken).drains = true ∧ (afterConnected woken).working = false := by
  unfold afterConnected
  split_ifs <;> exact ⟨rfl, rfl⟩

theorem signalled_step (hset : s.dev.Settled) (h : ClientStep opts s a s') (hs : s.Signalled) :
    s'.Signalled := by
  cases h with
  | event hidle =>
    obtain ⟨-, htask, -⟩ := hset.event_frame _
    exact hs.device htask fun hseen => hseen.event hset hidle
  | mqtt hdev =>
    have hst := hset.mqttStep_cases hdev
    exact hs.device (taskPc_mqttStep hst) fun hseen => hseen.mqtt hst
  | requestReport | stop => exact hs.device rfl id
  | wake hpc hidle =>
    -- The bit is cleared, and the queue is emptied after that.
    obtain ⟨hdrains, -⟩ := afterWait_drains s.dev.bits.main
    refine ⟨fun _ => hidle, fun hpc' => ?_⟩
    rw [hdrains] at hpc'
    cases hpc'
  | drained hpc hempty =>
    refine ⟨fun _ => hs.idle ?_, fun _ => .inl hempty⟩
    rw [hpc]
    rfl
  | boot hpc | deadline hpc | rearm hpc | report hpc | due hpc | heartbeat hpc =>
    refine hs.loop rfl ?_ ?_ <;> rw [hpc]
    · rfl
    · exact fun _ => rfl
  | clockSet hpc | tellDown hpc =>
    refine hs.loop ?_ ?_ nofun
    · first | rfl | (unfold tell; split_ifs <;> rfl)
    · rw [hpc]
      rfl
  | confirm hpc =>
    refine hs.loop ?_ ?_ nofun
    · dsimp only [confirmRunningImage]
      split_ifs <;> rfl
    · rw [hpc]
      rfl
  | birth hpc =>
    refine hs.loop rfl ?_ ?_
    · rw [hpc]
      rfl
    · dsimp only
      split_ifs <;> exact nofun
  | tellUp hpc =>
    obtain ⟨hdrains, -⟩ := afterConnected_drains s.woken
    refine hs.loop ?_ ?_ ?_
    · dsimp only [tell]
      split_ifs <;> rfl
    · rw [hpc]
      rfl
    · intro hpc'
      rw [hdrains] at hpc'
      cases hpc'
  | syncTime | checkUpdate | take => exact ⟨nofun, nofun⟩
  | @task b dev dest hpc hwake hdev =>
    -- Inside a call or a request the queue is still to be emptied.
    have hdrains : dest.drains = true ∧ s.pc.drains = true ∧ s.pc.working = true := by
      rcases hpc with ⟨hpc, rfl⟩ | ⟨hpc, rfl⟩ | ⟨hpc, rfl⟩ <;> rw [hpc] <;> exact ⟨rfl, rfl, rfl⟩
    obtain ⟨hdest, hsame, hwork⟩ := hdrains
    constructor
    · intro hpc'
      dsimp only at hpc' ⊢
      cases htask : dev.taskPc with
      | idle => rfl
      | _ =>
        rw [htask] at hpc'
        rw [hwork] at hpc'
        cases hpc'
    · intro hpc'
      dsimp only at hpc'
      split at hpc'
      · rw [hdest] at hpc'
        cases hpc'
      · rw [hsame] at hpc'
        cases hpc'

theorem signalled_reach {g : Client cfg → ClientAct → Prop}
    (h : (client cfg opts).ReachBy g s) : s.Signalled := by
  refine h.invariant (I := Signalled) ⟨fun _ => rfl, fun _ => .inl rfl⟩ ?_
  intro s a s' hs hI _ hst
  exact signalled_step (Device.kept_reach (reach_dev hs)).settled (step_cases hst) hI

/-- A wait with its bit set returns. -/
theorem wake_of_request (h : s.Signalled) (hwait : s.pc.blocked = true)
    (hbit : s.dev.bits.request = true) : ∃ s', s.step opts (.wake false) = some s' := by
  cases hpc : s.pc with
  | wait ticks =>
    have hidle : s.dev.taskPc = .idle := h.idle (by rw [hpc]; rfl)
    have hmain : s.dev.bits.main ≠ .none := by
      intro hnone
      have hrequest := congrArg EventBits.request hnone
      exact absurd (hbit.symm.trans hrequest) (by decide)
    have hdev : s.dev.taskStep .wake = some { s.dev with bits := s.dev.bits.clearMain } := by
      simp only [Device.taskStep, hidle]
    rw [← Option.isSome_iff_exists]
    simp only [step, hpc, hdev, hmain, false_and, if_false]
    rfl
  | _ =>
    rw [hpc] at hwait
    cases hwait

/-- **No request is left behind.** In every run, while the request task is blocked in the wait
of `run_task` and the MQTT task is not between the two steps of `submit`, `ready_slots` is
empty or `BIT_REQUEST` is set, and the wait returns. -/
theorem no_lost_request (cfg : Config) (opts : ClientOptions) {s : Client cfg}
    (h : (client cfg opts).Reach s) (hwait : s.pc.blocked = true)
    (hmqtt : s.dev.mqttPc ≠ .setRequest) :
    s.dev.rpc.readySlots.items = [] ∨
      s.dev.bits.request = true ∧ ∃ s', s.step opts (.wake false) = some s' := by
  have hs := signalled_reach h
  have hdrains : s.pc.drains = false := by
    revert hwait
    cases s.pc <;> simp [ClientPc.blocked, ClientPc.drains]
  rcases hs.seen hdrains with hempty | hbit | hpc
  · exact .inl hempty
  · exact .inr ⟨hbit, wake_of_request hs hwait hbit⟩
  · exact absurd hpc hmqtt

/-- A request that arrives after the first wait has begun. -/
theorem no_lost_request_sample :
    ∃ s : Client .sample, (client .sample .sample).Reach s ∧ s.dev.rpc.readySlots.items = [0] ∧
      ∃ s', s.step .sample (.wake false) = some s' := by
  have hrun : ((client .sample .sample).run [.boot 0, .deadline 0,
      .event (.data (Device.ping.fragment 0 0)), .mqtt, .mqtt, .mqtt, .mqtt, .mqtt]).map
      (fun s => s.pc.blocked && s.dev.mqttPc.isIdle &&
        decide (s.dev.rpc.readySlots.items = [0])) = some true := by
    decide +kernel
  obtain ⟨s, hs, hcheck⟩ := Lts.exists_reach_of_run hrun
  simp only [Bool.and_eq_true, decide_eq_true_eq] at hcheck
  obtain ⟨⟨hwait, hidle⟩, hready⟩ := hcheck
  have hmqtt : s.dev.mqttPc ≠ .setRequest := by
    rw [MqttPc.eq_idle hidle]
    nofun
  rcases no_lost_request .sample .sample hs hwait hmqtt with hempty | ⟨-, hwakes⟩
  · rw [hready] at hempty
    cases hempty
  · exact ⟨s, hs, hready, hwakes⟩

end Client

end SoulCloud
