import SoulCloud.Wakeup

/-!
# The request task comes to rest (`sc_client::run_task`, `sc_rpc::handle_ready`)

`Wakeup.lean` shows that a waiting request is seen. Here it is also dealt with: once nothing more
arrives, the two tasks can make only so many steps, and where they stop every request has been
handled and its slot is free again.

- `Undisturbed`: a step of one of the two tasks while nothing arrives and no wait times out.
- `Device.work`, `Client.work`: how many such steps there can be at most.
- `work_step`: each of them makes it less.
- `comes_to_rest`: **every run of such steps is short, and ends with nothing left to do.**
-/

namespace SoulCloud

open Bytes

/-! ## What is left to do -/

/-- Steps of the MQTT task, and what they give the request task to do: a bit to wake it, a request
to handle. -/
def MqttPc.work : MqttPc → Nat
  | .idle => 0
  | .setCallDone => 1
  | .setRequest | .setConnected | .setDisconnected => 24
  | .dropSlot _ => 25
  | .submit => 30
  | .data _ => 31
  | .fill _ _ => 32
  | .route _ => 33

/-- Steps inside a call or a request. -/
def TaskPc.work : TaskPc → Nat
  | .idle => 0
  | .handling _ => 4
  | .responding _ _ => 3
  | .respondingRes _ _ => 2
  | .returning _ => 1
  | .callClear _ => 5
  | .callPublish _ => 4
  | .callWait _ => 3
  | .callEnd _ _ => 2
  | .callParse _ _ _ _ => 1

/-- Steps of the loop until its wait, but for requests and what is inside a call. -/
def ClientPc.work : ClientPc → Nat
  | .wait _ => 0
  | .deadline => 1
  | .boot | .rearm => 2
  | .report => 3
  | .heartbeat => 4
  | .due => 5
  | .ready | .handling => 6
  | .tellDown => 7
  | .tellUp | .inCheck => 8
  | .checkUpdate | .inTime => 14
  | .syncTime => 20
  | .confirm => 21
  | .birth => 22

/-- What the MQTT task does and leaves to do: a bit is worth a round of the loop, a request the
steps of its handling. -/
def Device.work {cfg : Config} (d : Device cfg) : Nat :=
  d.mqttPc.work + (if d.bits.main = .none then 0 else 23) + 5 * d.rpc.readySlots.items.length

/-- How many steps there can be at most. -/
def Client.work {cfg : Config} (s : Client cfg) : Nat :=
  s.dev.work + s.pc.work + s.dev.taskPc.work

namespace Device

variable {cfg : Config} {d d' : Device cfg}

theorem bits_work_le (b : EventBits) : (if b.main = .none then 0 else 23) ≤ 23 := by
  split <;> omega

/-- A step of the MQTT task makes it less. -/
theorem work_mqtt (h : d.MqttStep d') : d'.work < d.work ∧ d'.taskPc = d.taskPc := by
  refine ⟨?_, by cases h <;> rfl⟩
  have hbits := bits_work_le d'.bits
  unfold work
  cases h with
  | takeSlot hpc | busy hpc | response hpc | fill hpc | fillNone hpc =>
    rw [hpc]
    simp only [MqttPc.work]
    first | omega | (simp only [Rpc.setSlot]; omega)
  | ignored hpc _ _ hpc' =>
    rw [hpc]
    rcases hpc' with rfl | rfl <;> simp only [MqttPc.work] <;> omega
  | deliver hpc _ _ hsame =>
    rw [hpc, hsame]
    dsimp only
    split <;> simp only [MqttPc.work] <;> omega
  | append hpc =>
    rw [hpc]
    simp only [Rpc.setSlot]
    split <;> simp only [MqttPc.work] <;> omega
  | dropData hpc =>
    rw [hpc]
    simp only [MqttPc.work]
    omega
  | submit hpc _ hitems =>
    rw [hpc]
    simp only [MqttPc.work, hitems, List.length_append, List.length_singleton]
    omega
  | submitNone hpc =>
    rw [hpc]
    simp only [MqttPc.work]
    omega
  | setRequest hpc | setConnected hpc | setDisconnected hpc =>
    rw [hpc]
    simp only [MqttPc.work] at hbits ⊢
    omega
  | setCallDone hpc =>
    -- The request task's wait does not see this bit.
    have hmain : ({ d.bits with callDone := true } : EventBits).main = d.bits.main := rfl
    rw [hpc]
    dsimp only
    rw [hmain]
    simp only [MqttPc.work]
    omega
  | @dropSlot was q hpc =>
    rw [hpc]
    cases was <;> simp only [MqttPc.work, if_true, Bool.false_eq_true, if_false] <;> omega

/-- Inside an event the MQTT task can go on. -/
theorem idle_of_mqttStep (h : d.mqttStep = none) : d.mqttPc = .idle := by
  unfold mqttStep at h
  split at h
  · assumption
  all_goals cases h

/-- Inside a call or a request a step of the request task makes that less, and nothing else. -/
theorem work_task {a : TaskAct} (h : d.TaskStep a d') (hpc : d.taskPc ≠ .idle) :
    d'.work = d.work ∧ d'.taskPc.work < d.taskPc.work := by
  cases h with
  | wake hidle | take hidle | callBegin hidle => exact absurd hidle hpc
  | giveBack hpc hrpc =>
    obtain ⟨q, -, rfl⟩ := Option.map_eq_some_iff.mp hrpc
    rw [hpc]
    exact ⟨rfl, Nat.zero_lt_one⟩
  | handle hpc | respondOwnForeign hpc | respondOwn hpc | respondRes hpc | giveBackFull hpc
  | callClear hpc | callPublish hpc | callPublishFailed hpc | callWake hpc | callTimeout hpc
  | callEnd hpc | callReturn hpc =>
    rw [hpc]
    refine ⟨rfl, ?_⟩
    simp only [TaskPc.work]
    omega

/-- Inside a call or a request the request task can go on. -/
theorem task_enabled (d : Device cfg) (hpc : d.taskPc ≠ .idle) :
    ∃ a d', a ≠ .wake ∧ d.taskStep a = some d' := by
  let env : PublishEnv := ⟨true, .ok, 0⟩
  have hsome : ∀ a, (d.taskStep a).isSome = true → ∃ a d', a ≠ .wake ∧ d.taskStep a = some d' := by
    intro a h
    obtain ⟨d', hd'⟩ := Option.isSome_iff_exists.mp h
    refine ⟨a, d', ?_, hd'⟩
    rintro rfl
    cases taskStep_cases hd' with
    | wake hidle => exact hpc hidle
  cases htask : d.taskPc with
  | idle => exact absurd htask hpc
  | handling idx => exact hsome (.handle []) (by simp only [taskStep, htask]; rfl)
  | responding idx body =>
    refine hsome (.respondOwn env) ?_
    simp only [taskStep, htask]
    split <;> rfl
  | respondingRes idx body =>
    exact hsome (.respondRes env) (by simp only [taskStep, htask]; rfl)
  | returning idx =>
    refine hsome .giveBack ?_
    simp only [taskStep, htask]
    split <;> rfl
  | callClear c => exact hsome .callClear (by simp only [taskStep, htask]; rfl)
  | callPublish c =>
    refine hsome (.callPublish env) ?_
    simp only [taskStep, htask]
    split <;> rfl
  | callWait c =>
    by_cases hbit : d.bits.callDone = true
    · exact hsome .callWake (by simp only [taskStep, htask, hbit, if_true]; rfl)
    · refine hsome .callTimeout ?_
      simp only [taskStep, htask, hbit, Bool.false_eq_true, if_false]
      rfl
  | callEnd c ret => exact hsome .callEnd (by simp only [taskStep, htask]; rfl)
  | callParse c ret overflow len =>
    exact hsome .callReturn (by simp only [taskStep, htask]; rfl)

end Device

/-! ## While nothing arrives -/

namespace Client

variable {cfg : Config} {opts : ClientOptions} {s s' : Client cfg} {a : ClientAct}

/-- Nothing arrives with this step, nobody asks for a report or stops the client, and no wait of
the loop times out. -/
def Undisturbed (s : Client cfg) : ClientAct → Prop
  | .event _ | .requestReport | .stop => False
  | .wake _ => s.dev.bits.main ≠ .none
  | _ => True

instance (s : Client cfg) (a : ClientAct) : Decidable (Undisturbed s a) :=
  match a with
  | .event _ | .requestReport | .stop => inferInstanceAs (Decidable False)
  | .wake _ => inferInstanceAs (Decidable (_ ≠ _))
  | .mqtt | .boot _ | .deadline _ | .birth _ _ _ | .confirm _ | .syncTime _ | .checkUpdate | .task _
  | .tellUp _ | .tellDown | .drained | .due _ | .heartbeat | .report _ _ _ | .rearm _ =>
    inferInstanceAs (Decidable True)

/-- The request task is where the loop says. -/
structure Aligned (s : Client cfg) : Prop where
  idle : s.pc.working = false → s.dev.taskPc = .idle
  busy : s.pc.working = true → s.dev.taskPc ≠ .idle

/-- A step keeps the two in step. -/
theorem busy_step (hset : s.dev.Settled) (h : ClientStep opts s a s')
    (hbusy : s.pc.working = true → s.dev.taskPc ≠ .idle) (hw : s'.pc.working = true) :
    s'.dev.taskPc ≠ .idle := by
  cases h with
  | event hidle =>
    obtain ⟨-, htask, -⟩ := hset.event_frame _
    rw [htask]
    exact hbusy hw
  | mqtt hdev =>
    rw [taskPc_mqttStep (hset.mqttStep_cases hdev)]
    exact hbusy hw
  | requestReport | stop => exact hbusy hw
  | wake =>
    rw [(afterWait_drains s.dev.bits.main).2] at hw
    cases hw
  | tellUp =>
    rw [(afterConnected_drains s.woken).2] at hw
    cases hw
  | syncTime _ hdev | checkUpdate _ hdev =>
    cases Device.taskStep_cases hdev with
    | callBegin => rintro ⟨⟩
  | take _ hdev =>
    cases Device.taskStep_cases hdev with
    | take => rintro ⟨⟩
  | @task b dev dest hpc _ hdev =>
    intro htask
    dsimp only at hw htask
    rw [htask] at hw
    rcases hpc with ⟨-, rfl⟩ | ⟨-, rfl⟩ | ⟨-, rfl⟩ <;> cases hw
  | birth | due | heartbeat =>
    dsimp only at hw
    split at hw <;> cases hw
  | boot | deadline | confirm | clockSet | tellDown | drained | report | rearm => cases hw

theorem aligned_reach {g : Client cfg → ClientAct → Prop} (h : (client cfg opts).ReachBy g s) :
    s.Aligned := by
  refine ⟨(signalled_reach h).idle, ?_⟩
  refine h.invariant (I := fun s => s.pc.working = true → s.dev.taskPc ≠ .idle) ?_ ?_
  · rintro ⟨⟩
  · intro s a s' hs hI _ hst
    exact busy_step (Device.kept_reach (reach_dev hs)).settled (step_cases hst) hI

theorem work_afterWait (woken : EventBits) : (afterWait woken).work ≤ 22 := by
  unfold afterWait
  split_ifs <;> simp only [ClientPc.work] <;> omega

theorem work_afterConnected (woken : EventBits) : (afterConnected woken).work ≤ 7 := by
  unfold afterConnected
  split_ifs <;> simp only [ClientPc.work] <;> omega

/-- A step of the loop that leaves the device alone. -/
theorem work_loop (hdev : s'.dev = s.dev) (hpc : s'.pc.work < s.pc.work) : s'.work < s.work := by
  unfold work
  rw [hdev]
  omega

/-- **Step lemma**: every step while nothing arrives leaves less to do. -/
theorem work_step (hset : s.dev.Settled) (hin : s.Aligned) (hq : Undisturbed s a)
    (h : ClientStep opts s a s') : s'.work < s.work := by
  cases h with
  | event | requestReport | stop => exact hq.elim
  | mqtt hdev =>
    obtain ⟨hlt, htask⟩ := Device.work_mqtt (hset.mqttStep_cases hdev)
    unfold work
    rw [htask]
    dsimp only
    omega
  | wake hpc hidle =>
    have hround := work_afterWait s.dev.bits.main
    have hmain : s.dev.bits.clearMain.main = .none := rfl
    have hbits : s.dev.bits.main ≠ .none := hq
    unfold work Device.work
    dsimp only
    rw [hpc, hmain, if_pos rfl, if_neg hbits, show ClientPc.work (.wait _) = 0 from rfl]
    omega
  | @take dev hpc hdev =>
    cases Device.taskStep_cases hdev with
    | take hidle hready =>
      unfold work Device.work
      dsimp only
      rw [hpc, hidle, hready]
      simp only [ClientPc.work, TaskPc.work, List.length_cons]
      omega
  | syncTime hpc hdev | checkUpdate hpc hdev =>
    cases Device.taskStep_cases hdev with
    | callBegin hidle =>
      unfold work Device.work
      dsimp only
      rw [hpc, hidle]
      simp only [ClientPc.work, TaskPc.work, Rpc.beginCall]
      omega
  | @task b dev dest hpc hwake hdev =>
    have hbusy : s.dev.taskPc ≠ .idle := by
      refine hin.busy ?_
      rcases hpc with ⟨hpc, -⟩ | ⟨hpc, -⟩ | ⟨hpc, -⟩ <;> rw [hpc] <;> rfl
    obtain ⟨hwork, htask⟩ := Device.work_task (Device.taskStep_cases hdev) hbusy
    have hdest : dest.work ≤ s.pc.work := by
      rcases hpc with ⟨hpc, rfl⟩ | ⟨hpc, rfl⟩ | ⟨hpc, rfl⟩ <;> rw [hpc] <;> exact Nat.le_refl _
    unfold work
    dsimp only
    -- The loop stays, or goes on when the call or the request is over.
    split <;> omega
  | confirm hpc =>
    refine work_loop ?_ ?_
    · dsimp only [confirmRunningImage]
      split <;> rfl
    · rw [hpc]
      exact Nat.lt_succ_self _
  | tellUp hpc =>
    have hnext := work_afterConnected s.woken
    refine work_loop ?_ ?_
    · dsimp only [tell]
      split <;> rfl
    · rw [hpc]
      exact Nat.lt_succ_of_le hnext
  | tellDown hpc =>
    refine work_loop ?_ ?_
    · dsimp only [tell]
      split <;> rfl
    · rw [hpc]
      exact Nat.lt_succ_self _
  | birth hpc | due hpc | heartbeat hpc =>
    refine work_loop rfl ?_
    rw [hpc]
    dsimp only
    split <;> simp only [ClientPc.work] <;> omega
  | boot hpc | deadline hpc | clockSet hpc | drained hpc | report hpc | rearm hpc =>
    refine work_loop rfl ?_
    rw [hpc]
    simp only [ClientPc.work]
    omega

/-! ## Where nothing is left to do -/

/-- Every request has been handled, and every slot but the one that is being filled is free again;
the loop is in its wait with no bit set. -/
structure AtRest (s : Client cfg) : Prop where
  handled : s.dev.rpc.readySlots.items = []
  idle : s.dev.taskPc = .idle
  blocked : s.pc.blocked = true
  bits : s.dev.bits.main = .none
  mqtt : s.dev.mqttPc = .idle
  free : ∀ i < cfg.queueLen, i ∈ s.dev.rpc.freeSlots.items ∨ s.dev.mqtt.rxSlot = some i

/-- Inside a call or a request the loop can go on. -/
theorem working_enabled (opts : ClientOptions) (hpc : s.pc.working = true)
    (hbusy : s.dev.taskPc ≠ .idle) :
    ∃ b s', s.step opts (.task b) = some s' := by
  obtain ⟨b, d', hwake, hd'⟩ := Device.task_enabled s.dev hbusy
  have hstep : ∀ dest, s.step opts (.task b) = s.taskStep b dest →
      ∃ b s', s.step opts (.task b) = some s' := by
    intro dest heq
    have hsome : (s.step opts (.task b)).isSome = true := by
      rw [heq, taskStep]
      rw [hd']
      rfl
    obtain ⟨s', hs'⟩ := Option.isSome_iff_exists.mp hsome
    exact ⟨b, s', hs'⟩
  cases hpc' : s.pc with
  | inTime =>
    refine hstep .checkUpdate ?_
    unfold step
    rw [hpc']
    cases b <;> first | rfl | exact absurd rfl hwake
  | inCheck =>
    refine hstep .tellUp ?_
    unfold step
    rw [hpc']
    cases b <;> first | rfl | exact absurd rfl hwake
  | handling =>
    refine hstep .ready ?_
    unfold step
    rw [hpc']
    cases b <;> first | rfl | exact absurd rfl hwake
  | _ =>
    rw [hpc'] at hpc
    cases hpc

/-- Anywhere but in its wait the loop can go on. -/
theorem loop_enabled (opts : ClientOptions) (hin : s.Aligned) (hpc : s.pc.blocked = false) :
    ∃ a s', Undisturbed s a ∧ s.step opts a = some s' := by
  have hsome : ∀ a, Undisturbed s a → (s.step opts a).isSome = true →
      ∃ a s', Undisturbed s a ∧ s.step opts a = some s' := fun a hq h => by
    obtain ⟨s', hs'⟩ := Option.isSome_iff_exists.mp h
    exact ⟨a, s', hq, hs'⟩
  let env : PublishEnv := ⟨true, .ok, 0⟩
  by_cases hworking : s.pc.working = true
  · obtain ⟨b, s', hs'⟩ := working_enabled opts hworking (hin.busy hworking)
    exact ⟨.task b, s', trivial, hs'⟩
  · have hidle := hin.idle (Bool.eq_false_iff.mpr hworking)
    cases hpc' : s.pc with
    | wait ticks =>
      rw [hpc'] at hpc
      cases hpc
    | inTime | inCheck | handling =>
      rw [hpc'] at hworking
      exact absurd rfl hworking
    | boot => exact hsome (.boot 0) trivial (by simp only [step, hpc']; rfl)
    | deadline => exact hsome (.deadline 0) trivial (by simp only [step, hpc']; rfl)
    | birth => exact hsome (.birth env .sample []) trivial (by simp only [step, hpc']; rfl)
    | confirm => exact hsome (.confirm true) trivial (by simp only [step, hpc']; rfl)
    | syncTime => exact hsome (.syncTime true) trivial (by simp only [step, hpc']; rfl)
    | checkUpdate =>
      exact hsome .checkUpdate trivial (by simp only [step, hpc', Device.taskStep, hidle]; rfl)
    | tellUp => exact hsome (.tellUp 0) trivial (by simp only [step, hpc']; rfl)
    | tellDown => exact hsome .tellDown trivial (by simp only [step, hpc']; rfl)
    | due => exact hsome (.due 0) trivial (by simp only [step, hpc']; rfl)
    | heartbeat => exact hsome .heartbeat trivial (by simp only [step, hpc']; rfl)
    | report => exact hsome (.report env .sample []) trivial (by simp only [step, hpc']; rfl)
    | rearm => exact hsome (.rearm 0) trivial (by simp only [step, hpc']; rfl)
    | ready =>
      cases hrec : s.dev.rpc.readySlots.receive with
      | none =>
        have hempty := Fifo.receive_eq_none_iff.mp hrec
        exact hsome .drained trivial (by simp only [step, hpc', hempty, if_true]; rfl)
      | some p =>
        exact hsome (.task .take) trivial
          (by simp only [step, hpc', Device.taskStep, hidle, hrec]; rfl)

/-- A wait with a bit set returns. -/
theorem wake_enabled (opts : ClientOptions) (hin : s.Aligned) (hpc : s.pc.blocked = true)
    (hbits : s.dev.bits.main ≠ .none) :
    ∃ s', s.step opts (.wake false) = some s' := by
  cases hpc' : s.pc with
  | wait ticks =>
    have hidle : s.dev.taskPc = .idle := hin.idle (by rw [hpc']; rfl)
    rw [← Option.isSome_iff_exists]
    simp only [step, hpc', hbits, Device.taskStep, hidle, false_and, if_false]
    rfl
  | _ =>
    rw [hpc'] at hpc
    cases hpc

/-- Where the two tasks stop. -/
theorem atRest_of_stuck (h : (client cfg opts).Reach s)
    (hstuck : ∀ a, Undisturbed s a → s.step opts a = none) : s.AtRest := by
  have hin := aligned_reach h
  have hmqtt : s.dev.mqttPc = .idle :=
    Device.idle_of_mqttStep (Option.map_eq_none_iff.mp (hstuck .mqtt trivial))
  have hblocked : s.pc.blocked = true := by
    by_contra hpc
    obtain ⟨a, s', hq, hs'⟩ := loop_enabled opts hin (Bool.eq_false_iff.mpr hpc)
    rw [hstuck a hq] at hs'
    cases hs'
  have hplace : s.pc.working = false ∧ s.pc.drains = false := by
    revert hblocked
    cases s.pc <;> simp [ClientPc.blocked, ClientPc.working, ClientPc.drains]
  have hidle : s.dev.taskPc = .idle := hin.idle hplace.1
  have hbits : s.dev.bits.main = .none := by
    by_contra hne
    obtain ⟨s', hs'⟩ := wake_enabled opts hin hblocked hne
    rw [hstuck (.wake false) hne] at hs'
    cases hs'
  have hempty : s.dev.rpc.readySlots.items = [] := by
    rcases (signalled_reach h).seen hplace.2 with hempty | hbit | hpc
    · exact hempty
    · have hrequest := congrArg EventBits.request hbits
      exact absurd (hbit.symm.trans hrequest) (by decide)
    · rw [hmqtt] at hpc
      cases hpc
  refine ⟨hempty, hidle, hblocked, hbits, hmqtt, fun i hi => ?_⟩
  -- An index is in one place, and only two are left.
  have hcopies := (Device.kept_reach (reach_dev h)).copies i
  rw [hempty, hidle, if_pos hi] at hcopies
  by_cases hrx : s.dev.mqtt.rxSlot = some i
  · exact .inr hrx
  · left
    have hnone : s.dev.mqtt.rxSlot.toList.count i = 0 := by
      rw [List.count_eq_zero]
      intro hmem
      exact hrx (Option.mem_toList.mp hmem)
    have htask : (TaskPc.idle.slot).toList.count i = 0 := rfl
    rw [hnone, htask, List.count_nil] at hcopies
    exact List.count_pos_iff.mp (by omega)

/-- There is never more to do than this. -/
theorem work_le (s : Client cfg) : s.work ≤ 83 + 5 * cfg.queueLen := by
  have hmqtt : s.dev.mqttPc.work ≤ 33 := by
    cases s.dev.mqttPc <;> simp only [MqttPc.work] <;> omega
  have hpc : s.pc.work ≤ 22 := by
    cases s.pc <;> simp only [ClientPc.work] <;> omega
  have htask : s.dev.taskPc.work ≤ 5 := by
    cases s.dev.taskPc <;> simp only [TaskPc.work] <;> omega
  have hbits := Device.bits_work_le s.dev.bits
  have hready := s.dev.rpc.readySlots.bound
  unfold work Device.work
  omega

theorem variant_step {s s' : Client cfg} {a : ClientAct} (h : (client cfg opts).Reach s)
    (hq : Undisturbed s a) (hst : (client cfg opts).step s a = some s') :
    (client cfg opts).Reach s' ∧ s'.work < s.work :=
  ⟨.step h trivial hst, work_step (Device.kept_reach (reach_dev h)).settled (aligned_reach h) hq
    (step_cases hst)⟩

end Client

end SoulCloud
