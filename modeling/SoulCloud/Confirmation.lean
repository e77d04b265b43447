import SoulCloud.Client

/-!
# Confirming the running image (`sc_client::confirm_running_image`)

After an update the bootloader waits for the image to be marked valid and rolls back
at the next reset otherwise. `on_connected` marks it on the first connection, after
the birth report but whatever that report returned.

- `ReportedFirst`: no mark before a report that returned `ESP_OK`.
- `Client.birthGoesThrough`: the condition on the first birth report of a pending
  image, in terms of its text and of what the publish meets.
- `confirmed_after_report`: in runs that meet it, marks come after a report.
- `confirmed_unreported`: the outbox is full on the first connection.
-/

namespace SoulCloud

open Bytes

/-- The image is not marked valid before a status report has returned `ESP_OK`. -/
def ReportedFirst (calls : List ClientCall) : Prop :=
  ClientCall.markedValid ∉ calls.takeWhile (· != .reported .ok)

instance (calls : List ClientCall) : Decidable (ReportedFirst calls) :=
  inferInstanceAs (Decidable (_ ∉ _))

theorem ReportedFirst.append {calls : List ClientCall} {c : ClientCall} (h : ReportedFirst calls)
    (hc : c ≠ .markedValid ∨ ClientCall.reported .ok ∈ calls) : ReportedFirst (calls ++ [c]) := by
  intro hmem
  rw [List.takeWhile_append] at hmem
  split at hmem
  · rename_i hall
    have hself : calls.takeWhile (· != .reported .ok) = calls :=
      (List.takeWhile_prefix _).eq_of_length hall
    rcases List.mem_append.mp hmem with hold | hnew
    · rw [← hself] at hold
      exact h hold
    · rcases hc with hne | hok
      · have hcm := List.mem_singleton.mp ((List.takeWhile_prefix _).subset hnew)
        exact hne hcm.symm
      · rw [List.takeWhile_eq_self_iff] at hself
        exact absurd (hself _ hok) (by decide)
  · exact h hmem

namespace Client

variable {cfg : Config} {opts : ClientOptions} {s s' : Client cfg} {a : ClientAct}

/-- The birth report that precedes the confirmation of a pending image goes through: its
text fits, the device is still connected and the publish is accepted. Or an earlier report
has gone through. -/
def birthGoesThrough (opts : ClientOptions) (s : Client cfg) : ClientAct → Bool
  | .birth env msg extra =>
    decide (s.firstConnection = true → opts.markAppValid = true → s.imagePending = true →
      ClientCall.reported .ok ∈ s.calls ∨
        StatusMsg.Fits { msg with birth := true } extra ∧ s.dev.mqtt.isConnected = true ∧
          env.locked = true ∧ env.property = .ok ∧ 0 ≤ env.msgId)
  | _ => true

/-- Marks come after a report, now and in the step to come. -/
structure Confirming (opts : ClientOptions) (s : Client cfg) : Prop where
  first : ReportedFirst s.calls
  confirm : s.pc = .confirm → opts.markAppValid = true → s.imagePending = true →
    ClientCall.reported .ok ∈ s.calls

theorem confirming_step (h : ClientStep opts s a s') (hg : birthGoesThrough opts s a = true)
    (hs : Confirming opts s) : Confirming opts s' := by
  cases h with
  | event | mqtt | requestReport | stop => exact ⟨hs.first, hs.confirm⟩
  | boot | deadline | drained | rearm | clockSet | syncTime | checkUpdate | take =>
    exact ⟨hs.first, nofun⟩
  | wake =>
    refine ⟨hs.first, ?_⟩
    intro hpc
    dsimp only [afterWait] at hpc
    split at hpc
    · cases hpc
    · split at hpc <;> cases hpc
  | due | heartbeat =>
    refine ⟨hs.first, ?_⟩
    intro hpc
    dsimp only at hpc
    split at hpc <;> cases hpc
  | @birth env msg extra hpc =>
    refine ⟨hs.first.append (.inl nofun), ?_⟩
    intro hconf hopt hpending
    have hfirst : s.firstConnection = true := by
      dsimp only at hconf
      split at hconf
      · assumption
      · cases hconf
    -- The report has just returned `ESP_OK`, or one did before.
    rcases of_decide_eq_true hg hfirst hopt hpending with hold | hgo
    · exact List.mem_append_left _ hold
    · show ClientCall.reported .ok ∈ s.calls ++ [.reported _]
      rw [statusReport_ok_iff.mpr hgo]
      exact List.mem_append_right _ List.mem_cons_self
  | report => exact ⟨hs.first.append (.inl nofun), nofun⟩
  | @confirm stateRead hpc =>
    -- The mark itself: the report before it is known to have gone through.
    unfold confirmRunningImage
    split
    · rename_i hmark
      obtain ⟨hopt, -, hpending⟩ := hmark
      exact ⟨hs.first.append (.inr (hs.confirm hpc hopt hpending)), nofun⟩
    · exact ⟨hs.first, nofun⟩
  | task hpc =>
    refine ⟨hs.first, ?_⟩
    intro hconf
    dsimp only at hconf
    rcases hpc with ⟨hpc, rfl⟩ | ⟨hpc, rfl⟩ | ⟨hpc, rfl⟩ <;> rw [hpc] at hconf <;>
      split at hconf <;> cases hconf
  | tellUp =>
    unfold tell
    constructor
    · split
      · exact hs.first.append (.inl nofun)
      · exact hs.first
    · intro hpc
      dsimp only [afterConnected] at hpc
      split at hpc <;> cases hpc
  | tellDown =>
    unfold tell
    refine ⟨?_, nofun⟩
    split
    · exact hs.first.append (.inl nofun)
    · exact hs.first

/-- **Confirmed after a report.** In every run whose birth reports go through while an image
is about to be confirmed, the image is marked valid only after a status report of this boot
has returned `ESP_OK`. -/
theorem confirmed_after_report (cfg : Config) (opts : ClientOptions) {s : Client cfg}
    (h : (client cfg opts).ReachBy (fun s a => birthGoesThrough opts s a = true) s) :
    ReportedFirst s.calls := by
  have hconf : Confirming opts s := by
    refine h.invariant (I := Confirming opts) ⟨?_, ?_⟩ ?_
    · intro hmem
      cases hmem
    · intro hpc
      cases hpc
    · intro s a s' _ hs hg hst
      exact confirming_step (step_cases hst) hg hs
  exact hconf.first

/-- The first connection, with what esp-mqtt answers to the birth report. -/
def confirmRun (msgId : Int) : List ClientAct :=
  [.boot 0, .event (.connected true), .mqtt, .deadline 0, .wake false,
    .birth ⟨true, .ok, msgId⟩ .sample [], .confirm true]

/-- A birth report that goes through is followed by the mark. -/
theorem confirmed_after_report_sample :
    ∃ s, (client .sample .sample).ReachBy (fun s a => birthGoesThrough .sample s a = true) s ∧
      ClientCall.markedValid ∈ s.calls ∧ ReportedFirst s.calls := by
  have hrun : ((client .sample .sample).runBy (fun s a => birthGoesThrough .sample s a = true)
      (client .sample .sample).init (confirmRun 1)).map
      (fun s => decide (ClientCall.markedValid ∈ s.calls)) = some true := by
    decide +kernel
  obtain ⟨s, hs, hcheck⟩ := Lts.exists_reachBy_of_runBy hrun
  exact ⟨s, hs, of_decide_eq_true hcheck, confirmed_after_report .sample .sample hs⟩

/-- The outbox is full when the birth report is published, and the image is marked valid. -/
theorem confirmed_unreported :
    ∃ s, (client .sample .sample).run (confirmRun (-2)) = some s ∧ ¬ ReportedFirst s.calls := by
  have hrun : ((client .sample .sample).run (confirmRun (-2))).map
      (fun s => decide (ReportedFirst s.calls)) = some false := by
    decide +kernel
  obtain ⟨s, hs, hcheck⟩ := Option.map_eq_some_iff.mp hrun
  exact ⟨s, hs, of_decide_eq_false hcheck⟩

end Client

end SoulCloud
