import SoulCloud.Codec
import SoulCloud.Reports
import SoulCloud.ShellAnswer
import SoulCloud.Status

/-!
# Progress events (`sc_codec::encode_ota_event`)

`sc_ota::report` encodes its event into 256 bytes and says nothing when that fails. The task id
is limited to 39 bytes where the parameters are decoded, and may take six times as many here.

- `encodeOtaEvent`: the encoder.
- `Reportable`: the events that an update can report, by the calls of `report`.
- `reporting_reach`: no run reports any other.
- `events_fit_iff`: all of them are encoded exactly when the escaped task id leaves room for the
  longest error text.
-/

namespace SoulCloud

open Bytes Json

/-! ## The encoder -/

/-- The writer calls of `encode_ota_event`. -/
def OtaEvent.calls (evt : OtaEvent) : List WriterCall :=
  ([.beginObject none,
    .addStr (some (ascii "taskId")) (some evt.taskId),
    .addStr (some (ascii "state")) (some evt.state.text)] : List WriterCall) ++
  (if 0 ≤ evt.progress then [.addInt (some (ascii "progress")) evt.progress] else []) ++
  (match evt.error with
    | some error => [.addStr (some (ascii "error")) (some error)]
    | none => []) ++
  [.endObject]

/-- `sc_codec::encode_ota_event` into a buffer of `cap` bytes. -/
def encodeOtaEvent (evt : OtaEvent) (cap : Nat) : Except EspErr Bytes :=
  finish ((JsonWriter.init cap).run evt.calls)

/-- The size of `body` in `sc_ota::report`. -/
def eventCap : Nat := 256

/-- `report` publishes the event, connected or not. -/
def OtaEvent.Encodes (evt : OtaEvent) : Prop := ∃ body, encodeOtaEvent evt eventCap = .ok body

/-- The member behind the state: 26 bytes and its key surround the task id, the state and its
value. -/
theorem encodes_iff {evt : OtaEvent} {key : Bytes} {leaf : Leaf}
    (h : evt.calls = (Written.object (.cons (ascii "taskId") (.leaf (.str (some evt.taskId)))
      (.cons (ascii "state") (.leaf (.str (some evt.state.text)))
        (.cons key (.leaf leaf) .nil)))).calls none) :
    evt.Encodes ↔
      26 + (evt.taskId.flatMap JsonText.escape).length + evt.state.text.length +
        (JsonText.quoted key).length + leaf.value.bytes.length < eventCap := by
  have hkeys : (JsonText.quoted (ascii "taskId")).length = 8 ∧
      (JsonText.quoted (ascii "state")).length = 7 := by decide
  have htask : (Written.leaf (.str (some evt.taskId))).value.bytes =
      34 :: (evt.taskId.flatMap JsonText.escape ++ [34]) := quoted_escapeStr evt.taskId
  have hstate : (Written.leaf (.str (some evt.state.text))).value.bytes =
      34 :: (evt.state.text ++ [34]) := by
    cases evt.state <;> decide
  have hleaf : (Written.leaf leaf).value.bytes = leaf.value.bytes := rfl
  have hok : evt.Encodes ↔ ((JsonWriter.init eventCap).run evt.calls).ok = true := by
    rw [OtaEvent.Encodes, encodeOtaEvent, finish]
    split_ifs with hok
    · exact ⟨fun _ => hok, fun _ => ⟨_, rfl⟩⟩
    · refine ⟨?_, fun h => absurd h hok⟩
      rintro ⟨body, hbody⟩
      cases hbody
  obtain ⟨hwritten, -⟩ := JsonWriter.reset_run_written
    (⟨.zero eventCap, 0, id, false, 0, 0⟩ : JsonWriter eventCap) (.object
      (.cons (ascii "taskId") (.leaf (.str (some evt.taskId)))
        (.cons (ascii "state") (.leaf (.str (some evt.state.text)))
          (.cons key (.leaf leaf) .nil)))) (by decide)
  rw [hok, h, JsonWriter.init, hwritten, bytes_triple, htask, hstate, hleaf]
  simp only [List.length_cons, List.length_append, List.length_nil, hkeys]
  constructor
  · rintro ⟨hlen, -⟩
    omega
  · intro hlen
    refine ⟨by omega, ?_⟩
    show max 0 (max 0 (max 0 0)) + 1 ≤ maxDepth
    decide

/-- An event with a progress. -/
theorem encodes_progress_iff {taskId : Bytes} {state : UpdateState} {progress : Int}
    (h : 0 ≤ progress) :
    (⟨taskId, state, progress, none⟩ : OtaEvent).Encodes ↔
      36 + (taskId.flatMap JsonText.escape).length + state.text.length +
        (decimalInt progress).length < eventCap := by
  have hkey : (JsonText.quoted (ascii "progress")).length = 10 := by decide
  have hcalls : (⟨taskId, state, progress, none⟩ : OtaEvent).calls =
      (Written.object (.cons (ascii "taskId") (.leaf (.str (some taskId)))
        (.cons (ascii "state") (.leaf (.str (some state.text)))
          (.cons (ascii "progress") (.leaf (.int progress)) .nil)))).calls none := by
    rw [OtaEvent.calls, if_pos h]
    rfl
  rw [encodes_iff hcalls, hkey, Leaf.value, Value.bytes, bytes_wholeNumber]
  dsimp only
  omega

/-- An event with an error text. -/
theorem encodes_failed_iff {taskId error : Bytes} (herror : PlainText error) :
    (⟨taskId, .failed, -1, some error⟩ : OtaEvent).Encodes ↔
      (taskId.flatMap JsonText.escape).length + error.length ≤ 214 := by
  have hkey : (JsonText.quoted (ascii "error")).length = 7 ∧
      UpdateState.failed.text.length = 6 := by decide
  have hcalls : (⟨taskId, .failed, -1, some error⟩ : OtaEvent).calls =
      (Written.object (.cons (ascii "taskId") (.leaf (.str (some taskId)))
        (.cons (ascii "state") (.leaf (.str (some UpdateState.failed.text)))
          (.cons (ascii "error") (.leaf (.str (some error))) .nil)))).calls none := rfl
  have hvalue : (Leaf.str (some error)).value.bytes = 34 :: (error ++ [34]) := by
    show quoted (escapeStr error) = _
    rw [quoted_escapeStr, JsonText.quoted, flatMap_escape_of_plain herror]
    rfl
  rw [encodes_iff hcalls, hkey.1, hkey.2, hvalue, eventCap, List.length_cons, List.length_append]
  dsimp only [List.length_cons, List.length_nil]
  omega

/-! ## What an update reports -/

/-- The error texts of a failed update: its own, and the names of error codes. -/
inductive FailureText (port : OtaPort) : Bytes → Prop
  | noPartition : FailureText port (ascii "no OTA partition")
  | tooLarge : FailureText port (ascii "image larger than the OTA partition")
  | cancelled : FailureText port (ascii "cancelled")
  | mismatch : FailureText port (ascii "SHA-256 mismatch")
  | errName {e : EspErr} (h : e ≠ .ok) : FailureText port (port.errName e)

/-- The events that `run` and `download_from` report, by their calls of `report`. -/
inductive Reportable (port : OtaPort) (taskId : Bytes) : OtaEvent → Prop
  | downloading {progress : Int} (h : 0 ≤ progress ∧ progress ≤ 100) :
      Reportable port taskId ⟨taskId, .downloading, progress, none⟩
  | verifying : Reportable port taskId ⟨taskId, .verifying, 100, none⟩
  | rebooting : Reportable port taskId ⟨taskId, .rebooting, 100, none⟩
  | failed {error : Bytes} (h : FailureText port error) :
      Reportable port taskId ⟨taskId, .failed, -1, some error⟩

/-- The event that a call reports. -/
def OtaCall.event? : OtaCall → Option OtaEvent
  | .report evt => some evt
  | _ => none

/-- The events that were reported, in order. -/
def reportedEvents (calls : List OtaCall) : List OtaEvent := calls.filterMap OtaCall.event?

namespace Ota

variable {port : OtaPort} {s s' : Ota} {a : OtaAct}

/-- What the attempt has reported can be reported, and where it aborts it has failed. -/
structure Reporting (port : OtaPort) (s : Ota) : Prop where
  reported : ∀ evt ∈ reportedEvents s.calls, Reportable port s.params.taskId.bytes evt
  failing : ∀ ret, s.pc = .abort ret → ret ≠ .ok

/-- A step that adds these calls, and with them these events. -/
theorem Reporting.add {new : List OtaCall} {evts : List OtaEvent} (h : Reporting port s)
    (hparams : s'.params = s.params) (hcalls : s'.calls = s.calls ++ new)
    (hnew : reportedEvents new = evts)
    (hevts : ∀ evt ∈ evts, Reportable port s.params.taskId.bytes evt)
    (hpc : ∀ ret, s'.pc = .abort ret → ret ≠ .ok) : Reporting port s' where
  reported := by
    rw [hparams, hcalls, reportedEvents, List.filterMap_append, List.forall_mem_append]
    refine ⟨h.reported, ?_⟩
    rw [← hnew] at hevts
    exact hevts
  failing := hpc

/-- A step that reports nothing. -/
theorem Reporting.quiet (h : Reporting port s) (hparams : s'.params = s.params)
    (hcalls : s'.calls = s.calls) (hpc : ∀ ret, s'.pc = .abort ret → ret ≠ .ok) :
    Reporting port s' :=
  h.add hparams (hcalls.trans (List.append_nil _).symm) rfl nofun hpc

/-- A step that reports a failure, after these other calls. -/
theorem Reporting.fail {t : Ota} {ret : EspErr} {error : Bytes} {calls : List OtaCall}
    (h : Reporting port s) (herror : FailureText port error) (hparams : t.params = s.params)
    (hcalls : t.calls = s.calls ++ calls) (hquiet : reportedEvents calls = []) :
    Reporting port (t.failWith ret error) := by
  have hall : (t.failWith ret error).calls =
      s.calls ++ (calls ++ [.report ⟨t.params.taskId.bytes, .failed, -1, some error⟩]) := by
    rw [← List.append_assoc, ← hcalls]
    rfl
  refine h.add hparams hall rfl ?_ nofun
  rw [reportedEvents, List.filterMap_append, ← reportedEvents, hquiet, hparams]
  exact List.forall_mem_singleton.mpr (.failed herror)

theorem afterTransfer_not_abort (d : Attempt) (readLen : Int) (ret : EspErr) :
    afterTransfer d readLen ≠ .abort ret := by
  rcases afterTransfer_cases d readLen with ⟨d', h⟩ | ⟨e, -, h⟩ <;> rw [h] <;> nofun

/-- The text of an aborted update. -/
theorem failureText_abort {ret : EspErr} (h : ret ≠ .ok) :
    FailureText port (abortText port s ret) := by
  rw [abortText]
  split_ifs
  · exact .cancelled
  · exact .errName h

/-- **Step lemma**: the events of every call of `report`. -/
theorem reporting_step (hs : Reporting port s)
    (hpercents : ∀ x ∈ percents s'.calls, 0 ≤ x ∧ x ≤ 100) (h : OtaStep port s a s') :
    Reporting port s' := by
  cases h with
  | startRunning | cancelRefused => exact hs
  | start =>
    refine ⟨nofun, fun ret hpc => ?_⟩
    dsimp only [launch] at hpc
    split_ifs at hpc
  | cancel => exact hs.quiet rfl rfl hs.failing
  | cancelStore => exact hs.add rfl rfl rfl nofun hs.failing
  | noPartition => exact hs.fail .noPartition rfl (List.append_nil _).symm rfl
  | tooLarge => exact hs.fail .tooLarge rfl (List.append_nil _).symm rfl
  | getPartition =>
    refine hs.add rfl rfl rfl (List.forall_mem_singleton.mpr (.downloading ?_)) nofun
    decide
  | otaBegin | otaEnd | restart => exact hs.add rfl rfl rfl nofun nofun
  | otaBeginFailed _ hret => exact hs.fail (.errName hret) rfl (List.append_nil _).symm rfl
  | @prepareFailed buffer setup ret _ hret =>
    refine hs.quiet rfl rfl ?_
    rintro ret' ⟨⟩
    rcases hret with ⟨-, rfl⟩ | ⟨-, -, rfl⟩ <;> decide
  | finishFailed _ hret =>
    refine hs.quiet rfl rfl ?_
    rintro ret' ⟨⟩
    exact hret
  | prepare | loopDone | loopCancelled | loop | connect | refused | fetch | checkDone | check
  | readEnd | read | writeFailed | finish | clear => exact hs.quiet rfl rfl nofun
  | connectFailed | close =>
    refine hs.quiet rfl rfl ?_
    intro ret
    dsimp only
    exact fun hpc => absurd hpc (afterTransfer_not_abort _ _ ret)
  | @write d total data hashed now percent _ _ =>
    obtain ⟨_, _, calls, heq, hcalls⟩ := reportProgress_spec
      { s with written := s.written ++ data, hash := s.hash.update data hashed } percent now
    rw [heq] at hpercents ⊢
    rcases hcalls with rfl | rfl
    · exact hs.quiet rfl rfl nofun
    · refine hs.add rfl rfl rfl (List.forall_mem_singleton.mpr (.downloading ?_)) nofun
      refine hpercents percent ?_
      show percent ∈ percents (s.calls ++ _)
      rw [percents, List.filterMap_append]
      exact List.mem_append_right _ (List.mem_singleton_self _)
  | @abort ret hpc =>
    exact hs.fail (failureText_abort (hs.failing ret hpc)) rfl rfl rfl
  | verify => exact hs.add rfl rfl rfl (List.forall_mem_singleton.mpr .verifying) nofun
  | mismatch =>
    refine hs.add rfl s.calls_mismatch rfl ?_ nofun
    exact List.forall_mem_cons.mpr ⟨.verifying, List.forall_mem_singleton.mpr (.failed .mismatch)⟩
  | otaEndFailed _ hret => exact hs.fail (.errName hret) rfl rfl rfl
  | setBoot =>
    exact hs.add rfl (List.append_assoc _ _ _) rfl (List.forall_mem_singleton.mpr .rebooting) nofun
  | setBootFailed _ hret => exact hs.fail (.errName hret) rfl rfl rfl

theorem reporting_reach (h : (ota port).Reach s) : Reporting port s := by
  refine h.invariant ⟨nofun, nofun⟩ ?_
  intro s a s' hreach hs _ hst
  exact reporting_step hs (attempt_reports port (.step hreach trivial hst)).2.2 (otaStep_cases hst)

end Ota

/-! ## Which events fit -/

section Fits

variable {port : OtaPort}

/-- Names of error codes: at most 40 printable ASCII characters that are not escaped. -/
def ShortNames (port : OtaPort) : Prop :=
  ∀ e, (port.errName e).length ≤ 40 ∧ PlainText (port.errName e)

/-- The escaped task id leaves room for the longest error texts. -/
def LeavesRoom (port : OtaPort) (taskId : Bytes) : Prop :=
  (taskId.flatMap JsonText.escape).length + 35 ≤ 214 ∧
    ∀ e, e ≠ .ok → (taskId.flatMap JsonText.escape).length + (port.errName e).length ≤ 214

theorem FailureText.plain {error : Bytes} (h : FailureText port error) (hnames : ShortNames port) :
    PlainText error := by
  cases h with
  | errName => exact (hnames _).2
  | _ => decide

/-- The longest of the update's own texts has 35 bytes. -/
theorem LeavesRoom.failure {taskId error : Bytes} (h : LeavesRoom port taskId)
    (herror : FailureText port error) :
    (taskId.flatMap JsonText.escape).length + error.length ≤ 214 := by
  obtain ⟨hown, hname⟩ := h
  cases herror with
  | errName he => exact hname _ he
  | noPartition | tooLarge | cancelled | mismatch =>
    refine (Nat.add_le_add_left ?_ _).trans hown
    decide

/-- The other events are shorter. -/
theorem encodes_of_state {taskId : Bytes} {state : UpdateState} {progress : Int}
    (h : (taskId.flatMap JsonText.escape).length + 35 ≤ 214) (hlow : 0 ≤ progress)
    (hhigh : progress ≤ 100) : (⟨taskId, state, progress, none⟩ : OtaEvent).Encodes := by
  have hdigits : (decimalInt progress).length ≤ 3 := by
    rw [decimalInt, if_neg (by omega)]
    exact decimal_length_of_lt (by decide) (by omega)
  have hstate : state.text.length ≤ 11 := by
    cases state <;> decide
  rw [encodes_progress_iff hlow, eventCap]
  omega

theorem encodes_of_room {taskId : Bytes} {evt : OtaEvent} (hnames : ShortNames port)
    (hroom : LeavesRoom port taskId) (h : Reportable port taskId evt) : evt.Encodes := by
  cases h with
  | downloading hrange => exact encodes_of_state hroom.1 hrange.1 hrange.2
  | verifying | rebooting => exact encodes_of_state hroom.1 (by decide) (by decide)
  | failed herror => exact (encodes_failed_iff (herror.plain hnames)).mpr (hroom.failure herror)

theorem room_of_encodes {taskId : Bytes} (hnames : ShortNames port)
    (h : ∀ evt, Reportable port taskId evt → evt.Encodes) : LeavesRoom port taskId := by
  have hfailed : ∀ {error}, FailureText port error →
      (taskId.flatMap JsonText.escape).length + error.length ≤ 214 := fun herror =>
    (encodes_failed_iff (herror.plain hnames)).mp (h _ (.failed herror))
  exact ⟨hfailed .tooLarge, fun e he => hfailed (.errName he)⟩

/-- **Every event of an accepted update is encoded** exactly when the escaped task id and the
longest error text take at most 214 bytes together, and in no run does the update report any
other event. -/
theorem events_fit_iff (port : OtaPort) (hnames : ShortNames port) {r : JsonReader}
    {object : Option Nat} {params : OtaParams}
    (haccepted : r.decodeOtaParams object = some params) :
    ((∀ evt, Reportable port params.taskId.bytes evt → evt.Encodes) ↔
      LeavesRoom port params.taskId.bytes) ∧
    ∀ s, (ota port).Reach s → s.params = params →
      ∀ evt ∈ reportedEvents s.calls, Reportable port params.taskId.bytes evt := by
  constructor
  · exact ⟨room_of_encodes hnames, fun hroom evt h => encodes_of_room hnames hroom h⟩
  · rintro s hs rfl
    exact (Ota.reporting_reach hs).reported

end Fits

/-- A request for an update under this task id. -/
def updateRequest (taskId : Bytes) : JsonReader :=
  ((JsonReader.new 32).parse (ascii "\x7b\"url\":\"https://files/1.bin\",\"sha256\":\"" ++
    OtaParams.sample.sha256.bytes ++ ascii "\",\"size\":3,\"version\":\"1.1\",\"taskId\":\"" ++
    taskId ++ ascii "\"\x7d")).2

/-- A short task id leaves room for the longest text. -/
theorem events_fit_sample :
    OtaEvent.Encodes ⟨OtaParams.sample.taskId.bytes, .failed, -1,
      some (ascii "image larger than the OTA partition")⟩ := by
  have hname : (ascii "ESP_FAIL").length ≤ 40 ∧ PlainText (ascii "ESP_FAIL") := by decide
  have haccepted : (updateRequest (ascii "t1")).decodeOtaParams (some 0) = some .sample := by
    decide +kernel
  have hroom : (ascii "t1").length + (ascii "ESP_FAIL").length ≤ 214 := by decide
  obtain ⟨hencodes, -⟩ := events_fit_iff .sample (fun _ => hname) haccepted
  exact hencodes.mpr ⟨by decide, fun _ _ => hroom⟩ _ (.failed .tooLarge)

/-- A task id of 39 control characters is accepted, and no event of its update is encoded. -/
theorem events_left_out :
    ¬ ∀ (r : JsonReader) (params : OtaParams), r.decodeOtaParams (some 0) = some params →
      ∀ evt, Reportable .sample params.taskId.bytes evt → evt.Encodes := by
  intro hall
  let long : OtaParams :=
    { OtaParams.sample with taskId := ⟨List.replicate 39 1, by decide, by decide⟩ }
  have haccepted : (updateRequest ((List.replicate 39 (ascii "\\u0001")).flatten)).decodeOtaParams
      (some 0) = some long := by
    decide +kernel
  have hreport : Reportable .sample long.taskId.bytes ⟨long.taskId.bytes, .downloading, 0, none⟩ :=
    .downloading (by decide)
  have hencodes := hall _ _ haccepted _ hreport
  rw [encodes_progress_iff (by decide)] at hencodes
  revert hencodes
  decide +kernel

end SoulCloud
