import SoulCloud.Config
import SoulCloud.Lib.Lts
import SoulCloud.Lib.Word

/-!
# Firmware updates (`sc_ota`)

The update task beside the request task. `sc_ota::start` creates the update task,
which runs `run`, `download` and `download_from` and then clears `running`;
`sc_ota::cancel` runs on the request task. `ota port` interleaves them. A step is
one call of the SDK with everything it answers, or one load or store of
`running` or `cancel_requested`; code between two of these belongs to the step
before it.

- `OtaPort` is what an update is built against: the HTTP buffer, SHA-256 and the
  names of error codes.
- `Ota.written` is what `esp_ota_write` has taken on the handle, `Ota.hash` the
  PSA operation, `Ota.calls` what the attempt has shown to the outside, in order.
- `OtaStep` lists what each step does; `otaStep_cases` is the inversion lemma.

The server is not part of the system: a label brings whatever it answers. A
server that holds one image is a condition on labels (`Download.lean`).
-/

namespace SoulCloud

open Bytes Word

/-- `sc_ota_params`. -/
structure OtaParams where
  url : CStr 384
  /-- Hex of the image's SHA-256. -/
  sha256 : CStr 65
  size : Nat
  size_lt : size < 2 ^ 32 := by decide
  version : CStr 33
  taskId : CStr 40
  deriving DecidableEq

/-- The zero-initialised parameters. -/
def OtaParams.empty : OtaParams where
  url := ⟨[], by decide, by decide⟩
  sha256 := ⟨[], by decide, by decide⟩
  size := 0
  version := ⟨[], by decide, by decide⟩
  taskId := ⟨[], by decide, by decide⟩

/-- What an update is built against. -/
structure OtaPort where
  /-- `CONFIG_SOULCLOUD_OTA_HTTP_BUFFER`, an `int` of Kconfig. -/
  httpBuffer : Nat
  httpBuffer_lt : httpBuffer < 2 ^ 31 := by decide
  /-- The SHA-256 that PSA computes. -/
  sha256 : Bytes → Buf 32
  /-- `esp_err_to_name`. -/
  errName : EspErr → Bytes

/-- The partition an update goes to. Partitions are made of whole flash sectors. -/
structure Partition where
  size : Nat
  size_lt : size < 2 ^ 32 := by decide
  sectors : 4096 ∣ size := by decide

theorem Partition.size_le (p : Partition) : p.size ≤ 2 ^ 32 - 4096 := by
  have hlt := p.size_lt
  have hsec := p.sectors
  omega

/-- The state strings of the progress events. -/
inductive UpdateState where
  | downloading
  | verifying
  | rebooting
  | failed
  deriving DecidableEq, Repr

/-- The string itself. -/
def UpdateState.text : UpdateState → Bytes
  | .downloading => ascii "downloading"
  | .verifying => ascii "verifying"
  | .rebooting => ascii "rebooting"
  | .failed => ascii "failed"

/-- `sc_ota_event`; a progress of -1 is left out of the message. -/
structure OtaEvent where
  taskId : Bytes
  state : UpdateState
  progress : Int
  error : Option Bytes
  deriving DecidableEq, Repr

/-- What an attempt shows to the outside. -/
inductive OtaCall where
  /-- `sc_ota::report`, whether or not the publish in it succeeds. -/
  | report (evt : OtaEvent)
  /-- `esp_ota_begin` that opened a handle. -/
  | otaBegin
  | otaAbort
  | otaEnd
  | setBootPartition
  | espRestart
  /-- `sc_ota::cancel` returned `ESP_OK`. -/
  | cancelAccepted
  deriving DecidableEq, Repr

/-- A PSA hash operation: the bytes passed to `psa_hash_update`, and whether every
call so far succeeded (a failed one leaves the operation in its error state). -/
structure HashOp where
  fed : Bytes
  valid : Bool

/-- `psa_hash_update`. -/
def HashOp.update (h : HashOp) (data : Bytes) (succeeds : Bool) : HashOp :=
  ⟨h.fed ++ data, h.valid && succeeds⟩

/-- The locals of `download`. -/
structure Attempt where
  offset : Nat
  attempts : Nat

/-- Where the update task is. `total` is `total_read`. -/
inductive OtaPc where
  /-- No update task. -/
  | idle
  | getPartition
  | otaBegin
  /-- `download`, about to allocate its buffer and set up the hash. -/
  | prepare
  /-- About to test `offset < params.size` and `cancel_requested`. -/
  | loop (d : Attempt)
  /-- `download_from`, about to create an HTTP client. -/
  | connect (d : Attempt)
  /-- About to open the connection and fetch the headers. -/
  | fetch (d : Attempt)
  /-- About to test the condition of the read loop. -/
  | check (d : Attempt) (total : Int)
  | read (d : Attempt) (total : Int)
  | write (d : Attempt) (total : Int) (data : Bytes)
  | close (d : Attempt) (total : Int)
  /-- `download` after its loop, with the result it will return. -/
  | finish (ret : EspErr)
  /-- `download` has failed: about to abort the handle. -/
  | abort (ret : EspErr)
  /-- `download` has returned `ESP_OK` with this digest. -/
  | verify (digest : Buf 32)
  | otaEnd
  | setBoot
  /-- `run` before `esp_restart`. -/
  | restart
  /-- The device has restarted. -/
  | restarted
  /-- `run` has returned: about to clear `running`. -/
  | ended (ret : EspErr)

/-- The attempt may still make its partition the boot partition. -/
def OtaPc.beforeBoot : OtaPc → Bool
  | .idle | .restart | .restarted | .ended _ => false
  | _ => true

/-- `sc_ota`, its update task and its request task. -/
structure Ota where
  params : OtaParams
  running : Bool
  cancelRequested : Bool
  lastProgress : Int
  lastReportUs : Int
  pc : OtaPc
  /-- The request task is in `cancel`, about to store `cancel_requested`. -/
  cancelling : Bool
  written : Bytes
  hash : HashOp
  calls : List OtaCall

namespace Ota

def init : Ota where
  params := .empty
  running := false
  cancelRequested := false
  lastProgress := -1
  lastReportUs := 0
  pc := .idle
  cancelling := false
  written := []
  hash := ⟨[], true⟩
  calls := []

/-- `MAX_ATTEMPTS`. -/
def maxAttempts : Nat := 5

/-- `REPORT_INTERVAL_US`. -/
def reportIntervalUs : Int := 2000000

/-! ## The request task -/

/-- The result of `sc_ota::start`. -/
def startRet (s : Ota) (params : OtaParams) (created : Bool) : EspErr :=
  if s.running then
    if params.taskId = s.params.taskId then .ok else .invalidState
  else if created then .ok else .noMem

/-- `sc_ota::start` once it has exchanged `running`. -/
def launch (s : Ota) (params : OtaParams) (created : Bool) : Ota :=
  { s with
    params
    running := created
    cancelRequested := false
    lastProgress := -1
    lastReportUs := 0
    pc := if created then .getPartition else .idle
    written := []
    hash := ⟨[], true⟩
    calls := [] }

/-- `sc_ota::start`. -/
def start (s : Ota) (params : OtaParams) (created : Bool) : Ota :=
  if s.running then s else s.launch params created

/-- `sc_ota::cancel` up to its store. -/
def cancel (s : Ota) (taskId : Bytes) : Ota :=
  if ¬ s.running ∨ taskId ≠ s.params.taskId.bytes then s else { s with cancelling := true }

/-! ## The update task -/

/-- `sc_ota::report`. -/
def report (s : Ota) (state : UpdateState) (progress : Int) (error : Option Bytes) : Ota :=
  { s with calls := s.calls ++ [.report ⟨s.params.taskId.bytes, state, progress, error⟩] }

/-- A call that only leaves its mark. -/
def call (s : Ota) (c : OtaCall) : Ota := { s with calls := s.calls ++ [c] }

/-- Report a failure and return. -/
def failWith (s : Ota) (ret : EspErr) (error : Bytes) : Ota :=
  { s.report .failed (-1) (some error) with pc := .ended ret }

/-- The `Range` header of a resumed download. -/
def rangeHeader (offset : Nat) : Bytes :=
  snprintf 32 (ascii "bytes=" ++ decimal offset ++ ascii "-")

/-- The header sent with a request, if any. -/
def requestRange (d : Attempt) : Option Bytes :=
  if 0 < d.offset then some (rangeHeader d.offset) else none

/-- A resumed download must get 206; 200 would restart at byte 0. -/
def statusOk (d : Attempt) (status : Int) : Prop :=
  if d.offset = 0 then status = 200 else status = 206

instance (d : Attempt) (status : Int) : Decidable (statusOk d status) :=
  inferInstanceAs (Decidable (if d.offset = 0 then status = 200 else status = 206))

/-- `offset + total_read < params.size`. -/
def unread (s : Ota) (d : Attempt) (total : Int) : Prop :=
  toSizeT (d.offset + total) < s.params.size

instance (s : Ota) (d : Attempt) (total : Int) : Decidable (s.unread d total) :=
  inferInstanceAs (Decidable (_ < _))

/-- `want`. -/
def want (port : OtaPort) (s : Ota) (d : Attempt) (total : Int) : Nat :=
  min (toSizeT (s.params.size - d.offset - total)) port.httpBuffer

/-- `progress`, in percent. -/
def progress (s : Ota) (d : Attempt) (total : Int) : Int :=
  ((toSizeT (d.offset + total) * 100 / s.params.size : Nat) : Int)

/-- The report after a write, at most one every two seconds. -/
def reportProgress (s : Ota) (progress now : Int) : Ota :=
  if progress ≠ s.lastProgress ∧ reportIntervalUs ≤ now - s.lastReportUs then
    { s.report .downloading progress none with lastProgress := progress, lastReportUs := now }
  else s

/-- What `download_from` returns for a total. -/
def transferRet (total : Int) : Int := if total = 0 then -1 else total

/-- `download` with the result of `download_from`: go on, retry or give up. -/
def afterTransfer (d : Attempt) (readLen : Int) : OtaPc :=
  if 0 < readLen then .loop ⟨toSizeT (d.offset + readLen), 0⟩
  else if readLen < -1 then .finish .invalidResponse
  else if maxAttempts ≤ d.attempts + 1 then .finish .timeout
  else .loop ⟨d.offset, d.attempts + 1⟩

/-- After a transfer `download` is at its loop condition again, or fails. -/
theorem afterTransfer_cases (d : Attempt) (readLen : Int) :
    (∃ d', afterTransfer d readLen = .loop d') ∨
      ∃ ret, ret ≠ .ok ∧ afterTransfer d readLen = .finish ret := by
  unfold afterTransfer
  split
  · exact .inl ⟨_, rfl⟩
  · split
    · exact .inr ⟨_, by decide, rfl⟩
    · split
      · exact .inr ⟨_, by decide, rfl⟩
      · exact .inl ⟨_, rfl⟩

/-- The text of the failed report after a failed download. -/
def abortText (port : OtaPort) (s : Ota) (ret : EspErr) : Bytes :=
  if s.cancelRequested then ascii "cancelled" else port.errName ret

end Ota

/-- A step of the request task or the update task, with what the SDK answers. -/
inductive OtaAct where
  /-- `sc_ota::start`; `created` is whether the task could be created. -/
  | start (params : OtaParams) (created : Bool)
  /-- `sc_ota::cancel`: load `running`, compare the task id. -/
  | cancel (taskId : Bytes)
  /-- `sc_ota::cancel`: store `cancel_requested` and return `ESP_OK`. -/
  | cancelStore
  | getPartition (partition : Option Partition)
  | otaBegin (ret : EspErr)
  /-- The buffer of `download`, then its hash operation. -/
  | prepare (buffer setup : Bool)
  /-- A loop condition. -/
  | test
  | connect (client : Bool)
  /-- The status, or `none` when opening or fetching the headers failed. -/
  | fetch (status : Option Int)
  /-- The bytes read; empty for any result that is not positive. -/
  | read (data : Bytes)
  | write (ret : EspErr) (hashed : Bool) (now : Int)
  | close
  | finish (finished : Bool)
  | abort
  | verify
  | otaEnd (ret : EspErr)
  | setBoot (ret : EspErr)
  | restart
  /-- `running.store(false)`. -/
  | clear

namespace Ota

variable {port : OtaPort}

/-- `run` from the partition to the report before `esp_ota_begin`. -/
def getPartition (s : Ota) : Option Partition → Ota
  | none => s.failWith .invalidSize (ascii "no OTA partition")
  | some p =>
    if p.size < s.params.size then
      s.failWith .invalidSize (ascii "image larger than the OTA partition")
    else { s.report .downloading 0 none with pc := .otaBegin }

/-- The digest `psa_hash_finish` leaves in a zeroed array. -/
def digest (port : OtaPort) (s : Ota) (finished : Bool) : Buf 32 :=
  if s.hash.valid && finished then port.sha256 s.hash.fed else .zero 32

/-- `run` from the verifying report to `esp_ota_end`. -/
def verify (s : Ota) (digest : Buf 32) : Ota :=
  let s := s.report .verifying 100 none
  if hexLower digest.bytes = s.params.sha256.bytes then { s with pc := .otaEnd }
  else (s.call .otaAbort).failWith .invalidCrc (ascii "SHA-256 mismatch")

/-- The step function. -/
def step (port : OtaPort) (s : Ota) (a : OtaAct) : Option Ota :=
  match a, s.pc with
  | _, .restarted => none
  -- The request task does one thing at a time: no start or cancel inside a cancel.
  | .start params created, _ => if s.cancelling then none else some (s.start params created)
  | .cancel taskId, _ => if s.cancelling then none else some (s.cancel taskId)
  | .cancelStore, _ =>
    if s.cancelling then
      some { s.call .cancelAccepted with cancelRequested := true, cancelling := false }
    else none
  | .getPartition p, .getPartition => some (s.getPartition p)
  | .otaBegin ret, .otaBegin =>
    if ret = .ok then some { s.call .otaBegin with pc := .prepare, written := [] }
    else some (s.failWith ret (port.errName ret))
  | .prepare buffer setup, .prepare =>
    if ¬ buffer then some { s with pc := .abort .noMem }
    else if ¬ setup then some { s with pc := .abort .fail }
    else some { s with hash := ⟨[], true⟩, pc := .loop ⟨0, 0⟩ }
  | .test, .loop d =>
    -- Complete first: a cancel after the last byte is not seen here.
    if s.params.size ≤ d.offset then some { s with pc := .finish .ok }
    else if s.cancelRequested then some { s with pc := .finish .invalidState }
    else some { s with pc := .connect d }
  | .connect client, .connect d =>
    if client then some { s with pc := .fetch d }
    else some { s with pc := afterTransfer d (-1) }
  | .fetch status, .fetch d =>
    -- Without an answer the status is 0, which is retried like any below 400.
    if statusOk d (status.getD 0) then some { s with pc := .check d 0 }
    else some { s with pc := .close d (if 400 ≤ status.getD 0 then -2 else -1) }
  | .test, .check d total =>
    if s.unread d total ∧ ¬ s.cancelRequested then some { s with pc := .read d total }
    else some { s with pc := .close d total }
  | .read data, .read d total =>
    if want port s d total < data.length then none
    else if data = [] then some { s with pc := .close d total }
    else some { s with pc := .write d total data }
  | .write ret hashed now, .write d total data =>
    -- The hash follows the flash: a refused write is not hashed, and ends the download.
    if ret = .ok then
      let s := { s with written := s.written ++ data, hash := s.hash.update data hashed }
      let total := toInt32 (total + data.length)
      some { s.reportProgress (s.progress d total) now with pc := .check d total }
    else some { s with pc := .close d (-2) }
  | .close, .close d total => some { s with pc := afterTransfer d (transferRet total) }
  | .finish finished, .finish ret =>
    if ret = .ok then some { s with pc := .verify (digest port s finished) }
    else some { s with pc := .abort ret }
  | .abort, .abort ret => some ((s.call .otaAbort).failWith ret (abortText port s ret))
  | .verify, .verify digest => some (s.verify digest)
  | .otaEnd ret, .otaEnd =>
    -- The handle is closed whatever the result.
    if ret = .ok then some { s.call .otaEnd with pc := .setBoot }
    else some ((s.call .otaEnd).failWith ret (port.errName ret))
  | .setBoot ret, .setBoot =>
    let s := s.call .setBootPartition
    if ret = .ok then some { s.report .rebooting 100 none with pc := .restart }
    else some (s.failWith ret (port.errName ret))
  | .restart, .restart => some { s.call .espRestart with pc := .restarted }
  | .clear, .ended _ => some { s with running := false, pc := .idle }
  | _, _ => none

/-! ## What a step can do -/

/-- A progress report leaves its mark and the two fields that limit it. -/
theorem reportProgress_spec (s : Ota) (percent now : Int) :
    ∃ last lastUs calls, s.reportProgress percent now =
        { s with lastProgress := last, lastReportUs := lastUs, calls } ∧
      (calls = s.calls ∨
        calls = s.calls ++ [.report ⟨s.params.taskId.bytes, .downloading, percent, none⟩]) := by
  unfold reportProgress
  split
  · exact ⟨_, _, _, rfl, .inr rfl⟩
  · exact ⟨_, _, _, rfl, .inl rfl⟩

section reportProgress

variable (s : Ota) (percent now : Int)

@[simp] theorem reportProgress_params : (s.reportProgress percent now).params = s.params := by
  obtain ⟨_, _, _, heq, -⟩ := s.reportProgress_spec percent now
  rw [heq]

@[simp] theorem reportProgress_written : (s.reportProgress percent now).written = s.written := by
  obtain ⟨_, _, _, heq, -⟩ := s.reportProgress_spec percent now
  rw [heq]

@[simp] theorem reportProgress_hash : (s.reportProgress percent now).hash = s.hash := by
  obtain ⟨_, _, _, heq, -⟩ := s.reportProgress_spec percent now
  rw [heq]

@[simp] theorem reportProgress_cancelRequested :
    (s.reportProgress percent now).cancelRequested = s.cancelRequested := by
  obtain ⟨_, _, _, heq, -⟩ := s.reportProgress_spec percent now
  rw [heq]

end reportProgress

/-- The steps by action: where each is possible and what it leaves. -/
inductive OtaStep (port : OtaPort) (s : Ota) : OtaAct → Ota → Prop where
  | startRunning {params : OtaParams} {created : Bool} (hcan : s.cancelling = false)
      (hrun : s.running = true) : OtaStep port s (.start params created) s
  | start {params : OtaParams} {created : Bool} (hcan : s.cancelling = false)
      (hrun : s.running = false) :
      OtaStep port s (.start params created) (s.launch params created)
  | cancelRefused {taskId : Bytes} (hcan : s.cancelling = false)
      (hno : s.running = false ∨ taskId ≠ s.params.taskId.bytes) :
      OtaStep port s (.cancel taskId) s
  | cancel {taskId : Bytes} (hcan : s.cancelling = false) (hrun : s.running = true)
      (htask : taskId = s.params.taskId.bytes) :
      OtaStep port s (.cancel taskId) { s with cancelling := true }
  | cancelStore (hcan : s.cancelling = true) :
      OtaStep port s .cancelStore
        { s.call .cancelAccepted with cancelRequested := true, cancelling := false }
  | noPartition (hpc : s.pc = .getPartition) :
      OtaStep port s (.getPartition none)
        (s.failWith .invalidSize (ascii "no OTA partition"))
  | tooLarge {p : Partition} (hpc : s.pc = .getPartition) (hsize : p.size < s.params.size) :
      OtaStep port s (.getPartition (some p))
        (s.failWith .invalidSize (ascii "image larger than the OTA partition"))
  | getPartition {p : Partition} (hpc : s.pc = .getPartition) (hsize : s.params.size ≤ p.size) :
      OtaStep port s (.getPartition (some p))
        { s.report .downloading 0 none with pc := .otaBegin }
  | otaBegin (hpc : s.pc = .otaBegin) :
      OtaStep port s (.otaBegin .ok) { s.call .otaBegin with pc := .prepare, written := [] }
  | otaBeginFailed {ret : EspErr} (hpc : s.pc = .otaBegin) (hret : ret ≠ .ok) :
      OtaStep port s (.otaBegin ret) (s.failWith ret (port.errName ret))
  | prepareFailed {buffer setup : Bool} {ret : EspErr} (hpc : s.pc = .prepare)
      (hret : buffer = false ∧ ret = .noMem ∨ buffer = true ∧ setup = false ∧ ret = .fail) :
      OtaStep port s (.prepare buffer setup) { s with pc := .abort ret }
  | prepare (hpc : s.pc = .prepare) :
      OtaStep port s (.prepare true true) { s with hash := ⟨[], true⟩, pc := .loop ⟨0, 0⟩ }
  | loopDone {d : Attempt} (hpc : s.pc = .loop d) (hsize : s.params.size ≤ d.offset) :
      OtaStep port s .test { s with pc := .finish .ok }
  | loopCancelled {d : Attempt} (hpc : s.pc = .loop d) (hsize : d.offset < s.params.size)
      (hcan : s.cancelRequested = true) :
      OtaStep port s .test { s with pc := .finish .invalidState }
  | loop {d : Attempt} (hpc : s.pc = .loop d) (hsize : d.offset < s.params.size)
      (hcan : s.cancelRequested = false) :
      OtaStep port s .test { s with pc := .connect d }
  | connectFailed {d : Attempt} (hpc : s.pc = .connect d) :
      OtaStep port s (.connect false) { s with pc := afterTransfer d (-1) }
  | connect {d : Attempt} (hpc : s.pc = .connect d) :
      OtaStep port s (.connect true) { s with pc := .fetch d }
  | refused {d : Attempt} {status : Option Int} {total : Int} (hpc : s.pc = .fetch d)
      (hstatus : ¬ statusOk d (status.getD 0))
      (htotal : total = if 400 ≤ status.getD 0 then -2 else -1) :
      OtaStep port s (.fetch status) { s with pc := .close d total }
  | fetch {d : Attempt} {status : Option Int} (hpc : s.pc = .fetch d)
      (hstatus : statusOk d (status.getD 0)) :
      OtaStep port s (.fetch status) { s with pc := .check d 0 }
  | checkDone {d : Attempt} {total : Int} (hpc : s.pc = .check d total)
      (hdone : ¬ (s.unread d total ∧ ¬ s.cancelRequested)) :
      OtaStep port s .test { s with pc := .close d total }
  | check {d : Attempt} {total : Int} (hpc : s.pc = .check d total)
      (hunread : s.unread d total) (hcan : s.cancelRequested = false) :
      OtaStep port s .test { s with pc := .read d total }
  | readEnd {d : Attempt} {total : Int} (hpc : s.pc = .read d total) :
      OtaStep port s (.read []) { s with pc := .close d total }
  | read {d : Attempt} {total : Int} {data : Bytes} (hpc : s.pc = .read d total)
      (hdata : data ≠ []) (hwant : data.length ≤ want port s d total) :
      OtaStep port s (.read data) { s with pc := .write d total data }
  | writeFailed {d : Attempt} {total : Int} {data : Bytes} {ret : EspErr} {hashed : Bool}
      {now : Int} (hpc : s.pc = .write d total data) (hret : ret ≠ .ok) :
      OtaStep port s (.write ret hashed now) { s with pc := .close d (-2) }
  | write {d : Attempt} {total : Int} {data : Bytes} {hashed : Bool} {now percent : Int}
      (hpc : s.pc = .write d total data)
      (hpercent : percent = s.progress d (toInt32 (total + data.length))) :
      OtaStep port s (.write .ok hashed now)
        { ({ s with
            written := s.written ++ data
            hash := s.hash.update data hashed }).reportProgress percent now with
          pc := .check d (toInt32 (total + data.length)) }
  | close {d : Attempt} {total : Int} (hpc : s.pc = .close d total) :
      OtaStep port s .close { s with pc := afterTransfer d (transferRet total) }
  | finish {finished : Bool} (hpc : s.pc = .finish .ok) :
      OtaStep port s (.finish finished) { s with pc := .verify (digest port s finished) }
  | finishFailed {finished : Bool} {ret : EspErr} (hpc : s.pc = .finish ret)
      (hret : ret ≠ .ok) : OtaStep port s (.finish finished) { s with pc := .abort ret }
  | abort {ret : EspErr} (hpc : s.pc = .abort ret) :
      OtaStep port s .abort ((s.call .otaAbort).failWith ret (abortText port s ret))
  | verify {digest : Buf 32} (hpc : s.pc = .verify digest)
      (hhex : hexLower digest.bytes = s.params.sha256.bytes) :
      OtaStep port s .verify { s.report .verifying 100 none with pc := .otaEnd }
  | mismatch {digest : Buf 32} (hpc : s.pc = .verify digest)
      (hhex : hexLower digest.bytes ≠ s.params.sha256.bytes) :
      OtaStep port s .verify (((s.report .verifying 100 none).call .otaAbort).failWith
        .invalidCrc (ascii "SHA-256 mismatch"))
  | otaEnd (hpc : s.pc = .otaEnd) :
      OtaStep port s (.otaEnd .ok) { s.call .otaEnd with pc := .setBoot }
  | otaEndFailed {ret : EspErr} (hpc : s.pc = .otaEnd) (hret : ret ≠ .ok) :
      OtaStep port s (.otaEnd ret) ((s.call .otaEnd).failWith ret (port.errName ret))
  | setBoot (hpc : s.pc = .setBoot) :
      OtaStep port s (.setBoot .ok)
        { (s.call .setBootPartition).report .rebooting 100 none with pc := .restart }
  | setBootFailed {ret : EspErr} (hpc : s.pc = .setBoot) (hret : ret ≠ .ok) :
      OtaStep port s (.setBoot ret)
        ((s.call .setBootPartition).failWith ret (port.errName ret))
  | restart (hpc : s.pc = .restart) :
      OtaStep port s .restart { s.call .espRestart with pc := .restarted }
  | clear {ret : EspErr} (hpc : s.pc = .ended ret) :
      OtaStep port s .clear { s with running := false, pc := .idle }

theorem otaStep_cases {s s' : Ota} {a : OtaAct} (h : s.step port a = some s') :
    OtaStep port s a s' := by
  unfold step at h
  split at h
  · cases h
  · split at h
    · cases h
    · rename_i hcan
      cases h
      unfold start
      split
      · rename_i hrun
        exact .startRunning (by simpa using hcan) hrun
      · rename_i hrun
        exact .start (by simpa using hcan) (by simpa using hrun)
  · split at h
    · cases h
    · rename_i hcan
      cases h
      unfold cancel
      split
      · rename_i hno
        exact .cancelRefused (by simpa using hcan) (by simpa using hno)
      · rename_i hgo
        simp only [not_or, Bool.not_eq_true, Bool.not_eq_false, not_not] at hgo
        exact .cancel (by simpa using hcan) hgo.1 hgo.2
  · split at h
    · rename_i hcan
      cases h
      exact .cancelStore hcan
    · cases h
  · rename_i p hpc
    cases p with
    | none =>
      cases h
      exact .noPartition hpc
    | some p =>
      cases h
      by_cases hsize : p.size < s.params.size
      · have hfail : s.getPartition (some p) = _ := if_pos hsize
        rw [hfail]
        exact .tooLarge hpc hsize
      · have hgo : s.getPartition (some p) = _ := if_neg hsize
        rw [hgo]
        exact .getPartition hpc (by omega)
  · rename_i hpc
    split at h
    · rename_i hret
      cases h
      rw [hret]
      exact .otaBegin hpc
    · rename_i hret
      cases h
      exact .otaBeginFailed hpc hret
  · rename_i buffer setup hpc
    cases buffer with
    | false =>
      cases h
      exact .prepareFailed hpc (.inl ⟨rfl, rfl⟩)
    | true =>
      cases setup with
      | false =>
        cases h
        exact .prepareFailed hpc (.inr ⟨rfl, rfl, rfl⟩)
      | true =>
        cases h
        exact .prepare hpc
  · rename_i hpc
    split at h
    · rename_i hsize
      cases h
      exact .loopDone hpc hsize
    · rename_i hsize
      split at h
      · rename_i hcan
        cases h
        exact .loopCancelled hpc (by omega) hcan
      · rename_i hcan
        cases h
        exact .loop hpc (by omega) (by simpa using hcan)
  · rename_i client d hpc
    cases client with
    | false =>
      cases h
      exact .connectFailed hpc
    | true =>
      cases h
      exact .connect hpc
  · rename_i hpc
    split at h
    · rename_i hstatus
      cases h
      exact .fetch hpc hstatus
    · rename_i hstatus
      cases h
      exact .refused hpc hstatus rfl
  · rename_i hpc
    split at h
    · rename_i hgo
      cases h
      exact .check hpc hgo.1 (by simpa using hgo.2)
    · rename_i hdone
      cases h
      exact .checkDone hpc hdone
  · rename_i hpc
    split at h
    · cases h
    · rename_i hwant
      split at h
      · rename_i hdata
        cases h
        rw [hdata]
        exact .readEnd hpc
      · rename_i hdata
        cases h
        exact .read hpc hdata (by omega)
  · rename_i hpc
    split at h
    · rename_i hret
      cases h
      rw [hret]
      exact .write hpc rfl
    · rename_i hret
      cases h
      exact .writeFailed hpc hret
  · rename_i hpc
    cases h
    exact .close hpc
  · rename_i hpc
    split at h
    · rename_i hret
      cases h
      exact .finish (hret ▸ hpc)
    · rename_i hret
      cases h
      exact .finishFailed hpc hret
  · rename_i hpc
    cases h
    exact .abort hpc
  · rename_i digest hpc
    cases h
    by_cases hhex : hexLower digest.bytes = s.params.sha256.bytes
    · have hgo : s.verify digest = _ := if_pos hhex
      rw [hgo]
      exact .verify hpc hhex
    · have hfail : s.verify digest = _ := if_neg hhex
      rw [hfail]
      exact .mismatch hpc hhex
  · rename_i hpc
    split at h
    · rename_i hret
      cases h
      rw [hret]
      exact .otaEnd hpc
    · rename_i hret
      cases h
      exact .otaEndFailed hpc hret
  · rename_i hpc
    dsimp only at h
    split at h
    · rename_i hret
      cases h
      rw [hret]
      exact .setBoot hpc
    · rename_i hret
      cases h
      exact .setBootFailed hpc hret
  · rename_i hpc
    cases h
    exact .restart hpc
  · rename_i hpc
    cases h
    exact .clear hpc
  · cases h

/-- What a step adds to the calls of the attempt. A start that takes effect begins a
new attempt; the boot switch and an accepted cancel are added by their own steps only. -/
theorem OtaStep.calls {s s' : Ota} {a : OtaAct} (h : OtaStep port s a s') :
    (s.running = false ∧ ∃ params created, s' = s.launch params created) ∨
    ∃ new, s'.calls = s.calls ++ new ∧
      (OtaCall.setBootPartition ∈ new →
        s.pc = .setBoot ∧ s'.pc.beforeBoot = false ∧ a ≠ .cancelStore) ∧
      (OtaCall.cancelAccepted ∈ new ↔ a = .cancelStore) := by
  cases h with
  | start _ hrun => exact .inl ⟨hrun, _, _, rfl⟩
  | @write _ _ data hashed now percent _ _ =>
    right
    -- A write may bring a progress report, at most one every two seconds.
    obtain ⟨_, _, calls, heq, hcalls⟩ := reportProgress_spec
      { s with written := s.written ++ data, hash := s.hash.update data hashed } percent now
    rw [heq]
    rcases hcalls with rfl | rfl
    · exact ⟨[], (List.append_nil _).symm, by simp, by simp⟩
    · exact ⟨_, rfl, by simp, by simp⟩
  | startRunning | cancelRefused | cancel | prepareFailed | prepare | loopDone | loopCancelled
  | loop | connectFailed | connect | refused | fetch | checkDone | check | readEnd | read
  | writeFailed | close | finish | finishFailed | clear =>
    exact .inr ⟨[], (List.append_nil _).symm, by simp, by simp⟩
  | cancelStore => exact .inr ⟨[.cancelAccepted], rfl, by simp, by simp⟩
  | noPartition | tooLarge | getPartition | otaBegin | otaBeginFailed | abort | verify | mismatch
  | otaEnd | otaEndFailed | restart =>
    refine .inr ⟨_, by simp only [failWith, report, call, List.append_assoc]; rfl, ?_, ?_⟩ <;>
      simp
  | setBoot hpc | setBootFailed hpc =>
    refine .inr ⟨_, by simp only [failWith, report, call, List.append_assoc]; rfl, ?_, ?_⟩
    · intro _
      exact ⟨hpc, rfl, by simp⟩
    · simp

/-- Parameters, flash and hash stay as they are, but for a start, the opening of the
handle, the set-up of the hash and a write. -/
theorem OtaStep.image {s s' : Ota} {a : OtaAct} (h : OtaStep port s a s') :
    s'.calls = [] ∨ s.pc = .otaBegin ∨ s.pc = .prepare ∨
      (∃ d total data, s.pc = .write d total data) ∨
      s'.params = s.params ∧ s'.written = s.written ∧ s'.hash = s.hash := by
  cases h with
  | start => exact .inl rfl
  | otaBegin hpc => exact .inr (.inl hpc)
  | prepare hpc => exact .inr (.inr (.inl hpc))
  | write hpc => exact .inr (.inr (.inr (.inl ⟨_, _, _, hpc⟩)))
  | _ => exact .inr (.inr (.inr (.inr ⟨rfl, rfl, rfl⟩)))

/-- No step but a start leads back to where the boot switch is still ahead. -/
theorem OtaStep.beforeBoot {s s' : Ota} {a : OtaAct} (h : OtaStep port s a s')
    (hpc' : s'.pc.beforeBoot = true) : s.pc.beforeBoot = true ∨ s'.calls = [] := by
  cases h with
  | startRunning | cancelRefused | cancel | cancelStore => exact .inl hpc'
  | start => exact .inr rfl
  | clear | abort | restart | noPartition | tooLarge | otaBeginFailed | otaEndFailed
  | setBootFailed | mismatch | setBoot => cases hpc'
  | getPartition hpc | otaBegin hpc | prepareFailed hpc | prepare hpc | loopDone hpc
  | loopCancelled hpc | loop hpc | connectFailed hpc | connect hpc | refused hpc | fetch hpc
  | checkDone hpc | check hpc | readEnd hpc | read hpc | writeFailed hpc | write hpc | close hpc
  | finish hpc | finishFailed hpc | verify hpc | otaEnd hpc =>
    left
    rw [hpc]
    rfl

end Ota

/-- The update component as a transition system. -/
def ota (port : OtaPort) : Lts Ota OtaAct := ⟨Ota.init, Ota.step port⟩

/-! ## A concrete update -/

/-- A three-byte image. -/
def sampleImage : Bytes := [0xe9, 1, 2]

/-- Its SHA-256. -/
def sampleDigest : Buf 32 where
  bytes := [
    0x29, 0x63, 0xfb, 0x0a, 0x68, 0x54, 0x37, 0x0c, 0x50, 0x90, 0x18, 0xb4,
    0xb8, 0xaa, 0x88, 0x5d, 0x27, 0xc3, 0xc2, 0x8b, 0x5c, 0xf3, 0xa2, 0xa4,
    0x4d, 0x55, 0xc3, 0xa3, 0x5c, 0x8d, 0xfd, 0x9e]
  size := rfl

/-- A port whose SHA-256 is given where the concrete runs use it. -/
def OtaPort.sample : OtaPort where
  httpBuffer := 4096
  sha256 b := if b = sampleImage then sampleDigest else .zero 32
  errName _ := ascii "ESP_FAIL"

/-- The parameters of an update to `sampleImage`. -/
def OtaParams.sample : OtaParams where
  url := ⟨ascii "https://files/1.bin", by decide, by decide⟩
  sha256 :=
    ⟨ascii "2963fb0a6854370c509018b4b8aa885d27c3c28b5cf3a2a44d55c3a35c8dfd9e",
      by decide, by decide⟩
  size := 3
  version := ⟨ascii "1.1", by decide, by decide⟩
  taskId := ⟨ascii "t1", by decide, by decide⟩

/-- An update up to its first read. -/
def sampleStart : List OtaAct :=
  [.start .sample true, .getPartition (some { size := 8192 }), .otaBegin .ok,
    .prepare true true, .test, .connect true, .fetch (some 200), .test]

/-- The last byte arrives on a second connection. -/
def sampleResume : List OtaAct :=
  [.read [0xe9, 1], .write .ok true 0, .test, .read [], .close, .test, .connect true,
    .fetch (some 206), .test, .read [2], .write .ok true 0, .test, .close, .test, .finish true]

end SoulCloud
