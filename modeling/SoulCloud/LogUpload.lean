import SoulCloud.Lib.Lts
import SoulCloud.Publish

/-!
# Uploading logs (`sc_log_uplink`, the upload task)

Two ring buffers hold log packets and log lines until the upload task drains them into one batch
buffer. `uploads o` interleaves the task with whoever fills the rings: a step is everything
between two accesses to what the tasks share.

- `LogOptions`: the build options, and what the code relies on of `on9log`.
- `UploadState`, `UploadAct`: the rings, the counters, the batch and the task.
- `uploadBinItem`, `uploadTextItem`: the bodies of the two loops.
- `UploadStep`, `step_cases`: what one step can do.
-/

namespace SoulCloud

open Bytes

/-- `TIME_SYNC_LEN`. -/
def timeSyncLen : Nat := 22

/-- Build options, the boot id, and the packets that `on9log` makes. -/
structure LogOptions where
  cfg : Config
  bootId : Nat
  /-- `CONFIG_SOULCLOUD_LOG_BATCH_SIZE`. -/
  batchSize : Nat
  batchSize_ge : 512 ≤ batchSize := by decide
  batchSize_le : batchSize ≤ 8192 := by decide
  /-- `CONFIG_SOULCLOUD_LOG_TEXT_LINE_MAX`. -/
  lineMax : Nat
  lineMax_ge : 64 ≤ lineMax := by decide
  lineMax_le : lineMax ≤ 1024 := by decide
  /-- The static assertion: a text line must fit in one batch. -/
  lineMax_lt : lineMax < batchSize := by decide
  /-- `CONFIG_SOULCLOUD_LOG_QOS1`. -/
  qos1 : Bool
  /-- `sizeof(on9log_packet_header_t)`. -/
  headerLen : Nat
  headerLen_pos : 0 < headerLen := by decide
  /-- The field `payload_len` of a header. -/
  payloadLen : Bytes → Nat
  /-- The header of a DROPPED packet with this `time_ms`. -/
  droppedHeader : Nat → Bytes
  droppedHeader_len : ∀ timeMs, (droppedHeader timeMs).length = headerLen
  /-- What `on9log_encode_time_sync` writes at this time. -/
  timeSync : Nat → BitVec 64 → Bytes
  timeSync_len : ∀ boot now, (timeSync boot now).length ≤ timeSyncLen
  /-- A DROPPED packet fits in a batch. -/
  dropped_fits : headerLen + 4 ≤ batchSize - timeSyncLen

/-- The two kinds of logs. -/
inductive LogKind where
  | bin
  | text
  deriving DecidableEq

namespace LogKind

def subTopic : LogKind → Bytes
  | bin => ascii "log/bin"
  | text => ascii "log/text"

def contentType : LogKind → Bytes
  | bin => ascii "application/octet-stream"
  | text => ascii "text/plain"

end LogKind

/-- The four bytes of a `uint32_t` in memory. -/
def le32 (n : Nat) : Bytes :=
  [n.toUInt8, (n / 2 ^ 8).toUInt8, (n / 2 ^ 16).toUInt8, (n / 2 ^ 24).toUInt8]

/-- `esp_timer_get_time() / 1000`, where the time is an `int64_t`. -/
def timeMs (now : BitVec 64) : Int := now.toInt.tdiv 1000

namespace LogOptions

variable (o : LogOptions)

/-- `cap` of `upload_bin` and `upload_text`: the first leaves room for the closing TIME_SYNC. -/
def cap : LogKind → Nat
  | .bin => o.batchSize - timeSyncLen
  | .text => o.batchSize

theorem cap_le (kind : LogKind) : o.cap kind ≤ o.batchSize := by
  cases kind with
  | bin => exact Nat.sub_le _ _
  | text => exact Nat.le_refl _

/-- The QoS of `publish_batch`. -/
def qos : Nat := if o.qos1 then 1 else 0

/-- The report of `dropped` entries: a DROPPED packet, or a line of its own. -/
def report (kind : LogKind) (dropped : Nat) (now : BitVec 64) : Bytes :=
  match kind with
  | .bin => o.droppedHeader (timeMs now % 2 ^ 32).toNat ++ le32 dropped
  | .text => ascii "W (" ++ decimalInt (timeMs now) ++ ascii ") soulcloud: " ++ decimal dropped ++
      ascii " log lines dropped\n"

/-- What closes a batch. -/
def closing (kind : LogKind) (now : BitVec 64) : Bytes :=
  match kind with
  | .bin => o.timeSync o.bootId now
  | .text => []

end LogOptions

/-- For runs on concrete inputs. -/
def LogOptions.sample : LogOptions where
  cfg := .sample
  bootId := 1
  batchSize := 512
  lineMax := 64
  qos1 := true
  headerLen := 4
  payloadLen header := (header.getD 3 0).toNat
  droppedHeader timeMs := [165, 80, timeMs.toUInt8, 4]
  droppedHeader_len _ := rfl
  timeSync boot _ := [165, 96, boot.toUInt8, 0]
  timeSync_len _ _ := show 4 ≤ 22 by decide
  dropped_fits := by decide

/-- What happens to the entries of a log, as far as it can be seen from outside. -/
inductive UploadCall where
  /-- An item has been put into a ring buffer. -/
  | accepted (kind : LogKind) (item : Bytes)
  /-- A ring buffer was full, and the entry has been counted. -/
  | dropped (kind : LogKind)
  /-- The upload task has taken a counter. -/
  | taken (kind : LogKind) (count : Nat)
  /-- `sc_mqtt::publish` of a payload that reports `report` entries as dropped: what it returned
  and what reached esp-mqtt. -/
  | publish (kind : LogKind) (report : Nat) (data : Bytes) (ret : EspErr) (sent : Option Published)

/-- Program counter of the upload task. -/
inductive UploadPc where
  /-- In `vTaskDelay`. -/
  | idle
  /-- About to take the counter of a log. -/
  | start (kind : LogKind)
  /-- About to receive from a ring buffer. The batch begins with a report of `report` dropped
  entries, or with none if that is 0. -/
  | drain (kind : LogKind) (report : Nat)
  deriving DecidableEq

/-- What the logging tasks and the upload task share, and the upload task. -/
structure UploadState (o : LogOptions) where
  ring : LogKind → List Bytes
  /-- `bin_dropped` and `text_dropped`. -/
  dropped : LogKind → Nat
  batch : Buf o.batchSize
  len : Nat
  /-- Something has been written behind the batch buffer. -/
  pastEnd : Bool
  pc : UploadPc
  calls : List UploadCall

/-- What `sc_mqtt` finds during one publish. -/
structure MqttMoment where
  isConnected : Bool
  env : PublishEnv

/-- A moment at which publishing succeeds. -/
def MqttMoment.sample : MqttMoment := ⟨true, ⟨true, .ok, 0⟩⟩

inductive UploadAct where
  | accept (kind : LogKind) (item : Bytes)
  | drop (kind : LogKind)
  /-- The delay is over. -/
  | wake (isConnected : Bool)
  /-- Take the counter and report it. -/
  | begin (now : BitVec 64)
  /-- Receive from the ring buffer, and what follows: at most one batch is published and one item
  on its own. -/
  | next (now : BitVec 64) (first second : MqttMoment)

/-- One `sc_mqtt::publish` of log data. -/
def LogOptions.published (o : LogOptions) (kind : LogKind) (report : Nat) (data : Bytes) (qos : Nat)
    (m : MqttMoment) : UploadCall :=
  let result := publish o.cfg m.isConnected m.env kind.subTopic data qos
    (some ⟨some kind.contentType, [], none⟩)
  .publish kind report data result.1 result.2

namespace UploadState

variable {o : LogOptions} (s : UploadState o)

def init (o : LogOptions) : UploadState o where
  ring _ := []
  dropped _ := 0
  batch := .zero o.batchSize
  len := 0
  pastEnd := false
  pc := .idle
  calls := []

def call (c : UploadCall) : UploadState o := { s with calls := s.calls ++ [c] }

/-! ## The logging tasks -/

/-- `xRingbufferSend`, or `xRingbufferSendComplete`, of an item there was room for. -/
def accept (kind : LogKind) (item : Bytes) : UploadState o :=
  { s.call (.accepted kind item) with
    ring := Function.update s.ring kind (s.ring kind ++ [item]) }

/-- There was no room, and the counter is incremented. -/
def drop (kind : LogKind) : UploadState o :=
  { s.call (.dropped kind) with
    dropped := Function.update s.dropped kind ((s.dropped kind + 1) % 2 ^ 32) }

/-! ## The upload task -/

/-- `exchange(0)` of a counter. -/
def take (kind : LogKind) : UploadState o :=
  { s.call (.taken kind (s.dropped kind)) with
    dropped := Function.update s.dropped kind 0
    len := 0 }

/-- Write behind what is in the batch. -/
def copy (d : Bytes) : UploadState o :=
  match s.batch.memcpy s.len d with
  | some batch => { s with batch, len := s.len + d.length }
  | none => { s with len := s.len + d.length, pastEnd := true }

/-- `snprintf` into the batch. -/
def print (t : Bytes) : UploadState o :=
  match s.batch.memcpy 0 (snprintf o.batchSize t ++ [0]) with
  | some batch => { s with batch, len := t.length }
  | none => { s with len := t.length, pastEnd := true }

/-- `sc_mqtt::publish` of log data. -/
def send (kind : LogKind) (report : Nat) (data : Bytes) (qos : Nat) (m : MqttMoment) :
    UploadState o :=
  s.call (o.published kind report data qos m)

/-- `publish_batch`, and the batch is empty again. -/
def publishBatch (kind : LogKind) (report : Nat) (m : MqttMoment) : UploadState o :=
  { s.send kind report (s.batch.text s.len) o.qos m with len := 0 }

/-- `upload_bin` up to its loop. -/
def uploadBinStart (now : BitVec 64) : UploadState o :=
  let taken := s.take .bin
  let filled :=
    if 0 < s.dropped .bin then
      (taken.copy (o.droppedHeader (timeMs now % 2 ^ 32).toNat)).copy (le32 (s.dropped .bin))
    else taken
  { filled with pc := .drain .bin (s.dropped .bin) }

/-- The body of the loop of `upload_bin` for an item that has been received. -/
def uploadBinItem (report : Nat) (item : Bytes) (now : BitVec 64) (first second : MqttMoment) :
    UploadState o :=
  let full := o.cap .bin < s.len + item.length ∧ 0 < s.len
  let flushed :=
    if full then (s.copy (o.timeSync o.bootId now)).publishBatch .bin report first else s
  let put :=
    if o.cap .bin < item.length then
      -- A packet bigger than a batch goes out on its own.
      flushed.send .bin 0 item 0 second
    else flushed.copy item
  { put with pc := .drain .bin (if full then 0 else report) }

/-- `upload_bin` behind its loop. -/
def uploadBinEnd (report : Nat) (now : BitVec 64) (m : MqttMoment) : UploadState o :=
  let flushed :=
    if 0 < s.len then (s.copy (o.timeSync o.bootId now)).publishBatch .bin report m else s
  { flushed with pc := .start .text }

/-- `upload_text` up to its loop. -/
def uploadTextStart (now : BitVec 64) : UploadState o :=
  let taken := s.take .text
  let filled :=
    if 0 < s.dropped .text then taken.print (o.report .text (s.dropped .text) now) else taken
  { filled with pc := .drain .text (s.dropped .text) }

/-- The body of the loop of `upload_text` for an item that has been received. -/
def uploadTextItem (report : Nat) (item : Bytes) (m : MqttMoment) : UploadState o :=
  let full := o.cap .text < s.len + item.length
  let flushed := if full then s.publishBatch .text report m else s
  { flushed.copy item with pc := .drain .text (if full then 0 else report) }

/-- `upload_text` behind its loop. -/
def uploadTextEnd (report : Nat) (m : MqttMoment) : UploadState o :=
  let flushed := if 0 < s.len then s.publishBatch .text report m else s
  { flushed with pc := .idle }

def uploadStart (now : BitVec 64) : LogKind → UploadState o
  | .bin => s.uploadBinStart now
  | .text => s.uploadTextStart now

/-- An item is received from the ring buffer and processed. -/
def uploadItem (report : Nat) (item : Bytes) (rest : List Bytes) (now : BitVec 64)
    (first second : MqttMoment) (kind : LogKind) : UploadState o :=
  let received := { s with ring := Function.update s.ring kind rest }
  match kind with
  | .bin => received.uploadBinItem report item now first second
  | .text => received.uploadTextItem report item first

def uploadEnd (report : Nat) (now : BitVec 64) (m : MqttMoment) : LogKind → UploadState o
  | .bin => s.uploadBinEnd report now m
  | .text => s.uploadTextEnd report m

/-- The step function. -/
def step (s : UploadState o) (a : UploadAct) : Option (UploadState o) :=
  match a, s.pc with
  -- Nothing empty is logged, and lines come from a `char[CONFIG_SOULCLOUD_LOG_TEXT_LINE_MAX]`.
  | .accept kind item, _ =>
    if item = [] ∨ kind = .text ∧ o.lineMax ≤ item.length then none else some (s.accept kind item)
  | .drop kind, _ => some (s.drop kind)
  | .wake isConnected, .idle =>
    -- Without a connection logs wait in the ring buffers.
    some { s with pc := if isConnected then .start .bin else .idle }
  | .begin now, .start kind => some (s.uploadStart now kind)
  | .next now first second, .drain kind report =>
    match s.ring kind with
    | [] => some (s.uploadEnd report now first kind)
    | item :: rest => some (s.uploadItem report item rest now first second kind)
  | _, _ => none

end UploadState

/-- The logging tasks and the upload task. -/
def uploads (o : LogOptions) : Lts (UploadState o) UploadAct where
  init := .init o
  step := UploadState.step

namespace UploadState

variable {o : LogOptions} {s s' : UploadState o} {a : UploadAct}

/-- What one step can do. -/
inductive UploadStep (s : UploadState o) : UploadAct → UploadState o → Prop
  | accept {kind : LogKind} {item : Bytes} (hitem : item ≠ [])
      (hline : kind = .text → item.length < o.lineMax) :
      UploadStep s (.accept kind item) (s.accept kind item)
  | drop {kind : LogKind} : UploadStep s (.drop kind) (s.drop kind)
  | wake {isConnected : Bool} (hpc : s.pc = .idle) :
      UploadStep s (.wake isConnected) { s with pc := if isConnected then .start .bin else .idle }
  | begin {kind : LogKind} {now : BitVec 64} (hpc : s.pc = .start kind) :
      UploadStep s (.begin now) (s.uploadStart now kind)
  | item {kind : LogKind} {report : Nat} {item : Bytes} {rest : List Bytes} {now : BitVec 64}
      {first second : MqttMoment} (hpc : s.pc = .drain kind report)
      (hring : s.ring kind = item :: rest) :
      UploadStep s (.next now first second) (s.uploadItem report item rest now first second kind)
  | finish {kind : LogKind} {report : Nat} {now : BitVec 64} {first second : MqttMoment}
      (hpc : s.pc = .drain kind report) (hring : s.ring kind = []) :
      UploadStep s (.next now first second) (s.uploadEnd report now first kind)

theorem step_cases (h : (uploads o).step s a = some s') : UploadStep s a s' := by
  have hstep : s.step a = some s' := h
  unfold step at hstep
  split at hstep
  · split_ifs at hstep with hbad
    cases hstep
    obtain ⟨hitem, hline⟩ := not_or.mp hbad
    exact .accept hitem fun hkind => not_le.mp fun hge => hline ⟨hkind, hge⟩
  · cases hstep
    exact .drop
  · next hpc =>
    cases hstep
    exact .wake hpc
  · next hpc =>
    cases hstep
    exact .begin hpc
  · next hpc =>
    split at hstep
    · next hring =>
      cases hstep
      exact .finish hpc hring
    · next hring =>
      cases hstep
      exact .item hpc hring
  · cases hstep

end UploadState

end SoulCloud
