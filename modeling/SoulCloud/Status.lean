import SoulCloud.Json.Text
import SoulCloud.Publish

/-!
# Status reports (`sc_status`, `sc_codec::encode_status`)

A report fills a `sc_status_msg`, encodes it into the 640 bytes of `sc_status::buf`
together with what the application's status callback adds, and publishes it. The
callback is given by the calls it makes on the writer.
-/

namespace SoulCloud

open Bytes

/-- `sc_status_msg`. Pointers may be null; `elf_sha256` points to 32 bytes. -/
structure StatusMsg where
  birth : Bool
  uptimeMs : Nat
  bootId : Nat
  resetReason : Int
  fwVersion : Option Bytes
  project : Option Bytes
  sdkVersion : Option Bytes
  elfSha256 : Option Bytes
  chip : Option Bytes
  heapFree : Nat
  heapMinFree : Nat

/-- A report of a small device, for concrete runs. -/
def StatusMsg.sample : StatusMsg where
  birth := true
  uptimeMs := 1000
  bootId := 7
  resetReason := 1
  fwVersion := some (ascii "1.0")
  project := some (ascii "demo")
  sdkVersion := some (ascii "v5.5")
  elfSha256 := none
  chip := some (ascii "esp32")
  heapFree := 100000
  heapMinFree := 90000

/-- The writer calls of `encode_status`. -/
def StatusMsg.calls (msg : StatusMsg) (extra : List WriterCall) : List WriterCall :=
  ([.beginObject none] : List WriterCall) ++
  (if msg.birth then [.addBool (some (ascii "birth")) true] else []) ++
  ([.addUint (some (ascii "uptimeMs")) msg.uptimeMs,
    .addUint (some (ascii "bootId")) msg.bootId,
    .addInt (some (ascii "resetReason")) msg.resetReason,
    .beginObject (some (ascii "fw")),
    .addStr (some (ascii "version")) msg.fwVersion] : List WriterCall) ++
  (match msg.elfSha256 with
    | some sha => [.addHex (some (ascii "elfSha256")) sha]
    | none => []) ++
  ([.addStr (some (ascii "project")) msg.project,
    .addStr (some (ascii "sdk")) msg.sdkVersion,
    .endObject,
    .addStr (some (ascii "chip")) msg.chip,
    .beginObject (some (ascii "heap")),
    .addUint (some (ascii "free")) msg.heapFree,
    .addUint (some (ascii "minFree")) msg.heapMinFree,
    .endObject] : List WriterCall) ++
  extra ++ [.endObject]

/-- `finish` of `sc_codec`: the text, if the writer is still ok. -/
def finish {cap : Nat} (out : JsonWriter cap) : Except EspErr Bytes :=
  if out.ok then .ok out.text else .error .noMem

/-- `sc_codec::encode_status` into a buffer of `cap` bytes. -/
def encodeStatus (msg : StatusMsg) (extra : List WriterCall) (cap : Nat) : Except EspErr Bytes :=
  finish ((JsonWriter.init cap).run (msg.calls extra))

/-- The size of `sc_status::buf`. -/
def statusCap : Nat := 640

/-- `sc_status::report`: its result and the message that reached esp-mqtt. -/
def statusReport (cfg : Config) (isConnected : Bool) (env : PublishEnv) (msg : StatusMsg)
    (extra : List WriterCall) : EspErr × Option Published :=
  match encodeStatus msg extra statusCap with
  | .error ret => (ret, none)
  | .ok body =>
    publish cfg isConnected env (ascii "status") body (if msg.birth then 1 else 0)
      (some ⟨some contentType, [], none⟩)

/-- The status text is short enough and no call that writes it is refused. -/
def StatusMsg.Fits (msg : StatusMsg) (extra : List WriterCall) : Prop :=
  (JsonText.empty.run (msg.calls extra)).text.length < statusCap ∧
    (JsonText.empty.run (msg.calls extra)).refused = false

instance (msg : StatusMsg) (extra : List WriterCall) : Decidable (msg.Fits extra) :=
  inferInstanceAs (Decidable (_ ∧ _))

/-- A report succeeds when its text fits and its publish goes through. -/
theorem statusReport_ok_iff {cfg : Config} {isConnected : Bool} {env : PublishEnv}
    {msg : StatusMsg} {extra : List WriterCall} :
    (statusReport cfg isConnected env msg extra).1 = .ok ↔
      msg.Fits extra ∧ isConnected = true ∧ env.locked = true ∧ env.property = .ok ∧
        0 ≤ env.msgId := by
  have hlen : (ascii "status").length ≤ 64 := by decide
  have hfits : msg.Fits extra ↔ ((JsonWriter.init statusCap).run (msg.calls extra)).ok = true :=
    (JsonWriter.run_ok_iff (by decide) _).symm
  rw [hfits]
  unfold statusReport encodeStatus finish
  by_cases hok : ((JsonWriter.init statusCap).run (msg.calls extra)).ok = true
  · rw [if_pos hok]
    show (publish _ _ _ _ _ _ _).1 = _ ↔ _
    rw [publish_ok_iff hlen]
    simp [hok]
  · rw [if_neg hok]
    simp [hok]

end SoulCloud
