import SoulCloud.Lib.Bytes

/-!
# Configuration, error codes and event bits

What every part of the client shares: the build options and identity it runs
with, the `esp_err_t` codes, and the bits of the request task's event group.

Constant strings of the source are byte strings here (`ascii "req/"`), and a
`const char *` is given by its bytes before the NUL.
-/

namespace SoulCloud

open Bytes

/-- The `esp_err_t` values the client itself produces or tests for; every other
code of the SDK is an `other`. -/
inductive EspErr where
  | ok
  | fail
  | noMem
  | invalidArg
  | invalidState
  | invalidSize
  | notFound
  | timeout
  | invalidResponse
  | invalidCrc
  | other (code : Nat)
  deriving DecidableEq, Repr

/-- Build options (Kconfig) and the enrolled identity. -/
structure Config where
  /-- `sc_credentials::device_id()`, held in a `char[16]`. -/
  deviceId : Bytes
  deviceId_len : deviceId.length ≤ 15 := by decide
  deviceId_nul : 0 ∉ deviceId := by decide
  /-- `CONFIG_SOULCLOUD_RPC_QUEUE_LEN` (Kconfig: 1 to 16). Slot indices are `uint8_t`:
  from 256 slots on the loop in `sc_rpc::init` would not end. -/
  queueLen : Nat
  queueLen_pos : 1 ≤ queueLen := by decide
  queueLen_le : queueLen ≤ 255 := by decide
  /-- `CONFIG_SOULCLOUD_RPC_PAYLOAD_MAX`. -/
  payloadMax : Nat

namespace Config

variable (cfg : Config)

/-- `up_topic`, formatted into a `char[32]`: "d/<id>/up/". -/
def upTopic : Bytes := snprintf 32 (ascii "d/" ++ cfg.deviceId ++ ascii "/up/")

/-- `down_topic`, formatted into a `char[32]`: "d/<id>/down/". -/
def downTopic : Bytes := snprintf 32 (ascii "d/" ++ cfg.deviceId ++ ascii "/down/")

/-- `down_topic_len`: what that `snprintf` returns, the length of the whole text. -/
def downTopicLen : Nat := (ascii "d/" ++ cfg.deviceId ++ ascii "/down/").length

/-- A device id of at most 15 bytes leaves both prefixes whole. -/
theorem upTopic_eq : cfg.upTopic = ascii "d/" ++ cfg.deviceId ++ ascii "/up/" :=
  snprintf_of_lt (by
    have h := cfg.deviceId_len
    have h₁ : (ascii "d/").length = 2 := by decide
    have h₂ : (ascii "/up/").length = 4 := by decide
    simp only [List.length_append, h₁, h₂]
    omega)

theorem downTopic_eq : cfg.downTopic = ascii "d/" ++ cfg.deviceId ++ ascii "/down/" :=
  snprintf_of_lt (by
    have h := cfg.deviceId_len
    have h₁ : (ascii "d/").length = 2 := by decide
    have h₂ : (ascii "/down/").length = 6 := by decide
    simp only [List.length_append, h₁, h₂]
    omega)

theorem downTopic_length : cfg.downTopic.length = cfg.downTopicLen := by
  rw [downTopic_eq]
  rfl

theorem upTopic_length_le : cfg.upTopic.length ≤ 31 := by
  unfold upTopic snprintf
  rw [List.length_take]
  omega

end Config

/-- A configuration for concrete runs. -/
def Config.sample : Config where
  deviceId := ascii "a1"
  queueLen := 2
  payloadMax := 256

/-- The bits of the request task's event group (`sc_client::event_bits`). -/
structure EventBits where
  /-- `BIT_REQUEST`: a platform request is waiting. -/
  request : Bool
  /-- `BIT_CALL_DONE`: the platform answered our call. -/
  callDone : Bool
  connected : Bool
  disconnected : Bool
  reportStatus : Bool
  deriving DecidableEq, Repr

namespace EventBits

def none : EventBits := ⟨false, false, false, false, false⟩

/-- What a wait for every bit but `BIT_CALL_DONE` with clear-on-exit leaves behind. -/
def clearMain (b : EventBits) : EventBits :=
  { none with callDone := b.callDone }

/-- What such a wait returns to the caller: the bits it waited for. -/
def main (b : EventBits) : EventBits := { b with callDone := false }

end EventBits

end SoulCloud
