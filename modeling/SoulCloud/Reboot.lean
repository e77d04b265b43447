import SoulCloud.Builtins
import SoulCloud.Json.Meant

/-!
# The built-in method `reboot` (`sc_client`)

A request names a delay in milliseconds, which the handler clamps at the lower end and turns
into the microseconds of a one-shot timer. The product is an `int64_t`, and the timer takes an
`uint64_t`.

- `RestartTimer`, `espTimerStartOnce`: the timer.
- `rebootDelay`, `reboot`: the handler.
- `handle_refused`: a handler that returns an error without a text is answered `ok:false`.
- `delayMeant`, `delayReached`: the delay that a request names, and the one that is read.
- `reboot_iff`: the timer is armed for the delay, or the answer is an error, exactly if the timer
  refuses to start or the product has 64 bits and the delay that is read is the one named.
-/

namespace SoulCloud

open Bytes Json

/-! ## The handler -/

/-- `restart_timer`: the microseconds it was started for, while it is running. -/
abbrev RestartTimer := Option Nat

/-- `esp_timer_start_once` as documented: a timer that is running is not started again. -/
def espTimerStartOnce (timeoutUs : Nat) (timer : RestartTimer) : EspErr × RestartTimer :=
  match timer with
  | some _ => (.invalidState, timer)
  | none => (.ok, some timeoutUs)

/-- What an `int64_t` keeps of a value (two's complement). -/
def toInt64 (x : Int) : Int := Int.bmod x (2 ^ 64)

/-- What an `uint64_t` keeps of a value. -/
def toUint64 (x : Int) : Nat := (x % 2 ^ 64).toNat

/-- `delay_ms` when the timer is started. -/
def rebootDelay (params : JsonReader) : Int :=
  let delayMs := (params.getInt (some 0) (ascii "delayMs")).getD 500
  -- Leave time for the answer to go out.
  if delayMs < 200 then 200 else delayMs

/-- The handler of `reboot`. -/
def reboot : Handler RestartTimer := fun _ params timer =>
  let started := espTimerStartOnce (toUint64 (toInt64 (rebootDelay params * 1000))) timer
  (⟨[], [], started.1⟩, started.2)

/-! ## Errors without a text -/

section Refused

variable {σ : Type} {payloadMax resultMax : Nat} {errName : EspErr → Bytes}
  {methods : MethodTable σ} {slot : Slot payloadMax} {s : σ} {handler : Handler σ}

/-- **A handler that returns an error and no text** is answered with the name of the error. -/
theorem handle_refused {err : EspErr} (hmax : 256 ≤ resultMax)
    (hfind : findMethod methods slot.method.cstr = some handler) (hruns : slot.Decodable)
    (hrun : (runHandler handler slot s).1 = ⟨[], [], err⟩) (herr : err ≠ .ok)
    (hname : errName err ≠ [] ∧ PlainText (errName err)) (respBuf : Buf resultMax) :
    AnsweredError (handle errName methods slot respBuf s).1 := by
  have hanswerable : ∀ handler', findMethod methods slot.method.cstr = some handler' →
      Answerable errName (runHandler handler' slot s).1 := by
    intro handler' hfind'
    obtain rfl : handler = handler' := Option.some.inj (hfind.symm.trans hfind')
    rw [hrun]
    exact ⟨⟨.nil, rfl⟩, fun _ _ => hname.1⟩
  have hfits : AnswerFits resultMax errName methods slot s := by
    rw [answerFits_iff hruns.1 hfind hruns.2, hrun]
    exact fun _ => errorFits_of_plain hmax hname.2
  rcases (answersRight_iff_fits hmax hanswerable respBuf).mpr hfits with
    ⟨result, hresult, -⟩ | ⟨-, herror⟩
  · rw [succeeds_iff hruns.1 hfind hruns.2, hrun] at hresult
    exact absurd hresult.2.2.1 herr
  · exact herror

end Refused

/-! ## The delay -/

/-- No delay that is used is shorter than what the answer needs. -/
theorem le_rebootDelay (params : JsonReader) : 200 ≤ rebootDelay params := by
  simp only [rebootDelay]
  split_ifs <;> omega

/-- It is the larger of the requested delay and that. -/
theorem rebootDelay_eq_max (params : JsonReader) :
    rebootDelay params = max ((params.getInt (some 0) (ascii "delayMs")).getD 500) 200 := by
  simp only [rebootDelay]
  split_ifs <;> omega

/-- The product is computed without wrapping exactly if it has 64 bits. -/
theorem toInt64_product_iff {delay : Int} (hdelay : 200 ≤ delay) :
    toInt64 (delay * 1000) = delay * 1000 ↔ delay ≤ 9223372036854775 := by
  unfold toInt64
  rw [Int.bmod_def]
  constructor
  · intro h
    split_ifs at h <;> omega
  · intro h
    split_ifs <;> omega

/-- The milliseconds that a value stands for: 500 if there is none or it is no integer. -/
def delayOf (json : Bytes) (value : Option (JsonNode × Forest JsonNode)) : Int :=
  (value.bind fun v => JsonReader.nodeInt json v.1).getD 500

/-- The delay that a request names, however it spells the key. -/
def delayMeant (json : Bytes) : Int := delayOf json (meant json (ascii "delayMs"))

/-- The delay that is read: that of the member that `find` gets to. -/
def delayReached (json : Bytes) : Int := delayOf json (reached json (ascii "delayMs"))

/-- The handler works with the larger of the delay that is read and 200 ms. -/
theorem rebootDelay_reached {r : JsonReader} {json : Bytes} (hok : (r.parse json).1 = .ok) :
    rebootDelay (r.parse json).2 = max (delayReached json) 200 := by
  rw [rebootDelay_eq_max, JsonReader.getInt_reached hok]
  rfl

/-- The timer, which was not running, is armed for these many milliseconds, and the product of
the handler has been computed without wrapping. -/
structure ArmedFor (delay : Int) (params : JsonReader) (before after : RestartTimer) : Prop where
  idle : before = none
  whole : toInt64 (rebootDelay params * 1000) = rebootDelay params * 1000
  armed : after = some (delay * 1000).toNat

theorem toUint64_of_nonneg {x : Int} (h : 0 ≤ x) (hlt : x < 2 ^ 64) : toUint64 x = x.toNat := by
  unfold toUint64
  omega

section Handler

variable {payloadMax resultMax : Nat} {errName : EspErr → Bytes}
  {methods : MethodTable RestartTimer} {slot : Slot payloadMax} {timer : RestartTimer}

/-- A timer that is not running is started, and the platform is told so. -/
theorem answeredOk_reboot {respBuf : Buf resultMax} (hmax : 256 ≤ resultMax)
    (hfind : findMethod methods slot.method.cstr = some reboot) (hruns : slot.Decodable) :
    AnsweredOk (handle errName methods slot respBuf none).1 := by
  have hrun : (runHandler reboot slot (none : RestartTimer)).1 =
      ⟨WrittenMembers.nil.calls, [], .ok⟩ := rfl
  have hfits : (okAnswer .nil).value.bytes.length < resultMax := by
    rw [bytes_okAnswer]
    exact lt_of_lt_of_le (by decide) hmax
  exact ⟨.nil, (if_pos hfits).mp (handle_result hmax hfind hruns hrun (by decide))⟩

/-- **`reboot`.** A request is answered with an error, or the timer is armed for the delay that it
names or 200 ms, whichever is longer, if and only if the timer is running already, or the delay
is at most 9223372036854775 ms and the one that is read has the same effect. -/
theorem reboot_iff {respBuf : Buf resultMax} (hmax : 256 ≤ resultMax)
    (hfind : findMethod methods slot.method.cstr = some reboot) (hruns : slot.Decodable)
    (hname : errName .invalidState ≠ [] ∧ PlainText (errName .invalidState)) :
    (ArmedFor (max (delayMeant slot.paramsJson) 200) slot.params.2 timer
        (handle errName methods slot respBuf timer).2 ∨
      AnsweredError (handle errName methods slot respBuf timer).1) ↔
    timer ≠ none ∨
      delayMeant slot.paramsJson ≤ 9223372036854775 ∧
        max (delayReached slot.paramsJson) 200 = max (delayMeant slot.paramsJson) 200 := by
  have hdelay := le_rebootDelay slot.params.2
  have hread : rebootDelay slot.params.2 = max (delayReached slot.paramsJson) 200 :=
    rebootDelay_reached hruns.2
  have hstate : (handle errName methods slot respBuf timer).2 = (runHandler reboot slot timer).2 :=
    handle_state_of_runs hfind hruns.1 hruns.2
  rw [← hread, hstate]
  cases timer with
  | some us =>
    have hrun : (runHandler reboot slot (some us)).1 = ⟨[], [], .invalidState⟩ := rfl
    have hrefused := handle_refused hmax hfind hruns hrun nofun hname respBuf
    exact iff_of_true (.inr hrefused) (.inl nofun)
  | none =>
    have hok : AnsweredOk (handle errName methods slot respBuf none).1 :=
      answeredOk_reboot hmax hfind hruns
    have hnot := not_answeredError_of_answeredOk hok
    have hwhole := toInt64_product_iff hdelay
    -- Without wrapping, the timer gets the delay that is read.
    have harmed : rebootDelay slot.params.2 ≤ 9223372036854775 →
        (runHandler reboot slot none).2 = some (rebootDelay slot.params.2 * 1000).toNat := by
      intro hle
      show some (toUint64 (toInt64 (rebootDelay slot.params.2 * 1000))) = _
      rw [hwhole.mpr hle, toUint64_of_nonneg (by omega) (by omega)]
    constructor
    · rintro (⟨-, hexact, hafter⟩ | herror)
      · have hle := hwhole.mp hexact
        rw [harmed hle] at hafter
        have hsame := Option.some.inj hafter
        exact .inr (by omega)
      · exact absurd herror hnot
    · rintro (hrunning | ⟨hle, hsame⟩)
      · exact absurd rfl hrunning
      · have hbound : rebootDelay slot.params.2 ≤ 9223372036854775 := by omega
        exact .inl ⟨rfl, hwhole.mpr hbound, hsame ▸ harmed hbound⟩

end Handler

/-- A request for `reboot` with this delay. -/
def rebootRequest (delayMs : Bytes) (h : delayMs.length ≤ 20 := by decide) : Slot 256 :=
  requestSample (ascii "reboot") (ascii "\x7b\"delayMs\":" ++ delayMs ++ ascii "\x7d")
    (by
      rw [List.length_append, List.length_append]
      have hopen : (ascii "\x7b\"delayMs\":").length = 11 := by decide
      have hclose : (ascii "\x7d").length = 1 := by decide
      omega)

/-- The method table of the samples. -/
def rebootMethods : MethodTable RestartTimer := [some (ascii "reboot", reboot)]

theorem find_rebootRequest (delayMs : Bytes) (h : delayMs.length ≤ 20) :
    findMethod rebootMethods (rebootRequest delayMs h).method.cstr = some reboot := by
  have hname : (rebootRequest delayMs h).method.cstr = ascii "reboot" := by
    show (slotSample (ascii "reboot")).method.cstr = _
    decide
  rw [hname]
  rfl

/-- The longest delay that works. -/
theorem reboot_sample :
    let slot := rebootRequest (ascii "9223372036854775")
    ArmedFor (max (delayMeant slot.paramsJson) 200) slot.params.2 none
        (handle errNameSample rebootMethods slot (.zero 256) none).2 ∨
      AnsweredError (handle errNameSample rebootMethods slot (.zero 256) none).1 :=
  (reboot_iff (by decide) (find_rebootRequest _ _) ⟨rfl, by decide +kernel⟩
    ⟨by decide, by decide⟩).mpr (.inr (by decide +kernel))

/-- A key that is spelled with an escape is not found, and the delay is the default. -/
example : delayMeant (ascii "\x7b\"d\\u0065layMs\":60000\x7d") = 60000 ∧
    delayReached (ascii "\x7b\"d\\u0065layMs\":60000\x7d") = 500 := by
  decide +kernel

/-- A request to restart in 18446744073709552 ms is answered `ok:true`, and the device restarts
after 384 microseconds. -/
theorem reboot_wraps :
    let slot := rebootRequest (ascii "18446744073709552")
    slot.Decodable ∧ delayMeant slot.paramsJson = 18446744073709552 ∧
      (handle errNameSample rebootMethods slot (.zero 256) none).2 = some 384 ∧
      ¬ (ArmedFor (max (delayMeant slot.paramsJson) 200) slot.params.2 none
          (handle errNameSample rebootMethods slot (.zero 256) none).2 ∨
        AnsweredError (handle errNameSample rebootMethods slot (.zero 256) none).1) := by
  intro slot
  have hfind : findMethod rebootMethods slot.method.cstr = some reboot := find_rebootRequest _ _
  have hruns : slot.Decodable := ⟨rfl, by decide +kernel⟩
  have hdelay : delayMeant slot.paramsJson = 18446744073709552 := by
    decide +kernel
  have hstate : (handle errNameSample rebootMethods slot (.zero 256) none).2 = some 384 := by
    rw [handle_state_of_runs hfind hruns.1 hruns.2]
    decide +kernel
  refine ⟨hruns, hdelay, hstate, ?_⟩
  rintro (⟨-, -, harmed⟩ | herror)
  · rw [hstate, hdelay] at harmed
    revert harmed
    decide
  · have hok : AnsweredOk (handle errNameSample rebootMethods slot (.zero 256) none).1 :=
      answeredOk_reboot (by decide) hfind hruns
    exact not_answeredError_of_answeredOk hok herror

end SoulCloud
