import SoulCloud.Codec
import SoulCloud.Dispatch

/-!
# The built-in methods `log.config` and `ota.start` (`sc_client`)

What a request for a built-in method changes, and what the platform is told about it.

- `logConfig`, `otaStart`: the handlers of `register_builtin_methods`.
- `handle_explained`: a handler that explains its errors is answered `ok:true` exactly when it
  runs and returns `ESP_OK`, and `ok:false` otherwise.
- `logConfig_cases`: the handler of `log.config` refuses a request or sets all it asks for.
- `ota_start_iff`: `ok:true` means an update exactly when its task can be created.
-/

namespace SoulCloud

open Bytes Json

/-! ## The handlers -/

/-- A call of on9log. -/
inductive On9Call where
  | setLevel (level : Int)
  | setTagLevel (tag : Bytes) (level : Int)

/-- What the built-in methods change outside of `sc_rpc`. -/
structure BuiltinState where
  /-- The level of each tag in ESP_LOG. -/
  espLevel : Bytes → Int
  /-- The calls of on9log so far. -/
  on9log : List On9Call
  textEnabled : Bool
  binEnabled : Bool
  ota : Ota

/-- `esp_log_level_set` as documented: `*` resets the level of all tags. -/
def espLogLevelSet (tag : Bytes) (level : Int) (levels : Bytes → Int) : Bytes → Int :=
  if tag = ascii "*" then fun _ => level else Function.update levels tag level

/-- `apply_tag_level`. -/
def applyTagLevel (tag : Bytes) (level : Int) (s : BuiltinState) : BuiltinState :=
  { s with
    on9log := s.on9log ++ [.setTagLevel tag level]
    espLevel := espLogLevelSet tag level s.espLevel }

/-- The handler of `log.config` once the parameters are decoded. -/
def applyLogConfig (cfg : LogConfig) (s : BuiltinState) : BuiltinState :=
  let s :=
    if 0 ≤ cfg.level then
      { s with
        on9log := s.on9log ++ [.setLevel cfg.level]
        espLevel := espLogLevelSet (ascii "*") cfg.level s.espLevel }
    else s
  let s := if 0 ≤ cfg.text then { s with textEnabled := decide (cfg.text = 1) } else s
  if 0 ≤ cfg.bin then { s with binEnabled := decide (cfg.bin = 1) } else s

/-- The handler of `log.config`. -/
def logConfig : Handler BuiltinState := fun _ params s =>
  match params.decodeLogConfig .unchanged applyTagLevel s with
  | (.ok, cfg, s) => (⟨[], [], .ok⟩, applyLogConfig cfg s)
  | (_, _, s) => (⟨[], [ascii "bad log.config params"], .invalidArg⟩, s)

/-- The handler of `ota.start`; `created` says whether an update task can be created. -/
def otaStart (created : Bool) : Handler BuiltinState := fun _ params s =>
  match params.decodeOtaParams (some 0) with
  | none => (⟨[], [ascii "bad ota.start params"], .invalidArg⟩, s)
  | some p =>
    let started := { s with ota := s.ota.start p created }
    -- Of the errors of `start` only this one is looked at.
    if s.ota.startRet p created = .invalidState then
      (⟨[], [ascii "an update is already running"], .invalidState⟩, started)
    else (⟨[], [], .ok⟩, started)

/-! ## Answers -/

/-- The platform is answered `ok:true`. -/
def AnsweredOk (body : Bytes) : Prop := ∃ result, body = (okAnswer result).value.bytes

/-- The platform is answered `ok:false`. -/
def AnsweredError (body : Bytes) : Prop :=
  ∃ error, error ≠ [] ∧ body = (errorAnswer error).value.bytes

/-- A run that writes nothing and, if it does not succeed, says why in plain text. -/
inductive Explained : HandlerRun → Prop
  | done : Explained ⟨[], [], .ok⟩
  | refused {msg : Bytes} {ret : EspErr} (hret : ret ≠ .ok) (hplain : PlainText msg) :
      Explained ⟨[], [msg], ret⟩

theorem Explained.answerable {run : HandlerRun} (h : Explained run)
    (errName : EspErr → Bytes) : Answerable errName run := by
  cases h with
  | done => exact ⟨⟨.nil, rfl⟩, fun _ hret => absurd rfl hret⟩
  | refused hret hplain => exact ⟨⟨.nil, rfl⟩, nofun⟩

/-- A plain message of a handler fits the smallest answer. -/
theorem errorFits_failText {resultMax : Nat} {msg : Bytes} (hmax : 256 ≤ resultMax)
    (hplain : PlainText msg) : ErrorFits resultMax (failText msg) := by
  rw [← snprintf_of_lt (length_failText msg)]
  refine errorFits_of_plain hmax ?_
  unfold failText
  dsimp only
  split_ifs
  · decide
  · intro c hc
    exact hplain c (List.mem_of_mem_take ((List.takeWhile_prefix _).subset hc))

theorem Explained.fits {resultMax : Nat} {run : HandlerRun} (h : Explained run)
    (errName : EspErr → Bytes) (hmax : 256 ≤ resultMax) : RunFits resultMax errName run := by
  cases h with
  | done => exact fun hret => absurd rfl hret
  | refused hret hplain => exact errorFits_failText hmax hplain

theorem Explained.succeeds {resultMax : Nat} {run : HandlerRun} (h : Explained run)
    (hmax : 256 ≤ resultMax) (hret : run.ret = .ok) : RunSucceeds resultMax run .nil := by
  cases h with
  | done =>
    have hlen : (okAnswer .nil).value.bytes.length = 23 := by
      rw [bytes_okAnswer]
      decide
    exact ⟨rfl, rfl, rfl, by omega, by decide⟩
  | refused hne hplain => exact absurd hret hne

/-- The two kinds of answers differ in their seventh byte. -/
theorem not_answeredError_of_answeredOk {body : Bytes} (hok : AnsweredOk body) :
    ¬ AnsweredError body := by
  rintro ⟨error, -, herror⟩
  obtain ⟨result, hresult⟩ := hok
  rw [hresult, bytes_okAnswer, bytes_errorAnswer] at herror
  have hbyte := congrArg (fun bytes => bytes[6]?) herror
  revert hbyte
  rw [List.getElem?_append_left (by decide), List.getElem?_append_left (by decide)]
  decide

variable {σ : Type} {payloadMax resultMax : Nat} {errName : EspErr → Bytes}
  {methods : MethodTable σ} {slot : Slot payloadMax} {respBuf : Buf resultMax} {s : σ}

/-- **A handler that explains its errors** is answered `ok:true` exactly when it runs and
returns `ESP_OK`, and `ok:false` otherwise. -/
theorem handle_explained {handler : Handler σ} (hmax : 256 ≤ resultMax)
    (hfind : findMethod methods slot.method.cstr = some handler)
    (hrun : Explained (runHandler handler slot s).1) :
    (AnsweredOk (handle errName methods slot respBuf s).1 ↔
      slot.tooLarge = false ∧ slot.params.1 = .ok ∧ (runHandler handler slot s).1.ret = .ok) ∧
    (AnsweredOk (handle errName methods slot respBuf s).1 ∨
      AnsweredError (handle errName methods slot respBuf s).1) := by
  have hanswerable : ∀ handler', findMethod methods slot.method.cstr = some handler' →
      Answerable errName (runHandler handler' slot s).1 := by
    intro handler' hfind'
    obtain rfl : handler = handler' := Option.some.inj (hfind.symm.trans hfind')
    exact hrun.answerable errName
  have hfits : AnswerFits resultMax errName methods slot s := by
    intro _
    rw [hfind]
    exact fun _ => hrun.fits errName hmax
  rcases (answersRight_iff_fits hmax hanswerable respBuf).mpr hfits with
    ⟨result, hresult, hbody⟩ | ⟨hno, herror⟩
  · have hok : AnsweredOk (handle errName methods slot respBuf s).1 := ⟨result, hbody⟩
    have hruns := hresult
    obtain ⟨hsmall, -, -, hparse, -⟩ := hruns
    obtain ⟨-, -, hret, -⟩ := (succeeds_iff hsmall hfind hparse result).mp hresult
    exact ⟨⟨fun _ => ⟨hsmall, hparse, hret⟩, fun _ => hok⟩, .inl hok⟩
  · refine ⟨⟨fun hok => absurd herror (not_answeredError_of_answeredOk hok), ?_⟩, .inr herror⟩
    rintro ⟨hsmall, hparse, hret⟩
    exact absurd ⟨.nil, (succeeds_iff hsmall hfind hparse .nil).mpr (hrun.succeeds hmax hret)⟩ hno

/-- What a request with a handler changes: what the handler does, if it runs. -/
theorem handle_state_of_runs {handler : Handler σ}
    (hfind : findMethod methods slot.method.cstr = some handler) (hsmall : slot.tooLarge = false)
    (hparse : slot.params.1 = .ok) :
    (handle errName methods slot respBuf s).2 = (runHandler handler slot s).2 := by
  have hran : ranHandler methods slot = some handler := by
    rw [ranHandler]
    rw [if_neg (ne_true_of_eq_false hsmall), hfind]
    exact if_neg (not_not.mpr hparse)
  rw [handle_state, hran]

/-- The parameters of a request can be decoded. -/
def Slot.Decodable (slot : Slot payloadMax) : Prop :=
  slot.tooLarge = false ∧ slot.params.1 = .ok

instance : Decidable slot.Decodable := inferInstanceAs (Decidable (_ ∧ _))

/-- A request that cannot be decoded changes nothing. -/
theorem handle_state_of_not_decodable {handler : Handler σ}
    (hfind : findMethod methods slot.method.cstr = some handler) (h : ¬ slot.Decodable) :
    (handle errName methods slot respBuf s).2 = s := by
  have hnone : ranHandler methods slot = none := by
    rw [ranHandler]
    by_cases hsmall : slot.tooLarge = false
    · have hparse : slot.params.1 ≠ .ok := fun hparse => h ⟨hsmall, hparse⟩
      rw [if_neg (ne_true_of_eq_false hsmall), hfind]
      exact if_pos hparse
    · exact if_pos (Bool.eq_true_of_not_eq_false hsmall)
  rw [handle_state, hnone]

/-- The calls of a result determine the answer. -/
theorem bytes_of_calls {result result' : WrittenMembers} (h : result.calls = result'.calls) :
    (okAnswer result).value.bytes = (okAnswer result').value.bytes := by
  have hcalls : (okAnswer result).calls none = (okAnswer result').calls none := by
    simp only [okAnswer, Written.calls, WrittenMembers.calls, h]
  have htext := (wrote (okAnswer result) .empty none).text
  rw [hcalls, (wrote (okAnswer result') .empty none).text] at htext
  exact (List.append_cancel_left htext).symm

/-- **A handler that writes a result and returns `ESP_OK`** is answered with that result if it
fits, and else with an error. -/
theorem handle_result {handler : Handler σ} {result : WrittenMembers} (hmax : 256 ≤ resultMax)
    (hfind : findMethod methods slot.method.cstr = some handler) (hruns : slot.Decodable)
    (hrun : (runHandler handler slot s).1 = ⟨result.calls, [], .ok⟩)
    (hnesting : (okAnswer result).nesting ≤ maxDepth) :
    if (okAnswer result).value.bytes.length < resultMax then
      (handle errName methods slot respBuf s).1 = (okAnswer result).value.bytes
    else AnsweredError (handle errName methods slot respBuf s).1 := by
  have hanswerable : ∀ handler', findMethod methods slot.method.cstr = some handler' →
      Answerable errName (runHandler handler' slot s).1 := by
    intro handler' hfind'
    obtain rfl : handler = handler' := Option.some.inj (hfind.symm.trans hfind')
    rw [hrun]
    exact ⟨⟨result, rfl⟩, fun _ hret => absurd rfl hret⟩
  have hfits : AnswerFits resultMax errName methods slot s := by
    rw [answerFits_iff hruns.1 hfind hruns.2, hrun]
    exact fun hret => absurd rfl hret
  have hsucceeds := fun result =>
    @succeeds_iff _ resultMax _ _ slot s _ hruns.1 hfind hruns.2 result
  have hright := (answersRight_iff_fits hmax hanswerable respBuf).mpr hfits
  split_ifs with hroom
  · have hresult : Succeeds resultMax methods slot s result := by
      rw [hsucceeds, hrun]
      exact ⟨rfl, rfl, rfl, hroom, hnesting⟩
    rcases hright with ⟨result', hresult', hbody⟩ | ⟨hno, -⟩
    · rw [hsucceeds, hrun] at hresult'
      rw [hbody, bytes_of_calls hresult'.1]
    · exact absurd ⟨result, hresult⟩ hno
  · rcases hright with ⟨result', hresult', -⟩ | ⟨-, herror⟩
    · rw [hsucceeds, hrun] at hresult'
      obtain ⟨hcalls, -, -, hroom', -⟩ := hresult'
      rw [← bytes_of_calls hcalls] at hroom'
      exact absurd hroom' hroom
    · exact herror

/-- A slot with a request for the method `name` with these parameters. -/
def requestSample (name : Bytes) (params : Bytes) (h : params.length ≤ 256 := by decide) :
    Slot 256 :=
  { slotSample name with
    payload := ((Buf.zero 257).memcpy 0 params).getD (.zero 257)
    payloadLen := params.length
    payloadLen_le := h }

/-- The state before the first request. -/
def BuiltinState.sample : BuiltinState := ⟨fun _ => 1, [], true, true, .init⟩

/-! ## `log.config` -/

/-- What follows the decoding: the level is set for all tags. -/
theorem espLevel_applyLogConfig (cfg : LogConfig) (s : BuiltinState) :
    (applyLogConfig cfg s).espLevel = if 0 ≤ cfg.level then fun _ => cfg.level else s.espLevel := by
  unfold applyLogConfig
  dsimp only
  split_ifs <;> rfl

/-- The two ways through the handler of `log.config`: it refuses the request and changes nothing,
or it sets the listed tags and then, if the request has a level, all tags. -/
theorem logConfig_cases (method : Bytes) (params : JsonReader) (s : BuiltinState) :
    (∃ entries, params.listedTags = some entries ∧ (logConfig method params s).1 = ⟨[], [], .ok⟩ ∧
      ∀ tag, (logConfig method params s).2.espLevel tag =
        params.requestLevel.getD ((JsonReader.setTags applyTagLevel entries s).espLevel tag)) ∨
    logConfig method params s = (⟨[], [ascii "bad log.config params"], .invalidArg⟩, s) := by
  have hspec := params.decodeLogConfig_spec .unchanged applyTagLevel s
  rw [logConfig]
  generalize params.decodeLogConfig .unchanged applyTagLevel s = decoded at hspec
  cases hspec with
  | @accepted entries text bin hlevel htags =>
    refine .inl ⟨entries, htags, rfl, fun tag => ?_⟩
    dsimp only
    rw [espLevel_applyLogConfig]
    dsimp only
    cases hreq : params.requestLevel with
    | none => rfl
    | some level => exact congrFun (if_pos (hlevel level hreq)) tag
  | refused h => exact .inr rfl

theorem logConfig_explained (method : Bytes) (params : JsonReader) (s : BuiltinState) :
    Explained (logConfig method params s).1 := by
  rcases logConfig_cases method params s with ⟨entries, -, hrun, -⟩ | hrun
  · rw [hrun]
    exact .done
  · rw [hrun]
    exact .refused nofun (by decide)

/-! ## `ota.start` -/

/-- A request for `ota.start` that gets as far as `sc_ota::start`, with these parameters. -/
def CallsStart (slot : Slot payloadMax) (p : OtaParams) : Prop :=
  slot.tooLarge = false ∧ slot.params.1 = .ok ∧ slot.params.2.decodeOtaParams (some 0) = some p

/-- An update task has been created with these parameters. -/
structure Launched (before after : Ota) (p : OtaParams) : Prop where
  idle : before.running = false
  running : after.running = true
  pc : after.pc = .getPartition
  params : after.params = p

/-- An update with the same task id is running. -/
def AlreadyRunning (s : Ota) (p : OtaParams) : Prop :=
  s.running = true ∧ p.taskId = s.params.taskId

/-- `start` refuses an update only while another one is running. -/
theorem startRet_ne_invalidState {s : Ota} {p : OtaParams} (created : Bool) :
    s.startRet p created ≠ .invalidState ↔ s.running = false ∨ AlreadyRunning s p := by
  rw [Ota.startRet, AlreadyRunning]
  cases s.running <;> cases created <;> simp

/-- `start` of an idle updater. -/
theorem launched_start {s : Ota} {p : OtaParams} (hidle : s.running = false) :
    Launched s (s.start p true) p := by
  have hstart : s.start p true = s.launch p true := by
    rw [Ota.start]
    rw [hidle]
    rfl
  rw [hstart]
  exact ⟨hidle, rfl, rfl, rfl⟩

theorem otaStart_explained (created : Bool) (method : Bytes) (params : JsonReader)
    (s : BuiltinState) : Explained (otaStart created method params s).1 := by
  rw [otaStart]
  cases params.decodeOtaParams (some 0) with
  | none => exact .refused nofun (by decide)
  | some p =>
    dsimp only
    split_ifs
    · exact .refused nofun (by decide)
    · exact .done

/-- The handler of `ota.start` succeeds unless `start` refuses the update. -/
theorem otaStart_ok {created : Bool} {method : Bytes} {params : JsonReader} {s : BuiltinState} :
    (otaStart created method params s).1.ret = .ok ↔
      ∃ p, params.decodeOtaParams (some 0) = some p ∧
        (s.ota.running = false ∨ AlreadyRunning s.ota p) := by
  rw [otaStart]
  cases params.decodeOtaParams (some 0) with
  | none => simp
  | some p =>
    simp only [Option.some.injEq, exists_eq_left', ← startRet_ne_invalidState created]
    split_ifs with h <;> simp [h]

theorem otaStart_ota {created : Bool} {method : Bytes} {params : JsonReader} {s : BuiltinState}
    {p : OtaParams} (h : params.decodeOtaParams (some 0) = some p) :
    (otaStart created method params s).2.ota = s.ota.start p created := by
  rw [otaStart]
  rw [h]
  dsimp only
  split_ifs <;> rfl

/-- What a request that gets as far as `start` leaves behind. -/
theorem handle_otaStart {respBuf : Buf resultMax} {methods : MethodTable BuiltinState}
    {s : BuiltinState} {created : Bool} {p : OtaParams}
    (hfind : findMethod methods slot.method.cstr = some (otaStart created))
    (hp : CallsStart slot p) :
    (handle errName methods slot respBuf s).2.ota = s.ota.start p created := by
  obtain ⟨hsmall, hparse, hdecode⟩ := hp
  rw [handle_state_of_runs hfind hsmall hparse]
  rw [runHandler]
  exact otaStart_ota hdecode

/-- **`ota.start`.** The platform is answered `ok:true` exactly when an update task has been
created with the decoded parameters or the same update was running, and `ok:false` otherwise,
if and only if it is not the case that the updater is idle, the parameters are accepted and
the task cannot be created. -/
theorem ota_start_iff {respBuf : Buf resultMax} {methods : MethodTable BuiltinState}
    {s : BuiltinState} {created : Bool} (hmax : 256 ≤ resultMax)
    (hfind : findMethod methods slot.method.cstr = some (otaStart created)) :
    ((AnsweredOk (handle errName methods slot respBuf s).1 ↔
        ∃ p, CallsStart slot p ∧
          (Launched s.ota (handle errName methods slot respBuf s).2.ota p ∨
            AlreadyRunning s.ota p)) ∧
      (AnsweredOk (handle errName methods slot respBuf s).1 ∨
        AnsweredError (handle errName methods slot respBuf s).1)) ↔
    ¬ ((∃ p, CallsStart slot p) ∧ s.ota.running = false ∧ created = false) := by
  obtain ⟨hanswer, heither⟩ : (AnsweredOk (handle errName methods slot respBuf s).1 ↔ _) ∧ _ :=
    handle_explained hmax hfind (otaStart_explained created _ _ s)
  have hok : AnsweredOk (handle errName methods slot respBuf s).1 ↔
      ∃ p, CallsStart slot p ∧ (s.ota.running = false ∨ AlreadyRunning s.ota p) := by
    rw [hanswer]
    unfold runHandler CallsStart
    rw [otaStart_ok]
    constructor
    · rintro ⟨hsmall, hparse, p, hdecode, hp⟩
      exact ⟨p, ⟨hsmall, hparse, hdecode⟩, hp⟩
    · rintro ⟨p, ⟨hsmall, hparse, hdecode⟩, hp⟩
      exact ⟨hsmall, hparse, p, hdecode, hp⟩
  constructor
  · rintro ⟨hiff, -⟩ ⟨⟨p, hp⟩, hidle, rfl⟩
    obtain ⟨p', hp', hlaunched | hrunning⟩ := hiff.mp (hok.mpr ⟨p, hp, .inl hidle⟩)
    · -- Without a task `running` is cleared again.
      have hrunning := hlaunched.running
      rw [handle_otaStart hfind hp] at hrunning
      rw [Ota.start] at hrunning
      rw [hidle] at hrunning
      cases hrunning
    · have hbusy := hrunning.1
      rw [hidle] at hbusy
      cases hbusy
  · intro hcan
    refine ⟨?_, heither⟩
    rw [hok]
    constructor
    · rintro ⟨p, hp, hidle | hrunning⟩
      · have hcreated : created = true := by
          by_contra hno
          exact hcan ⟨⟨p, hp⟩, hidle, Bool.eq_false_iff.mpr hno⟩
        refine ⟨p, hp, .inl ?_⟩
        rw [handle_otaStart hfind hp, hcreated]
        exact launched_start hidle
      · exact ⟨p, hp, .inr hrunning⟩
    · rintro ⟨p, hp, hlaunched | hrunning⟩
      · exact ⟨p, hp, .inl hlaunched.idle⟩
      · exact ⟨p, hp, .inr hrunning⟩

/-- A request for `ota.start`. -/
def otaRequestSample : Slot 512 :=
  let params := ascii "\x7b\"url\":\"u\",\"sha256\":\"" ++ List.replicate 64 97 ++
    ascii "\",\"size\":1,\"taskId\":\"t1\"\x7d"
  { Slot.fresh 512 with
    method := ((Buf.zero 48).memcpy 0 (ascii "ota.start")).getD (.zero 48)
    payload := ((Buf.zero 513).memcpy 0 params).getD (.zero 513)
    payloadLen := params.length
    payloadLen_le := by decide }

/-- The method table of the samples. -/
def otaMethods (created : Bool) : MethodTable BuiltinState :=
  [some (ascii "ota.start", otaStart created)]

theorem find_otaRequest (created : Bool) :
    findMethod (otaMethods created) otaRequestSample.method.cstr = some (otaStart created) := by
  have hname : otaRequestSample.method.cstr = ascii "ota.start" := by decide
  rw [hname]
  rfl

theorem callsStart_sample : ∃ p, CallsStart otaRequestSample p := by
  have hdecode : (otaRequestSample.params.2.decodeOtaParams (some 0)).isSome := by decide +kernel
  obtain ⟨p, hp⟩ := Option.isSome_iff_exists.mp hdecode
  exact ⟨p, rfl, by decide +kernel, hp⟩

/-- The update task is created, and the platform is told so. -/
theorem ota_start_sample :
    AnsweredOk (handle errNameSample (otaMethods true) otaRequestSample (.zero 256) .sample).1 := by
  have hfind := find_otaRequest true
  refine ((ota_start_iff (by decide) hfind).mpr fun hno => Bool.noConfusion hno.2.2).1.mpr ?_
  obtain ⟨p, hp⟩ := callsStart_sample
  refine ⟨p, hp, .inl ?_⟩
  rw [handle_otaStart hfind hp]
  exact launched_start rfl

/-- The update task cannot be created, and the platform is told that it was. -/
theorem ota_start_hides_failure :
    ¬ ∀ (created : Bool) (slot : Slot 512) (s : BuiltinState),
      findMethod (otaMethods created) slot.method.cstr = some (otaStart created) →
      (AnsweredOk (handle errNameSample (otaMethods created) slot (.zero 256) s).1 ↔
        ∃ p, CallsStart slot p ∧
          (Launched s.ota (handle errNameSample (otaMethods created) slot (.zero 256) s).2.ota p ∨
            AlreadyRunning s.ota p)) := by
  intro hall
  have hfind := find_otaRequest false
  obtain ⟨p, hp⟩ := callsStart_sample
  obtain ⟨hsmall, hparse, hdecode⟩ := hp
  have hret : (runHandler (otaStart false) otaRequestSample .sample).1.ret = .ok := by
    rw [runHandler]
    exact otaStart_ok.mpr ⟨p, hdecode, .inl rfl⟩
  have hok : AnsweredOk
      (handle errNameSample (otaMethods false) otaRequestSample (.zero 256) .sample).1 :=
    (handle_explained (by decide) hfind (otaStart_explained _ _ _ _)).1.mpr ⟨hsmall, hparse, hret⟩
  obtain ⟨p', -, hlaunched | hrunning⟩ := (hall false otaRequestSample .sample hfind).mp hok
  · have hrunning := hlaunched.running
    rw [handle_otaStart hfind ⟨hsmall, hparse, hdecode⟩] at hrunning
    cases hrunning
  · cases hrunning.1

end SoulCloud
