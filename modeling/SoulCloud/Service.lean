import SoulCloud.Dispatch
import SoulCloud.Json.Reuse

/-!
# What a request is answered with

`handle` on a slot, said in terms of the message that the slot carries: no slots, and no
response buffer that was used before.

- `Service`: the method table and what else `handle` works with.
- `serve`: the body of the answer to a message, and the state outside after it.
- `handle_carries`: `handle` computes it from any slot that carries the message.
- `whole_serve`: with 690 bytes for a response every answer is one whole JSON object.
-/

namespace SoulCloud

open Bytes

/-! ## What a request is answered with -/

/-- What `handle` works with, whatever the request. -/
structure Service (σ : Type) where
  /-- `CONFIG_SOULCLOUD_RPC_RESULT_MAX` (Kconfig: 256 to 8192). -/
  resultMax : Nat
  resultMax_ge : 256 ≤ resultMax := by decide
  /-- `esp_err_to_name`, which has a name for every code. -/
  errName : EspErr → Bytes
  errName_ne : ∀ e, e ≠ .ok → errName e ≠ []
  methods : MethodTable σ

/-- The method that a request's topic names, as far as a slot holds it. -/
def Message.method (cfg : Config) (m : Message) : Bytes :=
  ((requestMethod cfg m.topic).take 47).map Slot.dotted

variable {cfg : Config} {σ : Type}

/-- A body is one whole JSON object, a result or an error with a text. -/
def IsWhole (body : Bytes) : Prop :=
  (∃ result, body = (okAnswer result).value.bytes) ∨
    ∃ error, error ≠ [] ∧ body = (errorAnswer error).value.bytes

theorem length_escape_le (c : UInt8) : (JsonText.escape c).length ≤ 6 := by
  unfold JsonText.escape
  repeat' split
  all_goals simp [ascii]

theorem length_flatMap_escape_le (t : Bytes) :
    (t.flatMap JsonText.escape).length ≤ 6 * t.length := by
  induction t with
  | nil => exact Nat.le_refl 0
  | cons c rest ih =>
    have hc := length_escape_le c
    rw [List.flatMap_cons, List.length_append, List.length_cons]
    omega

namespace Service

variable (svc : Service σ)

/-- The text of an answer: the result that a handler wrote, or an error. -/
def answerCalls : Except Bytes (List WriterCall) → List WriterCall
  | .ok result => beginResult ++ result ++ endResult
  | .error text => errorCalls text

/-- The body of an answer, written into a buffer that nothing was written to before. -/
def body (answer : Except Bytes (List WriterCall)) : Bytes :=
  ((JsonWriter.init svc.resultMax).run (answerCalls answer)).text

/-- How a handler's run is answered: what it explained itself counts first, then what it
returned, then whether its result fits. -/
def ranAnswer (run : HandlerRun) : Except Bytes (List WriterCall) :=
  match callError run.fails with
  | some text => .error text
  | none =>
    if run.ret ≠ .ok then .error (snprintf 112 (svc.errName run.ret))
    else if ((JsonWriter.init svc.resultMax).run (answerCalls (.ok run.result))).ok then
      .ok run.result
    else
      .error (snprintf 112 (ascii "result larger than " ++ decimal svc.resultMax ++ ascii " bytes"))

/-- What a request is answered with when the outside is in state `s`, and what that state is
afterwards. -/
def answer (cfg : Config) (m : Message) (s : σ) : Except Bytes (List WriterCall) × σ :=
  if cfg.payloadMax < m.payload.length then
    (.error (snprintf 112
      (ascii "request larger than " ++ decimal cfg.payloadMax ++ ascii " bytes")), s)
  else
    match findMethod svc.methods (m.method cfg) with
    | none => (.error (snprintf 112 (ascii "unknown method " ++ m.method cfg)), s)
    | some handler =>
      let params := (JsonReader.new 32).parse m.paramsJson
      if params.1 ≠ .ok then (.error (ascii "params must be a JSON object"), s)
      else
        let ran := handler (m.method cfg) params.2 s
        (svc.ranAnswer ran.1, ran.2)

/-- The body of the answer to a request, and the state outside after it. -/
def serve (cfg : Config) (m : Message) (s : σ) : Bytes × σ :=
  (svc.body (svc.answer cfg m s).1, (svc.answer cfg m s).2)

/-! ## `handle` on a slot -/

/-- What `handle` leaves in `resp_buf`. -/
def leftBuf (slot : Slot cfg.payloadMax) (respBuf : Buf svc.resultMax) (s : σ) :
    Buf svc.resultMax :=
  match handleError svc.errName svc.methods slot (.new respBuf) s with
  | ([], out, _) => out.buf
  | (error, out, _) => (out.reset.run (errorCalls error)).buf

theorem resultMax_pos : 0 < svc.resultMax := Nat.lt_of_lt_of_le (by decide) svc.resultMax_ge

/-- What `handle` makes of the error text, the writer and the state: the text, unless it is empty,
replaces what was written. -/
theorem handle_eq (slot : Slot cfg.payloadMax) (respBuf : Buf svc.resultMax) (s : σ)
    {text : Bytes} {out : JsonWriter svc.resultMax} {s' : σ}
    (h : handleError svc.errName svc.methods slot (.new respBuf) s = (text, out, s')) :
    handle svc.errName svc.methods slot respBuf s =
      (if text = [] then out.text else (out.reset.run (errorCalls text)).text, s') := by
  rw [handle]
  rw [h]
  cases text with
  | nil => rfl
  | cons c rest => rw [if_neg (List.cons_ne_nil c rest)]

/-- An error answer is the same in any buffer. -/
theorem body_error (out : JsonWriter svc.resultMax) (text : Bytes) :
    (out.reset.run (errorCalls text)).text = svc.body (.error text) :=
  ((JsonWriter.alike_reset out _).run svc.resultMax_pos (errorCalls text)).text

theorem handle_of_error (slot : Slot cfg.payloadMax) (respBuf : Buf svc.resultMax) (s : σ)
    {text : Bytes} {out : JsonWriter svc.resultMax} {s' : σ} (htext : text ≠ [])
    (h : handleError svc.errName svc.methods slot (.new respBuf) s = (text, out, s')) :
    handle svc.errName svc.methods slot respBuf s = (svc.body (.error text), s') := by
  rw [svc.handle_eq slot respBuf s h, if_neg htext, svc.body_error]

theorem snprintf_ne_nil {t : Bytes} (h : t ≠ []) : snprintf 112 t ≠ [] := by
  rw [snprintf]
  rw [Ne, List.take_eq_nil_iff]
  rintro (h0 | hnil)
  · cases h0
  · exact h hnil

theorem append_append_ne_nil {a b c : Bytes} (h : a ≠ []) : a ++ b ++ c ≠ [] :=
  fun heq => h (List.append_eq_nil_iff.mp (List.append_eq_nil_iff.mp heq).1).1

/-- The last part of `handle`, after a handler's run. -/
theorem handle_ran (slot : Slot cfg.payloadMax) (respBuf : Buf svc.resultMax) (s : σ)
    (ran : HandlerRun × σ)
    (h : handleError svc.errName svc.methods slot (.new respBuf) s =
      ranError svc.errName svc.resultMax (.new respBuf) ran) :
    handle svc.errName svc.methods slot respBuf s =
      (svc.body (svc.ranAnswer ran.1), ran.2) := by
  have halike := JsonWriter.run_new_alike svc.resultMax_pos respBuf (.zero svc.resultMax)
    (answerCalls (.ok ran.1.result))
  have hcalls : (((JsonWriter.new respBuf).run beginResult).run ran.1.result).run endResult =
      (JsonWriter.new respBuf).run (answerCalls (.ok ran.1.result)) := by
    unfold JsonWriter.run answerCalls
    rw [List.foldl_append, List.foldl_append]
  rw [ranError] at h
  rw [ranAnswer]
  rw [hcalls] at h
  cases herror : callError ran.1.fails with
  | some text =>
    rw [herror] at h
    have htext : text ≠ [] := by
      rw [callError_eq] at herror
      obtain ⟨msg, -, rfl⟩ := Option.map_eq_some_iff.mp herror
      exact failText_ne_nil msg
    have hshort : snprintf 112 text = text := by
      rw [callError_eq] at herror
      obtain ⟨msg, -, rfl⟩ := Option.map_eq_some_iff.mp herror
      exact snprintf_of_lt (length_failText msg)
    dsimp only at h ⊢
    rw [hshort] at h
    exact svc.handle_of_error slot respBuf s htext h
  | none =>
    rw [herror] at h
    dsimp only at h ⊢
    by_cases hret : ran.1.ret ≠ .ok
    · rw [if_pos hret] at h ⊢
      exact svc.handle_of_error slot respBuf s (snprintf_ne_nil (svc.errName_ne _ hret)) h
    · rw [if_neg hret] at h ⊢
      cases hok : ((JsonWriter.new respBuf).run (answerCalls (.ok ran.1.result))).ok with
      | false =>
        have hok' : ((JsonWriter.init svc.resultMax).run (answerCalls (.ok ran.1.result))).ok
            = false := by
          rw [← hok, JsonWriter.ok, JsonWriter.ok, halike.overflow]
          rfl
        rw [if_pos hok] at h
        rw [if_neg (Bool.eq_false_iff.mp hok')]
        refine svc.handle_of_error slot respBuf s (snprintf_ne_nil ?_) h
        exact append_append_ne_nil (List.cons_ne_nil _ _)
      | true =>
        have hok' : ((JsonWriter.init svc.resultMax).run (answerCalls (.ok ran.1.result))).ok
            = true := by
          rw [← hok, JsonWriter.ok, JsonWriter.ok, halike.overflow]
          rfl
        rw [if_neg (ne_false_of_eq_true hok)] at h
        rw [if_pos hok', svc.handle_eq slot respBuf s h, if_pos rfl]
        exact congrArg (·, ran.2) halike.text

/-- **`handle` answers the message**, whichever slot carries it and whatever that slot and the
response buffer held before. -/
theorem handle_carries {m : Message} {slot : Slot cfg.payloadMax} (h : Carries cfg m slot)
    (respBuf : Buf svc.resultMax) (s : σ) :
    handle svc.errName svc.methods slot respBuf s = svc.serve cfg m s := by
  have hmethod : slot.method.cstr = m.method cfg := h.method
  rw [serve, answer]
  by_cases hlarge : cfg.payloadMax < m.payload.length
  · have htoo : slot.tooLarge = true := by
      rw [h.tooLarge, decide_eq_true_eq]
      exact hlarge
    rw [if_pos hlarge]
    have herror : handleError svc.errName svc.methods slot (.new respBuf) s =
        (snprintf 112 (ascii "request larger than " ++ decimal cfg.payloadMax ++
          ascii " bytes"), .new respBuf, s) := by
      rw [handleError]
      rw [if_pos htoo]
    refine svc.handle_of_error slot respBuf s (snprintf_ne_nil ?_) herror
    exact append_append_ne_nil (List.cons_ne_nil _ _)
  · have htoo : ¬ slot.tooLarge = true := by
      rw [h.tooLarge, decide_eq_true_eq]
      exact hlarge
    have hparams : slot.params = (JsonReader.new 32).parse m.paramsJson := by
      rw [Slot.params]
      rw [h.paramsJson (Nat.le_of_not_lt hlarge)]
    rw [if_neg hlarge]
    cases hfind : findMethod svc.methods (m.method cfg) with
    | none =>
      dsimp only
      have herror : handleError svc.errName svc.methods slot (.new respBuf) s =
          (snprintf 112 (ascii "unknown method " ++ m.method cfg), .new respBuf, s) := by
        rw [handleError]
        rw [if_neg htoo, hmethod, hfind]
      exact svc.handle_of_error slot respBuf s (snprintf_ne_nil (List.cons_ne_nil _ _)) herror
    | some handler =>
      dsimp only
      have herror : handleError svc.errName svc.methods slot (.new respBuf) s =
          if ((JsonReader.new 32).parse m.paramsJson).1 ≠ .ok then
            (ascii "params must be a JSON object", .new respBuf, s)
          else ranError svc.errName svc.resultMax (.new respBuf)
            (handler (m.method cfg) ((JsonReader.new 32).parse m.paramsJson).2 s) := by
        rw [handleError]
        rw [if_neg htoo, hmethod, hfind]
        dsimp only
        rw [runHandler, hmethod, hparams]
      by_cases hparse : ((JsonReader.new 32).parse m.paramsJson).1 ≠ .ok
      · rw [if_pos hparse] at herror ⊢
        exact svc.handle_of_error slot respBuf s (List.cons_ne_nil _ _) herror
      · rw [if_neg hparse] at herror ⊢
        exact svc.handle_ran slot respBuf s _ herror

/-! ## Whole answers -/

/-- An answer is an error with a text that `handle` has room for, or the members that a handler has
written, if they fit. -/
inductive Proper : Except Bytes (List WriterCall) → Prop
  | error {text : Bytes} (hne : text ≠ []) (hlen : text.length ≤ 111) : Proper (.error text)
  | ok {result : WrittenMembers}
      (hfits : ((JsonWriter.init svc.resultMax).run (answerCalls (.ok result.calls))).ok = true) :
      Proper (.ok result.calls)

theorem length_snprintf_le (t : Bytes) : (snprintf 112 t).length ≤ 111 := List.length_take_le _ _

theorem proper_snprintf {t : Bytes} (h : t ≠ []) : svc.Proper (.error (snprintf 112 t)) :=
  .error (snprintf_ne_nil h) (length_snprintf_le t)

theorem proper_ran {run : HandlerRun} {result : WrittenMembers}
    (hresult : run.result = result.calls) : svc.Proper (svc.ranAnswer run) := by
  rw [ranAnswer]
  cases herror : callError run.fails with
  | some text =>
    rw [callError_eq] at herror
    obtain ⟨msg, -, rfl⟩ := Option.map_eq_some_iff.mp herror
    have hlen := length_failText msg
    exact .error (failText_ne_nil msg) (by omega)
  | none =>
    dsimp only
    rw [hresult]
    split_ifs with hret hfits
    · exact svc.proper_snprintf (svc.errName_ne _ hret)
    · exact .ok hfits
    · exact svc.proper_snprintf (append_append_ne_nil (List.cons_ne_nil _ _))

theorem proper_answer (hbalanced : Balanced svc.methods) (m : Message) (s : σ) :
    svc.Proper (svc.answer cfg m s).1 := by
  rw [answer]
  split_ifs with hlarge
  · exact svc.proper_snprintf (append_append_ne_nil (List.cons_ne_nil _ _))
  · cases hfind : findMethod svc.methods (m.method cfg) with
    | none => exact svc.proper_snprintf (List.cons_ne_nil _ _)
    | some handler =>
      dsimp only
      split_ifs with hparse
      · exact .error (List.cons_ne_nil _ _) (by decide)
      · obtain ⟨result, hresult⟩ := hbalanced _ _ (findMethod_mem hfind) (m.method cfg)
          ((JsonReader.new 32).parse m.paramsJson).2 s
        exact svc.proper_ran hresult

/-- An error text of the size that `handle` has room for fits in any form. -/
theorem body_of_error (hmax : 690 ≤ svc.resultMax) {text : Bytes} (hlen : text.length ≤ 111) :
    svc.body (.error text) = (errorAnswer text).value.bytes := by
  have hescaped := length_flatMap_escape_le text
  obtain ⟨hok, htext, -⟩ := JsonWriter.reset_run_written
    (⟨.zero svc.resultMax, 0, id, false, 0, 0⟩ : JsonWriter svc.resultMax) (errorAnswer text)
    svc.resultMax_pos
  refine htext (hok.mpr ⟨?_, nesting_errorAnswer text⟩)
  rw [length_errorAnswer]
  omega

/-- A result that fits is written whole. -/
theorem body_of_ok {result : WrittenMembers}
    (hfits : ((JsonWriter.init svc.resultMax).run (answerCalls (.ok result.calls))).ok = true) :
    svc.body (.ok result.calls) = (okAnswer result).value.bytes := by
  have hcalls : answerCalls (.ok result.calls) = (okAnswer result).calls none := by
    rw [answerCalls]
    simp [okAnswer, Written.calls, WrittenMembers.calls, Leaf.call, beginResult, endResult]
  rw [hcalls] at hfits
  obtain ⟨-, htext, -⟩ := JsonWriter.reset_run_written
    (⟨.zero svc.resultMax, 0, id, false, 0, 0⟩ : JsonWriter svc.resultMax) (okAnswer result)
    svc.resultMax_pos
  rw [body, hcalls]
  exact htext hfits

theorem whole_serve (hmax : 690 ≤ svc.resultMax) (hbalanced : Balanced svc.methods) (m : Message)
    (s : σ) : IsWhole (svc.serve cfg m s).1 := by
  have hproper : svc.Proper (svc.answer cfg m s).1 := svc.proper_answer hbalanced m s
  rw [serve]
  generalize (svc.answer cfg m s).1 = answer at hproper ⊢
  cases hproper with
  | error hne hlen => exact .inr ⟨_, hne, svc.body_of_error hmax hlen⟩
  | @ok result hfits => exact .inl ⟨result, svc.body_of_ok hfits⟩

end Service

/-- Every code but `ESP_OK` has a name. -/
theorem errNameSample_ne (e : EspErr) (he : e ≠ .ok) : errNameSample e ≠ [] := by
  cases e with
  | ok => exact absurd rfl he
  | other code => exact List.cons_ne_nil _ _
  | _ => decide

/-- A handler that counts its requests and reports the count. -/
def countSample : Handler Nat := fun _ _ n =>
  (⟨[.addUint (some (ascii "n")) (n + 1)], [], .ok⟩, n + 1)

/-- A service with that method. -/
def serviceSample : Service Nat where
  resultMax := 768
  errName := errNameSample
  errName_ne := errNameSample_ne
  methods := [some (ascii "echo", countSample)]

theorem balanced_countSample : Balanced serviceSample.methods := by
  intro name handler hmem method params n
  obtain ⟨rfl, rfl⟩ : name = ascii "echo" ∧ handler = countSample := by
    simpa [serviceSample] using hmem
  exact ⟨.cons (ascii "n") (.leaf (.uint (n + 1))) .nil, rfl⟩

end SoulCloud
