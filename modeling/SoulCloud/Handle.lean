import SoulCloud.Json.Document
import SoulCloud.Json.Written
import SoulCloud.Rpc

/-!
# Running a request (`sc_rpc::handle`)

The method table and what `handle` makes of a slot: the body that it passes to `respond`.

- `HandlerRun`: what one run of a handler writes, what it fails with and what it returns.
- `findMethod`, `handle`: the lookup and the six ways to an error text.
- `Succeeds`, `AnswersRight`: what a request should be answered with.
- `handle_answers_iff`: it is answered so exactly when the escaped error text fits.
-/

namespace SoulCloud

open Bytes Json

/-- One run of a method handler: its calls on `call.result`, the text of each call to `fail`
and what it returns. -/
structure HandlerRun where
  result : List WriterCall
  fails : List Bytes
  ret : EspErr

/-- `sc_method_handler`: a handler sees the method, the parameters and a state `σ` outside of
`sc_rpc`. -/
abbrev Handler (σ : Type) := Bytes → JsonReader → σ → HandlerRun × σ

/-- `methods`: an entry is free while its name is null. -/
abbrev MethodTable (σ : Type) := List (Option (Bytes × Handler σ))

/-- `sc_rpc_call::fail` into a `char[96]`. -/
def failText (msg : Bytes) : Bytes :=
  let text := cstr (snprintf 96 msg)
  if text = [] then ascii "failed" else text

/-- `sc_rpc_call::error` after these calls to `fail`. -/
def callError (fails : List Bytes) : Option Bytes :=
  let errorMsg := fails.foldl (fun _ msg => failText msg) []
  if errorMsg = [] then none else some errorMsg

/-- `sc_rpc::find_method`. -/
def findMethod {σ : Type} (methods : MethodTable σ) (name : Bytes) : Option (Handler σ) :=
  match methods with
  | [] => none
  | none :: rest => findMethod rest name
  | some (entryName, handler) :: rest =>
    if entryName = name then some handler else findMethod rest name

variable {payloadMax resultMax : Nat} {σ : Type}

/-- The text of the parameters: an empty payload means none. -/
def Slot.paramsJson (slot : Slot payloadMax) : Bytes :=
  if 0 < slot.payloadLen then slot.payload.text slot.payloadLen else [123, 125]

/-- The parameters, parsed into 32 tokens. -/
def Slot.params (slot : Slot payloadMax) : EspErr × JsonReader :=
  (JsonReader.new 32).parse slot.paramsJson

/-- A handler runs on the request in a slot. -/
def runHandler (handler : Handler σ) (slot : Slot payloadMax) (s : σ) : HandlerRun × σ :=
  handler slot.method.cstr slot.params.2 s

/-- The answer before the handler runs, and what follows its result. -/
def beginResult : List WriterCall :=
  [.beginObject none, .addBool (some (ascii "ok")) true, .beginObject (some (ascii "result"))]

def endResult : List WriterCall := [.endObject, .endObject]

/-- The answer with an error text. -/
def errorCalls (error : Bytes) : List WriterCall :=
  [.beginObject none, .addBool (some (ascii "ok")) false,
    .addStr (some (ascii "error")) (some error), .endObject]

/-- `sc_rpc::handle` after the handler has run: the error text, the writer and the state
outside. -/
def ranError (errName : EspErr → Bytes) (resultMax : Nat) (out : JsonWriter resultMax)
    (ran : HandlerRun × σ) : Bytes × JsonWriter resultMax × σ :=
  let out := ((out.run beginResult).run ran.1.result).run endResult
  match callError ran.1.fails with
  | some error => (snprintf 112 error, out, ran.2)
  | none =>
    if ran.1.ret ≠ .ok then (snprintf 112 (errName ran.1.ret), out, ran.2)
    else if out.ok = false then
      (snprintf 112 (ascii "result larger than " ++ decimal resultMax ++ ascii " bytes"), out,
        ran.2)
    else ([], out, ran.2)

/-- `sc_rpc::handle` up to the error text: the text, the writer and the state outside.
`error` is a `char[112]`, and `errName` is `esp_err_to_name`. -/
def handleError (errName : EspErr → Bytes) (methods : MethodTable σ) (slot : Slot payloadMax)
    (out : JsonWriter resultMax) (s : σ) : Bytes × JsonWriter resultMax × σ :=
  if slot.tooLarge then
    (snprintf 112 (ascii "request larger than " ++ decimal payloadMax ++ ascii " bytes"), out, s)
  else
    match findMethod methods slot.method.cstr with
    | none => (snprintf 112 (ascii "unknown method " ++ slot.method.cstr), out, s)
    | some handler =>
      if slot.params.1 ≠ .ok then (ascii "params must be a JSON object", out, s)
      else ranError errName resultMax out (runHandler handler slot s)

/-- `sc_rpc::handle`: the body passed to `respond`, and the state outside. `respBuf` is what
`resp_buf` holds from earlier answers. -/
def handle (errName : EspErr → Bytes) (methods : MethodTable σ) (slot : Slot payloadMax)
    (respBuf : Buf resultMax) (s : σ) : Bytes × σ :=
  match handleError errName methods slot (.new respBuf) s with
  | ([], out, s) => (out.text, s)
  | (error, out, s) => ((out.reset.run (errorCalls error)).text, s)

/-! ## What a request should be answered with -/

/-- `{"ok":true,"result":{...}}`. -/
def okAnswer (result : WrittenMembers) : Written :=
  .object (.cons (ascii "ok") (.leaf (.bool true)) (.cons (ascii "result") (.object result) .nil))

/-- `{"ok":false,"error":"..."}`. -/
def errorAnswer (error : Bytes) : Written :=
  .object (.cons (ascii "ok") (.leaf (.bool false))
    (.cons (ascii "error") (.leaf (.str (some error))) .nil))

/-- The request is not too large, the method is known, the parameters parse, and the handler
returns `ESP_OK` without calling `fail` and writes `result`, which fits. -/
def Succeeds (resultMax : Nat) (methods : MethodTable σ) (slot : Slot payloadMax) (s : σ)
    (result : WrittenMembers) : Prop :=
  slot.tooLarge = false ∧ ∃ handler, findMethod methods slot.method.cstr = some handler ∧
    slot.params.1 = .ok ∧
    let run := (runHandler handler slot s).1
    run.result = result.calls ∧ run.fails = [] ∧ run.ret = .ok ∧
      (okAnswer result).value.bytes.length < resultMax ∧ (okAnswer result).nesting ≤ maxDepth

/-- The body is one JSON object: the result exactly when the request succeeds, and otherwise a
non-empty error text. -/
def AnswersRight (resultMax : Nat) (methods : MethodTable σ) (slot : Slot payloadMax) (s : σ)
    (body : Bytes) : Prop :=
  (∃ result, Succeeds resultMax methods slot s result ∧ body = (okAnswer result).value.bytes) ∨
    ((¬ ∃ result, Succeeds resultMax methods slot s result) ∧
      ∃ error, error ≠ [] ∧ body = (errorAnswer error).value.bytes)

/-- An answer with this error text fits: 23 bytes surround the escaped text. -/
def ErrorFits (resultMax : Nat) (error : Bytes) : Prop :=
  23 + (error.flatMap JsonText.escape).length < resultMax

/-- The texts that come from outside fit: the name of an unknown method, the last message of
the handler, and the name of the error code it returns. -/
def AnswerFits (resultMax : Nat) (errName : EspErr → Bytes) (methods : MethodTable σ)
    (slot : Slot payloadMax) (s : σ) : Prop :=
  slot.tooLarge = false →
    match findMethod methods slot.method.cstr with
    | none => ErrorFits resultMax (ascii "unknown method " ++ slot.method.cstr)
    | some handler =>
      slot.params.1 = .ok →
        let run := (runHandler handler slot s).1
        match run.fails.getLast? with
        | some msg => ErrorFits resultMax (failText msg)
        | none => run.ret ≠ .ok → ErrorFits resultMax (snprintf 112 (errName run.ret))

/-- Handlers write keyed members, with every container closed. -/
def Balanced (methods : MethodTable σ) : Prop :=
  ∀ name handler, some (name, handler) ∈ methods →
    ∀ method params s, ∃ result : WrittenMembers, (handler method params s).1.result = result.calls

/-- A run that `handle` can answer: it writes keyed members, and the error it ends with, if it
does not explain itself, has a name. -/
structure Answerable (errName : EspErr → Bytes) (run : HandlerRun) : Prop where
  balanced : ∃ result : WrittenMembers, run.result = result.calls
  named : run.fails = [] → run.ret ≠ .ok → errName run.ret ≠ []

/-! ## Error texts -/

theorem failText_ne_nil (msg : Bytes) : failText msg ≠ [] := by
  unfold failText
  dsimp only
  split_ifs with h
  · decide
  · exact h

theorem length_failText (msg : Bytes) : (failText msg).length < 112 := by
  unfold failText
  dsimp only
  split_ifs
  · decide
  · have hcstr : (cstr (snprintf 96 msg)).length ≤ (snprintf 96 msg).length :=
      (List.takeWhile_prefix _).length_le
    have htake : (snprintf 96 msg).length ≤ 95 := List.length_take_le _ _
    omega

/-- The last call to `fail` counts. -/
theorem callError_eq (fails : List Bytes) : callError fails = fails.getLast?.map failText := by
  rw [callError]
  rcases List.eq_nil_or_concat fails with rfl | ⟨before, msg, rfl⟩
  · rfl
  · rw [List.concat_eq_append, List.foldl_append, List.getLast?_concat]
    exact if_neg (failText_ne_nil msg)

theorem length_cstr_method (slot : Slot payloadMax) : slot.method.cstr.length ≤ 48 := by
  have hsize := slot.method.size
  have hle := (List.takeWhile_prefix (l := slot.method.bytes) (· != 0)).length_le
  rw [hsize] at hle
  exact hle

/-- The longest plain text is far shorter than the smallest buffer. -/
theorem errorFits_of_plain {resultMax : Nat} {t : Bytes} (hmax : 256 ≤ resultMax)
    (ht : PlainText t) : ErrorFits resultMax (snprintf 112 t) := by
  have hlen : (snprintf 112 t).length ≤ 111 := List.length_take_le _ _
  have hplain : (snprintf 112 t).flatMap JsonText.escape = snprintf 112 t :=
    flatMap_escape_of_plain fun c hc => ht c (List.mem_of_mem_take hc)
  rw [ErrorFits]
  rw [hplain]
  omega

theorem plain_decimal (n : Nat) : PlainText (decimal n) := by
  intro c hc
  obtain ⟨hlow, hhigh⟩ := decimal_digit hc
  refine ⟨UInt8.le_trans (by decide) hlow, ?_, ?_⟩
  · rintro rfl
    exact absurd hlow (by decide)
  · rintro rfl
    exact absurd hhigh (by decide)

/-- A number between two plain words. -/
theorem plain_number {before after : Bytes} (n : Nat) (hbefore : PlainText before)
    (hafter : PlainText after) : PlainText (before ++ decimal n ++ after) := by
  intro c hc
  rcases List.mem_append.mp hc with hc | hc
  · rcases List.mem_append.mp hc with hc | hc
    · exact hbefore c hc
    · exact plain_decimal n c hc
  · exact hafter c hc

/-! ## Answers -/

/-- An object of two members. -/
theorem bytes_pair (key₁ key₂ : Bytes) (value₁ value₂ : Written) :
    (Written.object (.cons key₁ value₁ (.cons key₂ value₂ .nil))).value.bytes =
      123 :: (JsonText.quoted key₁ ++ 58 :: (value₁.value.bytes ++
        44 :: (JsonText.quoted key₂ ++ 58 :: (value₂.value.bytes ++ [125])))) := by
  simp [Written.value, WrittenMembers.members, Value.bytes, Members.bytes, quoted_escapeStr,
    separator, Ws.none]

/-- What surrounds an error text. -/
theorem bytes_errorAnswer (error : Bytes) :
    (errorAnswer error).value.bytes =
      ascii "\x7b\"ok\":false,\"error\":\"" ++ (error.flatMap JsonText.escape ++ [34, 125]) := by
  have herror : (Written.leaf (.str (some error))).value.bytes =
      34 :: (error.flatMap JsonText.escape ++ [34]) := quoted_escapeStr error
  rw [errorAnswer]
  rw [bytes_pair, herror, List.cons_append, List.append_assoc]
  rfl

/-- What surrounds a result. -/
theorem bytes_okAnswer (result : WrittenMembers) :
    (okAnswer result).value.bytes =
      ascii "\x7b\"ok\":true,\"result\":" ++ ((Written.object result).value.bytes ++ [125]) := by
  rw [okAnswer]
  rw [bytes_pair]
  rfl

theorem length_errorAnswer (error : Bytes) :
    (errorAnswer error).value.bytes.length = 23 + (error.flatMap JsonText.escape).length := by
  rw [bytes_errorAnswer, List.length_append, List.length_append]
  have hopen : (ascii "\x7b\"ok\":false,\"error\":\"").length = 21 := by decide
  have hclose : ([34, 125] : Bytes).length = 2 := rfl
  rw [hopen, hclose]
  omega

/-- An error answer that is the beginning of another one is that one: the quote behind the text
is the first that is not escaped. -/
theorem errorAnswer_of_isPrefixOf {e t : Bytes}
    (h : (errorAnswer e).value.bytes <+: (errorAnswer t).value.bytes) :
    (errorAnswer e).value.bytes = (errorAnswer t).value.bytes := by
  rw [bytes_errorAnswer, bytes_errorAnswer] at h ⊢
  rw [List.prefix_append_right_inj] at h
  obtain ⟨rest, hrest⟩ := h
  rw [← spelled_escapeStr, ← spelled_escapeStr] at hrest ⊢
  have hscan := scanString_spelled (escapeStr e) (125 :: rest) 0
  have hscan' := scanString_spelled (escapeStr t) [125] 0
  have hsame : spelled (escapeStr e) ++ 34 :: 125 :: rest = spelled (escapeStr t) ++ [34, 125] := by
    rw [← hrest]
    simp
  rw [hsame, hscan'] at hscan
  have hlen : (spelled (escapeStr t)).length = (spelled (escapeStr e)).length := by
    simpa using hscan
  obtain ⟨htext, -⟩ := List.append_inj hsame hlen.symm
  rw [htext]

theorem errorCalls_eq (error : Bytes) : errorCalls error = (errorAnswer error).calls none := rfl

theorem nesting_errorAnswer (error : Bytes) : (errorAnswer error).nesting ≤ maxDepth := by
  show max 0 (max 0 0) + 1 ≤ maxDepth
  decide

/-- **The error answer** is complete if the escaped text fits, and no error answer at all if
it does not. -/
theorem error_body_iff {w : JsonWriter resultMax} {t : Bytes} (hmax : 256 ≤ resultMax)
    (ht : t ≠ []) :
    (∃ error, error ≠ [] ∧
      (w.reset.run (errorCalls t)).text = (errorAnswer error).value.bytes) ↔
      ErrorFits resultMax t := by
  rw [errorCalls_eq]
  obtain ⟨hok, htext, hprefix, hlt⟩ := w.reset_run_written (errorAnswer t) (by omega)
  constructor
  · rintro ⟨error, -, hbody⟩
    rw [hbody] at hprefix hlt
    rw [errorAnswer_of_isPrefixOf hprefix, length_errorAnswer] at hlt
    exact hlt
  · intro hfits
    refine ⟨t, ht, htext (hok.mpr ⟨?_, nesting_errorAnswer t⟩)⟩
    rw [length_errorAnswer]
    exact hfits

/-- The calls around what the handler writes are those of the whole answer. -/
theorem calls_okAnswer (out : JsonWriter resultMax) (result : WrittenMembers) :
    ((out.run beginResult).run result.calls).run endResult =
      out.run ((okAnswer result).calls none) := by
  have hcalls : (okAnswer result).calls none = beginResult ++ result.calls ++ endResult := by
    simp [okAnswer, Written.calls, WrittenMembers.calls, Leaf.call, beginResult, endResult]
  unfold JsonWriter.run
  rw [hcalls, List.foldl_append, List.foldl_append]

theorem findMethod_mem {methods : MethodTable σ} {name : Bytes} {handler : Handler σ}
    (h : findMethod methods name = some handler) : some (name, handler) ∈ methods := by
  induction methods with
  | nil => cases h
  | cons entry rest ih =>
    cases entry with
    | none => exact List.mem_cons_of_mem _ (ih h)
    | some entry =>
      obtain ⟨entryName, entryHandler⟩ := entry
      simp only [findMethod] at h
      split_ifs at h with hname
      · cases h
        rw [hname]
        exact List.mem_cons_self
      · exact List.mem_cons_of_mem _ (ih h)

/-! ## The six ways through `handle` -/

/-- A run that succeeds with this result. -/
def RunSucceeds (resultMax : Nat) (run : HandlerRun) (result : WrittenMembers) : Prop :=
  run.result = result.calls ∧ run.fails = [] ∧ run.ret = .ok ∧
    (okAnswer result).value.bytes.length < resultMax ∧ (okAnswer result).nesting ≤ maxDepth

/-- The text of the error that a run ends with fits. -/
def RunFits (resultMax : Nat) (errName : EspErr → Bytes) (run : HandlerRun) : Prop :=
  match run.fails.getLast? with
  | some msg => ErrorFits resultMax (failText msg)
  | none => run.ret ≠ .ok → ErrorFits resultMax (snprintf 112 (errName run.ret))

/-- What `handle` has when it looks at the error text: none and a complete result, or the text
of a request that does not succeed. -/
inductive Outcome (resultMax : Nat) (succeeds : WrittenMembers → Prop) (fits : Prop) :
    Bytes × JsonWriter resultMax × σ → Prop
  | succeeded {result : WrittenMembers} {out : JsonWriter resultMax} {s' : σ}
      (hresult : succeeds result) (htext : out.text = (okAnswer result).value.bytes)
      (hfits : fits) : Outcome resultMax succeeds fits ([], out, s')
  | failed {error : Bytes} {out : JsonWriter resultMax} {s' : σ}
      (hfailed : ∀ result, ¬ succeeds result) (herror : error ≠ [])
      (hfits : ErrorFits resultMax error ↔ fits) : Outcome resultMax succeeds fits (error, out, s')

section Runs

variable {errName : EspErr → Bytes} {methods : MethodTable σ} {slot : Slot payloadMax} {s : σ}
  {handler : Handler σ}

/-- A request that gets as far as a handler succeeds as that handler's run does. -/
theorem succeeds_iff (hsmall : slot.tooLarge = false)
    (hfind : findMethod methods slot.method.cstr = some handler) (hparse : slot.params.1 = .ok)
    (result : WrittenMembers) :
    Succeeds resultMax methods slot s result ↔
      RunSucceeds resultMax (runHandler handler slot s).1 result := by
  constructor
  · rintro ⟨-, handler', hhandler, -, hrest⟩
    rw [hfind] at hhandler
    cases hhandler
    exact hrest
  · intro hrun
    exact ⟨hsmall, handler, hfind, hparse, hrun⟩

theorem answerFits_iff (hsmall : slot.tooLarge = false)
    (hfind : findMethod methods slot.method.cstr = some handler) (hparse : slot.params.1 = .ok) :
    AnswerFits resultMax errName methods slot s ↔
      RunFits resultMax errName (runHandler handler slot s).1 := by
  rw [AnswerFits]
  rw [hfind]
  exact ⟨fun h => h hsmall hparse, fun h _ _ => h⟩

/-- A run without an error: its result fits or it does not. -/
theorem finished_outcome {run : HandlerRun} {result : WrittenMembers} (hmax : 256 ≤ resultMax)
    (respBuf : Buf resultMax) (s' : σ) (hresult : run.result = result.calls)
    (hfails : run.fails = []) (hret : run.ret = .ok) :
    Outcome resultMax (RunSucceeds resultMax run) (RunFits resultMax errName run)
      (ranError errName resultMax (.new respBuf) (run, s')) := by
  have hcomplete : ∀ result' : WrittenMembers,
      ((JsonWriter.new respBuf).run ((okAnswer result').calls none)).ok = true ↔
        (okAnswer result').value.bytes.length < resultMax ∧
          (okAnswer result').nesting ≤ maxDepth := fun result' =>
    (JsonWriter.reset_run_written (⟨respBuf, 0, id, false, 0, 0⟩ : JsonWriter resultMax)
      (okAnswer result') (by omega)).1
  have hfits : RunFits resultMax errName run := by
    rw [RunFits]
    rw [hfails]
    exact fun hno => absurd hret hno
  rw [ranError]
  dsimp only
  rw [callError_eq, hfails, hresult, calls_okAnswer]
  dsimp only [List.getLast?_nil, Option.map_none]
  rw [if_neg (not_not.mpr hret)]
  by_cases hout : ((JsonWriter.new respBuf).run ((okAnswer result).calls none)).ok = true
  · rw [if_neg (by rw [hout]; nofun)]
    obtain ⟨-, htext, -⟩ := JsonWriter.reset_run_written
      (⟨respBuf, 0, id, false, 0, 0⟩ : JsonWriter resultMax) (okAnswer result) (by omega)
    exact .succeeded ⟨hresult, hfails, hret, (hcomplete result).mp hout⟩ (htext hout) hfits
  · -- The result is larger than the buffer.
    rw [if_pos (Bool.eq_false_iff.mpr hout)]
    refine .failed ?_ ?_ ⟨fun _ => hfits, fun _ => ?_⟩
    · rintro result' ⟨hcalls, -, -, hroom⟩
      refine hout ?_
      rw [← calls_okAnswer, ← hresult, hcalls, calls_okAnswer]
      exact (hcomplete result').mpr hroom
    · rw [List.append_assoc]
      exact List.cons_ne_nil _ _
    · exact errorFits_of_plain hmax (plain_number _ (by decide) (by decide))

/-- The four ways that end after the handler has run. -/
theorem ran_outcome (hmax : 256 ≤ resultMax) (respBuf : Buf resultMax) (ran : HandlerRun × σ)
    (hrun : Answerable errName ran.1) :
    Outcome resultMax (RunSucceeds resultMax ran.1) (RunFits resultMax errName ran.1)
      (ranError errName resultMax (.new respBuf) ran) := by
  obtain ⟨run, s'⟩ := ran
  obtain ⟨⟨result, hresult⟩, hname⟩ := hrun
  dsimp only at hresult hname
  cases hlast : run.fails.getLast? with
  | some msg =>
    -- The handler called `fail`.
    rw [ranError]
    dsimp only
    rw [callError_eq, hlast, Option.map_some]
    dsimp only
    rw [snprintf_of_lt (length_failText msg)]
    refine .failed ?_ (failText_ne_nil msg) ?_
    · rintro result' ⟨-, hfails, -⟩
      rw [hfails] at hlast
      cases hlast
    · rw [RunFits]
      rw [hlast]
  | none =>
    have hfails : run.fails = [] := List.getLast?_eq_none_iff.mp hlast
    by_cases hret : run.ret = .ok
    · exact finished_outcome hmax respBuf s' hresult hfails hret
    · -- The handler returned an error.
      have hne : snprintf 112 (errName run.ret) ≠ [] := by
        rw [snprintf]
        rw [Ne, List.take_eq_nil_iff]
        rintro (h | h)
        · cases h
        · exact hname hfails hret h
      rw [ranError]
      dsimp only
      rw [callError_eq, hlast, Option.map_none]
      dsimp only
      rw [if_pos hret]
      refine .failed ?_ hne ?_
      · rintro result' ⟨-, -, hok, -⟩
        exact hret hok
      · rw [RunFits]
        rw [hlast]
        exact ⟨fun h _ => h, fun h => h hret⟩

theorem handleError_outcome (hmax : 256 ≤ resultMax)
    (hrun : ∀ handler, findMethod methods slot.method.cstr = some handler →
      Answerable errName (runHandler handler slot s).1) (respBuf : Buf resultMax) :
    Outcome resultMax (Succeeds resultMax methods slot s)
      (AnswerFits resultMax errName methods slot s)
      (handleError errName methods slot (.new respBuf) s) := by
  rw [handleError]
  by_cases hlarge : slot.tooLarge = true
  · -- Too large.
    rw [if_pos hlarge]
    refine .failed ?_ ?_ ⟨fun _ hsmall => ?_, fun _ => ?_⟩
    · rintro result ⟨hsmall, -⟩
      rw [hlarge] at hsmall
      cases hsmall
    · rw [List.append_assoc]
      exact List.cons_ne_nil _ _
    · rw [hlarge] at hsmall
      cases hsmall
    · exact errorFits_of_plain hmax (plain_number _ (by decide) (by decide))
  · have hsmall : slot.tooLarge = false := Bool.eq_false_iff.mpr hlarge
    rw [if_neg hlarge]
    cases hfind : findMethod methods slot.method.cstr with
    | none =>
      dsimp only
      have hlen := length_cstr_method slot
      have hword : (ascii "unknown method ").length = 15 := by decide
      rw [snprintf_of_lt (by rw [List.length_append, hword]; omega)]
      refine .failed ?_ (List.cons_ne_nil _ _) ?_
      · rintro result ⟨-, handler, hhandler, -⟩
        rw [hfind] at hhandler
        cases hhandler
      · rw [AnswerFits]
        rw [hfind]
        exact ⟨fun h _ => h, fun h => h hsmall⟩
    | some handler =>
      dsimp only
      by_cases hparse : slot.params.1 = .ok
      · rw [if_neg (not_not.mpr hparse)]
        have hsucceeds : Succeeds resultMax methods slot s =
            RunSucceeds resultMax (runHandler handler slot s).1 :=
          funext fun result => propext (succeeds_iff hsmall hfind hparse result)
        rw [hsucceeds, answerFits_iff hsmall hfind hparse]
        exact ran_outcome hmax respBuf _ (hrun handler hfind)
      · rw [if_pos hparse]
        refine .failed ?_ (List.cons_ne_nil _ _) ⟨fun _ _ => ?_, fun _ => ?_⟩
        · rintro result ⟨-, handler', -, hok, -⟩
          exact hparse hok
        · rw [hfind]
          exact fun hok => absurd hok hparse
        · exact errorFits_of_plain (t := ascii "params must be a JSON object") hmax (by decide)

end Runs

/-- A request whose handler's run can be answered is answered right exactly when its error text
fits. -/
theorem answersRight_iff_fits {errName : EspErr → Bytes} {methods : MethodTable σ}
    {slot : Slot payloadMax} {s : σ} (hmax : 256 ≤ resultMax)
    (hrun : ∀ handler, findMethod methods slot.method.cstr = some handler →
      Answerable errName (runHandler handler slot s).1) (respBuf : Buf resultMax) :
    AnswersRight resultMax methods slot s (handle errName methods slot respBuf s).1 ↔
      AnswerFits resultMax errName methods slot s := by
  have houtcome := handleError_outcome hmax hrun respBuf
  rw [handle]
  rw [AnswersRight]
  generalize handleError errName methods slot (.new respBuf) s = handled at houtcome ⊢
  cases houtcome with
  | @succeeded result out s' hresult htext hfits =>
    exact ⟨fun _ => hfits, fun _ => .inl ⟨result, hresult, htext⟩⟩
  | @failed error out s' hfailed herror hfits =>
    rw [← hfits]
    cases error with
    | nil => exact absurd rfl herror
    | cons c rest =>
      dsimp only
      rw [← error_body_iff (w := out) hmax herror]
      constructor
      · rintro (⟨result, hresult, -⟩ | ⟨-, hbody⟩)
        · exact absurd hresult (hfailed result)
        · exact hbody
      · intro hbody
        refine .inr ⟨?_, hbody⟩
        rintro ⟨result, hresult⟩
        exact hfailed result hresult

/-- **A request is answered right exactly when its error text fits.** With a response buffer of
at least 256 bytes, `handle` passes on one complete JSON object, the result exactly when the
request succeeds and else a non-empty error, if and only if no text that comes from outside
grows past the buffer when it is escaped. -/
theorem handle_answers_iff {errName : EspErr → Bytes} {methods : MethodTable σ}
    (hmax : 256 ≤ resultMax ∧ resultMax ≤ 8192) (hname : ∀ e, e ≠ .ok → errName e ≠ [])
    (hbalanced : Balanced methods) (slot : Slot payloadMax) (respBuf : Buf resultMax) (s : σ) :
    AnswersRight resultMax methods slot s (handle errName methods slot respBuf s).1 ↔
      AnswerFits resultMax errName methods slot s := by
  refine answersRight_iff_fits hmax.1 ?_ respBuf
  intro handler hfind
  exact ⟨hbalanced _ _ (findMethod_mem hfind) _ _ _, fun _ hret => hname _ hret⟩

/-- `esp_err_to_name`, as far as concrete runs need it. -/
def errNameSample : EspErr → Bytes
  | .ok => ascii "ESP_OK"
  | .fail => ascii "ESP_FAIL"
  | .noMem => ascii "ESP_ERR_NO_MEM"
  | .invalidArg => ascii "ESP_ERR_INVALID_ARG"
  | .invalidState => ascii "ESP_ERR_INVALID_STATE"
  | .invalidSize => ascii "ESP_ERR_INVALID_SIZE"
  | .notFound => ascii "ESP_ERR_NOT_FOUND"
  | .timeout => ascii "ESP_ERR_TIMEOUT"
  | .invalidResponse => ascii "ESP_ERR_INVALID_RESPONSE"
  | .invalidCrc => ascii "ESP_ERR_INVALID_CRC"
  | .other _ => ascii "UNKNOWN ERROR"

/-- A handler that writes a member and fails with `msg`. -/
def failingSample (msg : Bytes) : Handler Unit := fun _ _ s =>
  (⟨[.addInt (some (ascii "n")) 1], [msg], .ok⟩, s)

/-- A slot for the method `name` without parameters. -/
def slotSample (name : Bytes) : Slot 256 :=
  { Slot.fresh 256 with method := ((Buf.zero 48).memcpy 0 name).getD (.zero 48) }

theorem balanced_sample (msg : Bytes) : Balanced [some (ascii "m", failingSample msg)] := by
  intro name handler hmem method params s
  obtain ⟨rfl, rfl⟩ : name = ascii "m" ∧ handler = failingSample msg := by simpa using hmem
  exact ⟨.cons (ascii "n") (.leaf (.int 1)) .nil, rfl⟩

/-- A handler that fails with a short message is answered right. -/
theorem handle_answers_sample :
    AnswersRight 256 [some (ascii "m", failingSample (ascii "no"))] (slotSample (ascii "m")) ()
      (handle errNameSample [some (ascii "m", failingSample (ascii "no"))]
        (slotSample (ascii "m")) (.zero 256) ()).1 := by
  refine (handle_answers_iff (by decide) ?_ (balanced_sample _) _ _ _).mpr ?_
  · intro e _
    cases e with
    | other code => exact List.cons_ne_nil _ _
    | _ => decide
  · intro _
    have hfind : findMethod [some (ascii "m", failingSample (ascii "no"))]
        (slotSample (ascii "m")).method.cstr = some (failingSample (ascii "no")) := by
      rw [show (slotSample (ascii "m")).method.cstr = ascii "m" by decide]
      rfl
    rw [hfind]
    intro _
    show ErrorFits 256 (failText (ascii "no"))
    rw [ErrorFits]
    decide

theorem getLast?_object (members : WrittenMembers) :
    (Written.object members).value.bytes.getLast? = some 125 := by
  show (([123] ++ members.members.bytes true) ++ [125]).getLast? = _
  exact List.getLast?_concat

/-- A handler that fails with forty control characters is not: the answer is cut off. -/
theorem handle_cuts_answer :
    ¬ ∀ (methods : MethodTable Unit) (slot : Slot 256), Balanced methods →
      AnswersRight 256 methods slot () (handle errNameSample methods slot (.zero 256) ()).1 := by
  intro hall
  have hright := hall _ (slotSample (ascii "m")) (balanced_sample (List.replicate 40 1))
  have hcut : (handle errNameSample [some (ascii "m", failingSample (List.replicate 40 1))]
      (slotSample (ascii "m")) (.zero 256) ()).1.getLast? ≠ some 125 := by
    decide +kernel
  rcases hright with ⟨result, -, hbody⟩ | ⟨-, error, -, hbody⟩
  · rw [hbody] at hcut
    exact hcut (getLast?_object _)
  · rw [hbody] at hcut
    exact hcut (getLast?_object _)

end SoulCloud
