import SoulCloud.Dispatch
import SoulCloud.Json.Charset
import SoulCloud.ShellAnswer

/-!
# Texts that are cut on their way into an answer

Four buffers cut texts by bytes: the method's name in a slot, a formatted value, the message of
`fail`, and the output of a command. The answer itself cuts an error text that does not fit. None
of them looks for the end of a character.

- `Method`: what a request can run, with the strings it gives.
- `CutsBetween`: every cut that reaches the answer falls between two characters.
- `valid_errorAnswer`, `valid_ran`: the two kinds of answer.
- `handle_utf8_iff`: the answer is valid UTF-8 exactly when the cuts are so.
-/

namespace SoulCloud

open Bytes Json Utf8

variable {σ : Type} {payloadMax resultMax : Nat}

/-! ## What a request runs -/

/-- A method: one that writes its own result, or `shell`, whose output buffer has half of the
answer's size. -/
inductive Method (resultMax : Nat) (σ : Type) where
  | application (handler : Handler σ)
  | shell (cmds : List (Option (ShellCommand σ))) (shellOut : Buf (resultMax / 2))

/-- The handler in the table. -/
def Method.handler : Method resultMax σ → Handler σ
  | .application handler => handler
  | .shell cmds shellOut => shellMethod cmds shellOut

/-- The command line of a request to `shell`. -/
def Slot.line (slot : Slot payloadMax) : Option Bytes :=
  slot.params.2.getCStr (some 0) (ascii "line") 520

/-- The word that `run` shows when it knows no command. -/
def echoedWord (cmds : List (Option (ShellCommand σ))) (line : Bytes) : Option Bytes :=
  match (strtok [] line).take maxArgs with
  | [] => none
  | word :: words =>
    match cmds.foldl (betterCommand (word :: words)) none with
    | none => some word
    | some _ => none

/-- All strings of a method are valid: keys, values, whole formatted texts and messages, or the
output of the command that runs. -/
def Method.Utf8 (slot : Slot payloadMax) (s : σ) : Method resultMax σ → Prop
  | .application handler =>
    let run := (runHandler handler slot s).1
    (∀ c ∈ run.result, ∀ t ∈ c.strings, Valid t) ∧ ∀ msg ∈ run.fails, Valid msg
  | .shell cmds _ =>
    ∀ line ∈ slot.line, echoedWord cmds line = none →
      ∀ call ∈ (runLine cmds line s).1.calls, Valid call.shown

/-! ## Where texts are cut -/

/-- How many bytes of an error text the answer has: 21 bytes precede it, and a NUL follows. -/
def errorKept (resultMax : Nat) (error : Bytes) : Nat := fitting (resultMax - 22) error

/-- The answer with what a handler writes, on a writer without limits. -/
def resultText (result : List WriterCall) : JsonText :=
  JsonText.empty.run (beginResult ++ result ++ endResult)

/-- The result fits the answer. -/
def ResultFits (resultMax : Nat) (result : List WriterCall) : Prop :=
  (resultText result).text.length < resultMax ∧ (resultText result).refused = false

/-- No text of a method is cut inside a character. A message is cut at 95 bytes or where the
answer ends, a formatted value at 127, an output at half of the answer. -/
def Method.CutsBetween (slot : Slot payloadMax) (s : σ) : Method resultMax σ → Prop
  | .application handler =>
    let run := (runHandler handler slot s).1
    match run.fails.getLast? with
    | some msg => Boundary (errorKept resultMax (failText msg)) (cstr msg)
    | none => run.ret = .ok → ResultFits resultMax run.result →
      ∀ c ∈ sinceReset run.result, ∀ t ∈ c.formatted, Boundary 127 t
  | .shell cmds _ =>
    ∀ line ∈ slot.line,
      let run := (runLine cmds line s).1
      ShellFits resultMax (resultMax / 2) run →
        match echoedWord cmds line with
        | none => Boundary (resultMax / 2 - 1) run.output
        -- 17 bytes precede the word, which comes from the request.
        | some word => Valid (word.take (resultMax / 2 - 18))

/-- No text is cut inside a character on its way into the answer. The name of an unknown method
is cut at 47 bytes or where the answer ends. -/
def CutsBetween (cfg : Config) (resultMax : Nat) (m : Message) (slot : Slot cfg.payloadMax)
    (known : Option (Method resultMax σ)) (s : σ) : Prop :=
  slot.tooLarge = false →
    match known with
    | none =>
      Boundary (errorKept resultMax (ascii "unknown method " ++ slot.method.cstr))
        (ascii "unknown method " ++ (requestMethod cfg m.topic).map Slot.dotted)
    | some method => slot.params.1 = .ok → method.CutsBetween slot s

/-! ## The answer with an error -/

/-- The body that `handle` passes on with this error text and writer. -/
def answerBody (handled : Bytes × JsonWriter resultMax × σ) : Bytes :=
  if handled.1 = [] then handled.2.1.text
  else (handled.2.1.reset.run (errorCalls handled.1)).text

theorem handle_body (errName : EspErr → Bytes) (methods : MethodTable σ) (slot : Slot payloadMax)
    (respBuf : Buf resultMax) (s : σ) :
    (handle errName methods slot respBuf s).1 =
      answerBody (handleError errName methods slot (.new respBuf) s) := by
  rw [handle]
  generalize handleError errName methods slot (.new respBuf) s = handled
  obtain ⟨error, out, s'⟩ := handled
  cases error with
  | nil => exact (if_pos rfl).symm
  | cons c rest => exact (if_neg (List.cons_ne_nil c rest)).symm

/-- **The answer with an error** is valid exactly if as much of the text as it has is. -/
theorem valid_errorAnswer (w : JsonWriter resultMax) (hmax : 256 ≤ resultMax) (error : Bytes) :
    Valid (w.reset.run (errorCalls error)).text ↔
      Valid (error.take (errorKept resultMax error)) := by
  let opening : List WriterCall := [.beginObject none, .addBool (some (ascii "ok")) false]
  let ideal := (JsonText.empty.run opening).beginValue (some (ascii "error"))
  let before := (w.reset.run opening).beginValue (some (ascii "error"))
  have hcap : 0 < resultMax := by omega
  have hrenders : JsonWriter.Renders before ideal :=
    ((JsonWriter.renders_reset w hcap).run hcap opening).beginValue hcap _
  have hideal : ideal.text = ascii "\x7b\"ok\":false,\"error\":" := by decide
  have hlen : (ascii "\x7b\"ok\":false,\"error\":").length = 20 := by decide
  have hok : before.overflow = false := by
    refine hrenders.ok.mpr ⟨?_, rfl⟩
    rw [hideal, hlen]
    omega
  have htext : before.text = ascii "\x7b\"ok\":false,\"error\":" :=
    (hrenders.whole hok).trans hideal
  have hpos : before.pos = 20 := by
    rw [← JsonWriter.text_length _ hcap, htext, hlen]
  have hbefore : Valid before.text := by
    rw [htext]
    exact Ascii.valid (by decide)
  show Valid ((before.putEscaped error).put 125).text ↔ _
  rw [(JsonWriter.puts_put _ 125).valid (by decide),
    JsonWriter.valid_putEscaped hok (by rw [hpos]; omega), and_iff_right hbefore, hpos,
    Nat.sub_sub, errorKept]

/-- Where an error text is the beginning of a longer one, that one is cut. -/
theorem valid_kept_iff {error whole : Bytes} (hwhole : Valid whole) (herror : error <+: whole) :
    Valid (error.take (errorKept resultMax error)) ↔
      Boundary (errorKept resultMax error) whole := by
  have hle : errorKept resultMax error ≤ error.length := fitting_le _ _
  obtain ⟨rest, rfl⟩ := herror
  rw [← valid_take_iff hwhole, List.take_append_of_le_length hle]

theorem valid_answerBody {error : Bytes} {out : JsonWriter resultMax} {s : σ}
    (hmax : 256 ≤ resultMax) (hne : error ≠ []) :
    Valid (answerBody (error, out, s)) ↔ Valid (error.take (errorKept resultMax error)) := by
  rw [← valid_errorAnswer out hmax]
  show Valid (if error = [] then _ else _) ↔ _
  rw [if_neg hne]

theorem valid_answerBody_of_ascii {error : Bytes} {out : JsonWriter resultMax} {s : σ}
    (hmax : 256 ≤ resultMax) (hne : error ≠ []) (hascii : Ascii error) :
    Valid (answerBody (error, out, s)) :=
  (valid_answerBody hmax hne).mpr (hascii.take _).valid

/-! ## The answer after a handler -/

section Runs

variable {errName : EspErr → Bytes}

/-- **The answer after a handler has run**: with the last message if there is one, and else
with the result if it fits. -/
theorem valid_ran (hmax : 256 ≤ resultMax)
    (hname : ∀ e, e ≠ .ok → errName e ≠ [] ∧ Ascii (errName e)) (respBuf : Buf resultMax)
    (ran : HandlerRun × σ) :
    Valid (answerBody (ranError errName resultMax (.new respBuf) ran)) ↔
      match ran.1.fails.getLast? with
      | some msg => Valid ((failText msg).take (errorKept resultMax (failText msg)))
      | none => ran.1.ret = .ok → ResultFits resultMax ran.1.result →
        Valid (resultText ran.1.result).text := by
  have hcap : 0 < resultMax := by omega
  rw [ranError, callError_eq]
  cases hlast : ran.1.fails.getLast? with
  | some msg =>
    dsimp only [Option.map_some]
    rw [snprintf_of_lt (length_failText msg), valid_answerBody hmax (failText_ne_nil msg)]
  | none =>
    dsimp only [Option.map_none]
    by_cases hret : ran.1.ret = .ok
    · have hrun : (((JsonWriter.new respBuf).run beginResult).run ran.1.result).run endResult =
          (JsonWriter.new respBuf).run (beginResult ++ ran.1.result ++ endResult) := by
        unfold JsonWriter.run
        rw [List.foldl_append, List.foldl_append]
      have hrenders : JsonWriter.Renders
          ((JsonWriter.new respBuf).run (beginResult ++ ran.1.result ++ endResult))
          (resultText ran.1.result) := (JsonWriter.renders_reset _ hcap).run hcap _
      have hfull : ((JsonWriter.new respBuf).run
          (beginResult ++ ran.1.result ++ endResult)).ok = false ↔
            ¬ ResultFits resultMax ran.1.result := by
        rw [JsonWriter.ok, Bool.not_eq_false', ← Bool.not_eq_false, ResultFits, hrenders.ok]
      rw [if_neg (not_not.mpr hret), hrun]
      by_cases hfits : ResultFits resultMax ran.1.result
      · rw [if_neg (hfull.not.mpr (not_not.mpr hfits)), answerBody, if_pos rfl,
          hrenders.whole (hrenders.ok.mpr hfits)]
        exact ⟨fun h _ _ => h, fun h => h hret hfits⟩
      · -- The result is larger than the buffer.
        rw [if_pos (hfull.mpr hfits)]
        refine ⟨fun _ _ h => absurd h hfits, fun _ => valid_answerBody_of_ascii hmax ?_ ?_⟩
        · rw [List.append_assoc]
          exact List.cons_ne_nil _ _
        · exact ((Ascii.append (by decide) (ascii_decimal _)).append (by decide)).take _
    · rw [if_pos hret]
      obtain ⟨hne, hascii⟩ := hname _ hret
      refine ⟨fun _ h => absurd h hret, fun _ => valid_answerBody_of_ascii hmax ?_ (hascii.take _)⟩
      rw [snprintf, Ne, List.take_eq_nil_iff]
      rintro (h | h)
      · cases h
      · exact hne h

/-- A C string in a valid text. -/
theorem valid_cstr {b : Bytes} (h : Valid b) : Valid (cstr b) := by
  rw [← List.takeWhile_append_dropWhile (p := (· != 0)) (l := b)] at h
  refine valid_of_append h ?_
  intro c hc
  have hnul := List.head?_dropWhile_not (· != 0) b
  rw [hc] at hnul
  obtain rfl : c = 0 := by simpa using hnul
  exact first_of_ascii (by decide)

/-- A message is cut where the answer ends, or at 95 bytes. -/
theorem valid_failText_iff {msg : Bytes} (h : Valid msg) :
    Valid ((failText msg).take (errorKept resultMax (failText msg))) ↔
      Boundary (errorKept resultMax (failText msg)) (cstr msg) := by
  have hprefix : cstr (snprintf 96 msg) <+: cstr msg := by
    rw [snprintf, cstr, cstr, ← List.take_takeWhile]
    exact List.take_prefix _ _
  by_cases hnil : cstr (snprintf 96 msg) = []
  · -- An empty message is replaced.
    have hfailed : failText msg = ascii "failed" := if_pos hnil
    have hempty : cstr msg = [] := by
      cases msg with
      | nil => rfl
      | cons c rest =>
        by_cases hc : c = 0
        · rw [hc]
          rfl
        · rw [snprintf, List.take_succ_cons, cstr_cons hc] at hnil
          cases hnil
    have hascii : Ascii (failText msg) := by
      rw [hfailed]
      decide
    rw [hempty]
    exact ⟨fun _ => boundary_nil _, fun _ => (hascii.take _).valid⟩
  · have htext : failText msg = cstr (snprintf 96 msg) := if_neg hnil
    rw [htext]
    exact valid_kept_iff (valid_cstr h) hprefix

/-- What surrounds a result is ASCII. -/
theorem valid_resultText {result : List WriterCall} :
    Valid (resultText result).text ↔ Valid ((JsonText.empty.run beginResult).run result).text := by
  have htext : (resultText result).text =
      ((JsonText.empty.run beginResult).run result).text ++ [125] ++ [125] := by
    rw [resultText, JsonText.run_append, JsonText.run_append]
    rfl
  rw [htext, valid_append_ascii (by decide), valid_append_ascii (by decide)]

/-- **A method that writes its own result.** -/
theorem valid_application {handler : Handler σ} {slot : Slot payloadMax} {s : σ}
    (hmax : 256 ≤ resultMax) (hname : ∀ e, e ≠ .ok → errName e ≠ [] ∧ Ascii (errName e))
    (respBuf : Buf resultMax)
    (hs : (Method.application handler : Method resultMax σ).Utf8 slot s) :
    Valid (answerBody (ranError errName resultMax (.new respBuf) (runHandler handler slot s))) ↔
      (Method.application handler : Method resultMax σ).CutsBetween slot s := by
  obtain ⟨hresult, hfails⟩ := hs
  rw [valid_ran hmax hname, Method.CutsBetween]
  cases hlast : (runHandler handler slot s).1.fails.getLast? with
  | some msg => exact valid_failText_iff (hfails msg (List.mem_of_getLast? hlast))
  | none =>
    have hopening : Valid (JsonText.empty.run beginResult).text := Ascii.valid (by decide)
    dsimp only
    rw [valid_resultText, JsonText.valid_run hopening hresult]

/-- The calls of a tree, around which the answer is written. -/
theorem resultText_calls (result : WrittenMembers) :
    (resultText result.calls).text = (okAnswer result).value.bytes ∧
      ((resultText result.calls).refused = false ↔ (okAnswer result).nesting ≤ maxDepth) := by
  have hcalls : beginResult ++ result.calls ++ endResult = (okAnswer result).calls none := by
    simp [okAnswer, Written.calls, WrittenMembers.calls, Leaf.call, beginResult, endResult]
  have hwrote := wrote (okAnswer result) .empty none
  rw [resultText, hcalls]
  refine ⟨hwrote.text, ?_⟩
  rw [hwrote.refused]
  show (false || decide (0 < (okAnswer result).nesting ∧ maxDepth < 0 + (okAnswer result).nesting))
    = false ↔ _
  rw [Bool.false_or, decide_eq_false_iff_not]
  omega

theorem resultFits_shell {size : Nat} {run : ShellRun} :
    ResultFits resultMax (shellResult run.code (run.output.take (size - 1))
      (decide (size - 1 < run.output.length))).calls ↔ ShellFits resultMax size run := by
  obtain ⟨htext, hrefused⟩ := resultText_calls (shellResult run.code (run.output.take (size - 1))
    (decide (size - 1 < run.output.length)))
  rw [ResultFits, htext, hrefused, shellFits_iff]
  exact and_iff_left (nesting_shellResult _ _ _)

/-- The exit code and what surrounds the output are ASCII. -/
theorem valid_shellResult {code : Int} {output : Bytes} {truncated : Bool} :
    Valid (resultText (shellResult code output truncated).calls).text ↔ Valid output := by
  have hclose : Ascii (if truncated then ascii "\",\"truncated\":true\x7d\x7d"
      else ascii "\"\x7d\x7d") := by
    cases truncated <;> decide
  have hopen : Ascii (ascii "\x7b\"ok\":true,\"result\":\x7b\"code\":" ++
      (decimalInt code ++ ascii ",\"output\":\"")) :=
    Ascii.append (by decide) ((ascii_decimalInt code).append (by decide))
  rw [(resultText_calls _).1, bytes_shellResult, ← List.append_assoc, ← List.append_assoc,
    ← List.append_assoc, valid_append_ascii hclose, List.append_assoc (ascii _) (decimalInt code),
    valid_append_iff_of_left hopen.valid, valid_escaped]

/-- The word of an unknown command is shown between 17 bytes and 17 others. -/
theorem runLine_echoed {cmds : List (Option (ShellCommand σ))} {line word : Bytes} {s : σ}
    (h : echoedWord cmds line = some word) :
    (runLine cmds line s).1.output =
      ascii "Unknown command \"" ++ word ++ ascii "\"; try \"help\"\n" := by
  rw [echoedWord] at h
  rw [runLine]
  cases hwords : (strtok [] line).take maxArgs with
  | nil =>
    rw [hwords] at h
    cases h
  | cons first words =>
    rw [hwords] at h
    dsimp only at h ⊢
    cases hbest : cmds.foldl (betterCommand (first :: words)) none with
    | none =>
      rw [hbest] at h
      obtain rfl : first = word := Option.some.inj h
      exact List.append_nil _
    | some best =>
      rw [hbest] at h
      cases h

/-- The beginning of such an output. -/
theorem valid_take_echoed {word : Bytes} {n : Nat} (hn : 17 ≤ n) :
    Valid ((ascii "Unknown command \"" ++ word ++ ascii "\"; try \"help\"\n").take n) ↔
      Valid (word.take (n - 17)) := by
  have hlen : (ascii "Unknown command \"").length = 17 := by decide
  have hopen : Ascii (ascii "Unknown command \"") := by decide
  have hclose : Ascii (ascii "\"; try \"help\"\n") := by decide
  rw [List.append_assoc, List.take_append, hlen, List.take_of_length_le (by omega),
    valid_append_iff_of_left hopen.valid, List.take_append, valid_append_ascii (hclose.take _)]

theorem valid_output {calls : List ShellCall} (h : ∀ call ∈ calls, Valid call.shown) :
    Valid (calls.flatMap ShellCall.shown) := by
  induction calls with
  | nil => exact valid_nil
  | cons call calls ih =>
    rw [List.flatMap_cons]
    exact (h call List.mem_cons_self).append (ih fun c hc => h c (List.mem_cons_of_mem _ hc))

/-- **`shell`.** -/
theorem valid_shell {cmds : List (Option (ShellCommand σ))} {shellOut : Buf (resultMax / 2)}
    {slot : Slot payloadMax} {s : σ} (hmax : 256 ≤ resultMax)
    (hname : ∀ e, e ≠ .ok → errName e ≠ [] ∧ Ascii (errName e)) (respBuf : Buf resultMax)
    (hs : (Method.shell cmds shellOut).Utf8 slot s) :
    Valid (answerBody (ranError errName resultMax (.new respBuf)
        (runHandler (shellMethod cmds shellOut) slot s))) ↔
      (Method.shell cmds shellOut).CutsBetween slot s := by
  rw [valid_ran hmax hname, Method.CutsBetween, runHandler]
  cases hline : slot.line with
  | none =>
    -- The error text is in ASCII.
    have hascii : Ascii (failText (ascii "params.line must be a string of at most " ++
        decimal (520 - 1) ++ ascii " bytes")) := by decide +kernel
    rw [Slot.line] at hline
    rw [shellMethod, hline]
    refine ⟨fun _ => ?_, fun _ => (hascii.take _).valid⟩
    rintro line ⟨⟩
  | some line =>
    rw [shellMethod_line (by omega) cmds shellOut slot.method.cstr s hline]
    dsimp only [List.getLast?_nil]
    rw [valid_shellResult, resultFits_shell]
    have hcut : Valid ((runLine cmds line s).1.output.take (resultMax / 2 - 1)) ↔
        match echoedWord cmds line with
        | none => Boundary (resultMax / 2 - 1) (runLine cmds line s).1.output
        | some word => Valid (word.take (resultMax / 2 - 18)) := by
      cases hword : echoedWord cmds line with
      | none => exact valid_take_iff (valid_output (hs line hline hword))
      | some word =>
        rw [runLine_echoed hword, valid_take_echoed (by omega), Nat.sub_sub]
    constructor
    · intro h line' hline' hfits
      obtain rfl : line = line' := Option.some.inj hline'
      exact hcut.mp (h rfl hfits)
    · intro h _ hfits
      exact hcut.mpr (h line rfl hfits)

end Runs

/-! ## The answer to a request -/

/-- The method behind the prefix of a topic in UTF-8. -/
theorem valid_requestMethod {cfg : Config} {topic : Bytes} (h : IsRequestTopic cfg topic)
    (htopic : Valid topic) : Valid ((requestMethod cfg topic).map Slot.dotted) := by
  have hdots : (requestMethod cfg topic).map Slot.dotted =
      (requestMethod cfg topic).flatMap fun c => [Slot.dotted c] :=
    List.map_eq_flatMap
  have hlow : ∀ n < 128, [Slot.dotted (UInt8.ofNat n)] ≠ [] ∧
      Ascii [Slot.dotted (UInt8.ofNat n)] := by decide
  rw [hdots, valid_flatMap_iff]
  · have hsplit : topic = (cfg.downTopic ++ ascii "req") ++ 47 :: requestMethod cfg topic := by
      obtain ⟨rest, hrest⟩ := h.1
      rw [← hrest, List.append_assoc, requestMethod_append]
      show _ ++ (ascii "req" ++ [47] ++ rest) = _
      simp
      rfl
    rw [hsplit, valid_append_cons (by decide)] at htopic
    exact htopic.2
  · intro c hc
    exact of_forall_ofNat (p := fun c => [Slot.dotted c] ≠ [] ∧ Ascii [Slot.dotted c]) hlow hc
  · intro c hc
    have hne : c ≠ 47 := by
      rintro rfl
      exact hc (by decide)
    rw [Slot.dotted, if_neg hne]

section Requests

variable {errName : EspErr → Bytes} {cfg : Config} {m : Message} {slot : Slot cfg.payloadMax}
  {methods : MethodTable σ} {known : Option (Method resultMax σ)} {s : σ}

/-- **An unknown method**: its name is cut where the answer ends, or at 47 bytes. -/
theorem valid_unknown (hmax : 256 ≤ resultMax) (hrequest : m.IsRequest cfg)
    (hcarries : Carries cfg m slot) (htopic : Valid m.topic) {out : JsonWriter resultMax} :
    Valid (answerBody (snprintf 112 (ascii "unknown method " ++ slot.method.cstr), out, s)) ↔
      Boundary (errorKept resultMax (ascii "unknown method " ++ slot.method.cstr))
        (ascii "unknown method " ++ (requestMethod cfg m.topic).map Slot.dotted) := by
  have hlen := length_cstr_method slot
  have hword : (ascii "unknown method ").length = 15 := by decide
  have hne : ascii "unknown method " ++ slot.method.cstr ≠ [] := List.cons_ne_nil _ _
  have hwhole : Valid (ascii "unknown method " ++ (requestMethod cfg m.topic).map Slot.dotted) :=
    (Ascii.valid (by decide)).append (valid_requestMethod hrequest htopic)
  have hprefix : ascii "unknown method " ++ slot.method.cstr <+:
      ascii "unknown method " ++ (requestMethod cfg m.topic).map Slot.dotted := by
    rw [List.prefix_append_right_inj, hcarries.method, List.map_take]
    exact List.take_prefix _ _
  rw [snprintf_of_lt (by rw [List.length_append, hword]; omega), valid_answerBody hmax hne,
    valid_kept_iff hwhole hprefix]

/-- **The answer to a request is valid UTF-8** exactly when every text in it is cut between two
characters. The topic is valid, and so are all strings of the method that runs. -/
theorem handle_utf8_iff (hmax : 256 ≤ resultMax)
    (hname : ∀ e, e ≠ .ok → errName e ≠ [] ∧ Ascii (errName e)) (hrequest : m.IsRequest cfg)
    (hcarries : Carries cfg m slot) (htopic : Valid m.topic)
    (hfind : findMethod methods slot.method.cstr = known.map Method.handler)
    (hs : ∀ method ∈ known, method.Utf8 slot s) (respBuf : Buf resultMax) :
    Valid (handle errName methods slot respBuf s).1 ↔ CutsBetween cfg resultMax m slot known s := by
  rw [handle_body, handleError]
  rw [CutsBetween.eq_def]
  by_cases hlarge : slot.tooLarge = true
  · -- Too large.
    rw [if_pos hlarge, hlarge]
    have hnot : ¬ true = false := by decide
    refine ⟨fun _ hsmall => absurd hsmall hnot, fun _ => valid_answerBody_of_ascii hmax ?_ ?_⟩
    · rw [List.append_assoc]
      exact List.cons_ne_nil _ _
    · exact ((Ascii.append (by decide) (ascii_decimal _)).append (by decide)).take _
  · rw [if_neg hlarge, hfind, forall_prop_of_true (Bool.eq_false_iff.mpr hlarge)]
    cases known with
    | none => exact valid_unknown hmax hrequest hcarries htopic
    | some method =>
      dsimp only [Option.map_some]
      by_cases hparse : slot.params.1 = .ok
      · rw [if_neg (not_not.mpr hparse), forall_prop_of_true hparse]
        have hmethod := hs method rfl
        cases method with
        | application handler => exact valid_application hmax hname respBuf hmethod
        | shell cmds shellOut => exact valid_shell hmax hname respBuf hmethod
      · rw [if_pos hparse]
        refine ⟨fun _ h => absurd h hparse, fun _ => valid_answerBody_of_ascii hmax ?_ ?_⟩
        · exact List.cons_ne_nil _ _
        · decide

end Requests

theorem errNameSample_ascii (e : EspErr) (h : e ≠ .ok) :
    errNameSample e ≠ [] ∧ Ascii (errNameSample e) := by
  cases e with
  | ok => exact absurd rfl h
  | other code => exact (by decide : ascii "UNKNOWN ERROR" ≠ [] ∧ Ascii (ascii "UNKNOWN ERROR"))
  | _ => decide

/-- U+00E9. -/
theorem valid_eAcute : Valid [0xc3, 0xa9] := valid_iff_chars.mpr ⟨['é'], by decide⟩

/-- A message that ends in U+00E9, in 95 bytes. -/
def accented : Bytes := List.replicate 93 97 ++ [0xc3, 0xa9]

/-- A request for `m`. -/
def askM : Message where
  topic := ascii "d/a1/down/req/m"
  property := none
  payload := []

/-- The message fits, and its last character with it. -/
theorem handle_utf8_sample :
    Valid (handle errNameSample [some (ascii "m", failingSample accented)]
      (slotSample (ascii "m")) (.zero 256) ()).1 := by
  have hcarries : Carries .sample askM (slotSample (ascii "m")) := by
    constructor <;> decide
  have hfind : findMethod [some (ascii "m", failingSample accented)]
      (slotSample (ascii "m")).method.cstr =
        (some (.application (failingSample accented)) : Option (Method 256 Unit)).map
          Method.handler := by
    have hname : (slotSample (ascii "m")).method.cstr = ascii "m" := by decide
    rw [hname]
    rfl
  have hs : ∀ method ∈ (some (.application (failingSample accented)) : Option (Method 256 Unit)),
      method.Utf8 (slotSample (ascii "m")) () := by
    rintro method ⟨⟩
    constructor
    · intro c hc t ht
      obtain rfl := List.mem_singleton.mp hc
      obtain rfl := List.mem_singleton.mp ht
      exact Ascii.valid (by decide)
    · intro msg hmsg
      obtain rfl := List.mem_singleton.mp hmsg
      exact (Ascii.valid (by decide)).append valid_eAcute
  refine (handle_utf8_iff (by decide) errNameSample_ascii (by decide) hcarries
    (Ascii.valid (by decide)) hfind hs _).mpr ?_
  intro _ _
  show Boundary (errorKept 256 (failText accented)) (cstr accented)
  decide +kernel

/-- A request for a method whose name has U+00E9 at its 47th byte. -/
def askAccented : Message where
  topic := ascii "d/a1/down/req/" ++ List.replicate 46 109 ++ [0xc3, 0xa9]
  property := none
  payload := []

/-- The answer to it has the first byte of the character, and not the second. -/
theorem handle_cuts_character :
    ¬ ∀ (m : Message) (slot : Slot 256) (methods : MethodTable Unit)
      (known : Option (Method 256 Unit)),
      m.IsRequest .sample → Carries .sample m slot → Valid m.topic →
      findMethod methods slot.method.cstr = known.map Method.handler →
      (∀ method ∈ known, method.Utf8 slot ()) →
      Valid (handle errNameSample methods slot (.zero 256) ()).1 := by
  intro hall
  let slot : Slot 256 := slotSample (List.replicate 46 109 ++ [0xc3])
  have hrequest : askAccented.IsRequest .sample := by decide
  have hcarries : Carries .sample askAccented slot := by
    constructor <;> decide +kernel
  have htopic : Valid askAccented.topic := (Ascii.valid (by decide)).append valid_eAcute
  have hvalid := hall askAccented slot [] none hrequest hcarries htopic rfl nofun
  have hbody : (handle errNameSample ([] : MethodTable Unit) slot (.zero 256) ()).1 =
      (ascii "\x7b\"ok\":false,\"error\":\"unknown method " ++ List.replicate 46 109 ++ [0xc3]) ++
        34 :: [125] := by
    decide +kernel
  rw [hbody, valid_append_cons (by decide), valid_append_iff_of_left (Ascii.valid (by decide))]
    at hvalid
  have hrest : Valid [0xa9] := (valid_append_iff_of_left hvalid.1).mp valid_eAcute
  exact absurd hrest.first (by decide)

end SoulCloud
