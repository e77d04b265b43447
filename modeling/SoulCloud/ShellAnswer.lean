import SoulCloud.Builtins
import SoulCloud.Shell

/-!
# The answer to a command line (`shell`)

The output of a command is truncated to half of the answer's buffer, and then escaped into that
buffer, where one byte of it takes up to six.

- `shellMethod`: the handler.
- `ShellAnswered`: the answer is `ok:true` with the beginning of the output, and says whether
  that is all.
- `shell_answer_iff`: it is exactly when the escaped beginning fits.
-/

namespace SoulCloud

open Bytes Json

variable {σ : Type}

/-! ## The handler -/

/-- The members of the result. -/
def shellResult (code : Int) (output : Bytes) (truncated : Bool) : WrittenMembers :=
  .cons (ascii "code") (.leaf (.int code)) (.cons (ascii "output") (.leaf (.strLen output))
    (if truncated then .cons (ascii "truncated") (.leaf (.bool true)) .nil else .nil))

/-- The handler of `shell`. `shellOut` is what `shell_out` holds from earlier commands. -/
def shellMethod {size : Nat} (cmds : List (Option (ShellCommand σ))) (shellOut : Buf size) :
    Handler σ := fun _ params s =>
  match params.getCStr (some 0) (ascii "line") 520 with
  | none =>
    (⟨[], [ascii "params.line must be a string of at most " ++ decimal (520 - 1) ++
      ascii " bytes"], .invalidArg⟩, s)
  | some line =>
    let ran := runLine cmds line s
    let out := (ShellOut.new shellOut).run ran.1.calls
    let result := [.addInt (some (ascii "code")) ran.1.code,
      .addStrLen (some (ascii "output")) out.text]
    (⟨if out.full then result ++ [.addBool (some (ascii "truncated")) true] else result, [], .ok⟩,
      ran.2)

/-- All that a command shows. -/
def ShellRun.output (run : ShellRun) : Bytes := run.calls.flatMap ShellCall.shown

/-- A command line that was read is run, and its result written. -/
theorem shellMethod_line {size : Nat} (hsize : 0 < size) (cmds : List (Option (ShellCommand σ)))
    (shellOut : Buf size) (method : Bytes) {params : JsonReader} (s : σ) {line : Bytes}
    (hget : params.getCStr (some 0) (ascii "line") 520 = some line) :
    (shellMethod cmds shellOut method params s).1 =
      ⟨(shellResult (runLine cmds line s).1.code
        ((runLine cmds line s).1.output.take (size - 1))
        (decide (size - 1 < (runLine cmds line s).1.output.length))).calls, [], .ok⟩ := by
  obtain ⟨htext, -, hfull⟩ := ShellOut.shown_run shellOut hsize (runLine cmds line s).1.calls
  rw [shellMethod, hget]
  dsimp only
  rw [htext, hfull]
  unfold ShellRun.output shellResult
  split_ifs with h
  · simp [WrittenMembers.calls, Written.calls, Leaf.call]
  · simp [WrittenMembers.calls, Written.calls, Leaf.call]

/-- A command line that fits its buffer is read. -/
theorem shellMethod_run {size : Nat} (hsize : 0 < size) (cmds : List (Option (ShellCommand σ)))
    (shellOut : Buf size) (method : Bytes) {params : JsonReader} (s : σ) {line : Bytes}
    (hline : params.HasString (ascii "line") line) (hlen : line.length ≤ 519) :
    (shellMethod cmds shellOut method params s).1 =
      ⟨(shellResult (runLine cmds (cstr line) s).1.code
        ((runLine cmds (cstr line) s).1.output.take (size - 1))
        (decide (size - 1 < (runLine cmds (cstr line) s).1.output.length))).calls, [], .ok⟩ := by
  refine shellMethod_line hsize cmds shellOut method s ?_
  rw [JsonReader.getCStr, hline.getStr (Nat.lt_succ_of_le hlen)]
  rfl

/-! ## The answer -/

/-- A document that answers a run: `ok:true`, as much of the output as fits `size - 1` bytes, and
a mark exactly if that is not all. -/
structure AnswersRun (size : Nat) (run : ShellRun) (d : Document) (members : Members) : Prop where
  ok : d.members.lookup? (ascii "ok") = some (.literal .true)
  result : d.members.lookup? (ascii "result") = some (.object members)
  output : ∃ s, members.lookup? (ascii "output") = some (.string s) ∧
    JsonReader.Spells (spelled s) (run.output.take (size - 1))
  truncated : (members.lookup? (ascii "truncated")).isSome ↔ size - 1 < run.output.length

/-- The body is such a document. -/
def ShellAnswered (size : Nat) (run : ShellRun) (body : Bytes) : Prop :=
  ∃ d members, body = d.bytes ∧ AnswersRun size run d members

/-- The answer to a run fits: 42 bytes surround the exit code and the escaped output, and the mark
takes 17. -/
def ShellFits (resultMax size : Nat) (run : ShellRun) : Prop :=
  42 + (decimalInt run.code).length +
      ((run.output.take (size - 1)).flatMap JsonText.escape).length +
    (if size - 1 < run.output.length then 17 else 0) < resultMax

/-- An object of three members. -/
theorem bytes_triple (key₁ key₂ key₃ : Bytes) (value₁ value₂ value₃ : Written) :
    (Written.object (.cons key₁ value₁ (.cons key₂ value₂ (.cons key₃ value₃ .nil)))).value.bytes =
      123 :: (JsonText.quoted key₁ ++ 58 :: (value₁.value.bytes ++
        44 :: (JsonText.quoted key₂ ++ 58 :: (value₂.value.bytes ++
          44 :: (JsonText.quoted key₃ ++ 58 :: (value₃.value.bytes ++ [125])))))) := by
  simp [Written.value, WrittenMembers.members, Value.bytes, Members.bytes, quoted_escapeStr,
    separator, Ws.none]

/-- What surrounds the exit code and the output. -/
theorem bytes_shellResult (code : Int) (output : Bytes) (truncated : Bool) :
    (okAnswer (shellResult code output truncated)).value.bytes =
      ascii "\x7b\"ok\":true,\"result\":\x7b\"code\":" ++ (decimalInt code ++
        (ascii ",\"output\":\"" ++ (output.flatMap JsonText.escape ++
          if truncated then ascii "\",\"truncated\":true\x7d\x7d" else ascii "\"\x7d\x7d"))) := by
  have hcode : (Written.leaf (.int code)).value.bytes = decimalInt code := bytes_wholeNumber code
  have houtput : (Written.leaf (.strLen output)).value.bytes =
      34 :: (output.flatMap JsonText.escape ++ [34]) := quoted_escapeStr output
  have hmark : (Written.leaf (.bool true)).value.bytes = ascii "true" := rfl
  have hopen : ascii "\x7b\"ok\":true,\"result\":\x7b\"code\":" =
      ascii "\x7b\"ok\":true,\"result\":" ++ 123 :: (JsonText.quoted (ascii "code") ++ [58]) := by
    decide
  have hkey : ascii ",\"output\":\"" = 44 :: (JsonText.quoted (ascii "output") ++ [58, 34]) := by
    decide
  rw [bytes_okAnswer, hopen, hkey]
  cases truncated with
  | false =>
    have hclose : ascii "\"\x7d\x7d" = [34, 125, 125] := by decide
    rw [shellResult, if_neg Bool.false_ne_true, if_neg Bool.false_ne_true, bytes_pair, hcode,
      houtput, hclose]
    simp only [List.append_assoc, List.cons_append, List.nil_append]
  | true =>
    have hclose : ascii "\",\"truncated\":true\x7d\x7d" =
        34 :: 44 ::
          (JsonText.quoted (ascii "truncated") ++ 58 :: (ascii "true" ++ [125, 125])) := by
      decide
    rw [shellResult, if_pos rfl, if_pos rfl, bytes_triple, hcode, houtput, hmark, hclose]
    simp only [List.append_assoc, List.cons_append, List.nil_append]

instance (resultMax size : Nat) (run : ShellRun) : Decidable (ShellFits resultMax size run) :=
  inferInstanceAs (Decidable (_ < _))

theorem nesting_shellResult (code : Int) (output : Bytes) (truncated : Bool) :
    (okAnswer (shellResult code output truncated)).nesting ≤ maxDepth := by
  cases truncated with
  | false =>
    show max 0 (max (max 0 (max 0 0) + 1) 0) + 1 ≤ maxDepth
    decide
  | true =>
    show max 0 (max (max 0 (max 0 (max 0 0)) + 1) 0) + 1 ≤ maxDepth
    decide

theorem shellFits_iff {resultMax size : Nat} {run : ShellRun} :
    ShellFits resultMax size run ↔
      (okAnswer (shellResult run.code (run.output.take (size - 1))
        (decide (size - 1 < run.output.length)))).value.bytes.length < resultMax := by
  have hopen : (ascii "\x7b\"ok\":true,\"result\":\x7b\"code\":").length = 28 := by decide
  have hkey : (ascii ",\"output\":\"").length = 11 := by decide
  rw [bytes_shellResult, ShellFits]
  simp only [List.length_append, hopen, hkey, decide_eq_true_eq]
  split_ifs with h
  · have hmark : (ascii "\",\"truncated\":true\x7d\x7d").length = 20 := by decide
    rw [hmark]
    omega
  · have hclose : (ascii "\"\x7d\x7d").length = 3 := by decide
    rw [hclose]
    omega

/-- A result that is written in full answers the run. -/
theorem shellAnswered_of_result (size : Nat) (run : ShellRun) :
    ShellAnswered size run (okAnswer (shellResult run.code (run.output.take (size - 1))
      (decide (size - 1 < run.output.length)))).value.bytes := by
  generalize hlong : decide (size - 1 < run.output.length) = truncated
  refine ⟨⟨.none, (WrittenMembers.cons (ascii "ok") (.leaf (.bool true)) (.cons (ascii "result")
    (.object (shellResult run.code (run.output.take (size - 1)) truncated)) .nil)).members, .none⟩,
    (shellResult run.code (run.output.take (size - 1)) truncated).members, ?_, ?_⟩
  · exact (List.append_nil _).symm
  · constructor
    · rfl
    · rfl
    · refine ⟨escapeStr (run.output.take (size - 1)), rfl, ?_⟩
      exact (JsonReader.spells_of_unescape (JsonReader.unescape_escapeStr _ (Nat.le_refl _))).1
    · cases truncated with
      | false => exact ⟨nofun, fun hlt => absurd hlt (of_decide_eq_false hlong)⟩
      | true => exact ⟨fun _ => of_decide_eq_true hlong, fun _ => rfl⟩

/-- A boolean member of a document is read back. -/
theorem getBool_document {r : JsonReader} {d : Document} {key : Bytes} {b : Bool}
    (hle : d.count ≤ r.maxTokens) (h : d.members.lookup? key = some (Leaf.bool b).value) :
    (r.parse d.bytes).2.getBool (some 0) key = some b := by
  obtain ⟨-, hlists, hjson⟩ := JsonReader.parse_document_lists hle
  have hfind := JsonReader.find_root hlists hjson key
  rw [h] at hfind
  obtain ⟨i, pos, hfound, hv⟩ := hfind
  exact hlists.getBool_literal hv hfound

/-- An answer with an error is no answer to a run. -/
theorem not_shellAnswered_of_error {size : Nat} {run : ShellRun} {body : Bytes}
    (h : AnsweredError body) : ¬ ShellAnswered size run body := by
  rintro ⟨d, members, hbody, hd⟩
  obtain ⟨error, -, herror⟩ := h
  let e : Document := ⟨.none, (WrittenMembers.cons (ascii "ok") (.leaf (.bool false))
    (.cons (ascii "error") (.leaf (.str (some error))) .nil)).members, .none⟩
  have hbytes : d.bytes = e.bytes := by
    rw [← hbody, herror]
    exact (List.append_nil _).symm
  let r := JsonReader.new (max d.count e.count)
  have hok : (r.parse d.bytes).2.getBool (some 0) (ascii "ok") = some true :=
    getBool_document (Nat.le_max_left _ _) hd.ok
  have hno : (r.parse e.bytes).2.getBool (some 0) (ascii "ok") = some false :=
    getBool_document (Nat.le_max_right _ _) rfl
  rw [hbytes, hno] at hok
  cases hok

section Request

variable {payloadMax resultMax : Nat} {errName : EspErr → Bytes} {methods : MethodTable σ}
  {slot : Slot payloadMax} {respBuf : Buf resultMax} {s : σ}

/-- A command line is answered with its output, or, when that does not fit, with an error. -/
theorem shell_answer_cases {size : Nat} {cmds : List (Option (ShellCommand σ))}
    {shellOut : Buf size} (hmax : 256 ≤ resultMax) (hsize : 0 < size)
    (hfind : findMethod methods slot.method.cstr = some (shellMethod cmds shellOut))
    (hruns : slot.Decodable) {line : Bytes}
    (hline : slot.params.2.HasString (ascii "line") line) (hlen : line.length ≤ 519) :
    ShellFits resultMax size (runLine cmds (cstr line) s).1 ∧
        ShellAnswered size (runLine cmds (cstr line) s).1
          (handle errName methods slot respBuf s).1 ∨
      ¬ ShellFits resultMax size (runLine cmds (cstr line) s).1 ∧
        AnsweredError (handle errName methods slot respBuf s).1 := by
  have hrun := shellMethod_run hsize cmds shellOut slot.method.cstr s hline hlen
  have hbody : if (okAnswer _).value.bytes.length < resultMax then
      (handle errName methods slot respBuf s).1 = (okAnswer _).value.bytes
    else AnsweredError (handle errName methods slot respBuf s).1 :=
    handle_result hmax hfind hruns hrun (nesting_shellResult _ _ _)
  rw [shellFits_iff]
  split_ifs at hbody with hfits
  · rw [hbody]
    exact .inl ⟨hfits, shellAnswered_of_result _ _⟩
  · exact .inr ⟨hfits, hbody⟩

/-- **`shell`.** A command line of at most 519 bytes is answered `ok:true` with the beginning of
the output that fits half of the answer's buffer, and with a mark exactly if that is not all, if
and only if that beginning fits the answer once it is escaped. -/
theorem shell_answer_iff {cmds : List (Option (ShellCommand σ))} {shellOut : Buf (resultMax / 2)}
    (hmax : 256 ≤ resultMax)
    (hfind : findMethod methods slot.method.cstr = some (shellMethod cmds shellOut))
    (hruns : slot.Decodable) {line : Bytes}
    (hline : slot.params.2.HasString (ascii "line") line) (hlen : line.length ≤ 519) :
    ShellAnswered (resultMax / 2) (runLine cmds (cstr line) s).1
        (handle errName methods slot respBuf s).1 ↔
      ShellFits resultMax (resultMax / 2) (runLine cmds (cstr line) s).1 := by
  have hanswer : ShellFits resultMax (resultMax / 2) (runLine cmds (cstr line) s).1 ∧
        ShellAnswered (resultMax / 2) (runLine cmds (cstr line) s).1
          (handle errName methods slot respBuf s).1 ∨ _ :=
    shell_answer_cases hmax (by omega) hfind hruns hline hlen
  rcases hanswer with ⟨hfits, hanswered⟩ | ⟨hno, herror⟩
  · exact ⟨fun _ => hfits, fun _ => hanswered⟩
  · exact ⟨fun h => absurd h (not_shellAnswered_of_error herror), fun h => absurd h hno⟩

end Request

/-- A command with this output. -/
def echoSample (output : Bytes) : ShellCommand Unit :=
  ⟨ascii "echo", none, fun _ s => (⟨[.write output], 0⟩, s)⟩

/-- The method table of the samples. -/
def shellMethods (cmds : List (Option (ShellCommand Unit))) : MethodTable Unit :=
  [some (ascii "shell", shellMethod cmds (.zero 128))]

/-- A request with a command line. -/
def shellRequestSample : Slot 256 :=
  requestSample (ascii "shell") (ascii "\x7b\"line\":\"echo\"\x7d")

theorem find_shellRequest (cmds : List (Option (ShellCommand Unit))) :
    findMethod (shellMethods cmds) shellRequestSample.method.cstr =
      some (shellMethod cmds (.zero 128)) := by
  have hname : shellRequestSample.method.cstr = ascii "shell" := by decide
  rw [hname]
  rfl

theorem hasLine_sample : shellRequestSample.params.2.HasString (ascii "line") (ascii "echo") :=
  ⟨⟨.string, 9, 13, 0⟩, by decide +kernel,
    ((@JsonReader.unescape_eq_some_iff 519 _ _).mp (by decide +kernel)).1⟩

/-- More output than there is room for: the answer has 127 bytes of it and the mark. -/
theorem shell_answer_sample :
    ShellAnswered 128 (runLine [some (echoSample (List.replicate 200 97))] (ascii "echo") ()).1
      (handle errNameSample (shellMethods [some (echoSample (List.replicate 200 97))])
        shellRequestSample (.zero 256) ()).1 := by
  have hfind := find_shellRequest [some (echoSample (List.replicate 200 97))]
  exact (shell_answer_iff (by decide) hfind (by decide +kernel) hasLine_sample (by decide)).mpr
    (by decide +kernel)

/-- 127 line ends fit the output, but not the answer. -/
theorem shell_output_lost :
    ¬ ∀ (cmds : List (Option (ShellCommand Unit))) (slot : Slot 256) (line : Bytes),
      findMethod (shellMethods cmds) slot.method.cstr = some (shellMethod cmds (.zero 128)) →
      slot.Decodable → slot.params.2.HasString (ascii "line") line → line.length ≤ 519 →
      ShellAnswered 128 (runLine cmds (cstr line) ()).1
        (handle errNameSample (shellMethods cmds) slot (.zero 256) ()).1 := by
  intro hall
  have hfind := find_shellRequest [some (echoSample (List.replicate 127 10))]
  have hanswered := hall _ shellRequestSample _ hfind (by decide +kernel) hasLine_sample (by decide)
  have hcases := @shell_answer_cases Unit 256 256 errNameSample _ _ (.zero 256) () 128 _ _
    (by decide) (by decide) hfind (by decide +kernel) _ hasLine_sample (by decide)
  rcases hcases with ⟨hfits, -⟩ | ⟨-, herror⟩
  · revert hfits
    decide +kernel
  · exact not_shellAnswered_of_error herror hanswered

end SoulCloud
