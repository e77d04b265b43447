import SoulCloud.Json.Buffer
import SoulCloud.Lib.JsonSyntax

/-!
# What properly nested calls write

Calls that begin and end containers in pairs, and give a key exactly inside objects, are the
calls of a tree. The writer without limits turns them into the text of a JSON value.

- `Written`: the trees. `Written.calls` are their calls, `Written.value` is the JSON value.
- `escapeStr`: a string as `put_escaped` spells it.
- `wrote`: the calls of a tree append the text of its value, and leave the nesting alone.
-/

namespace SoulCloud

open Bytes Json

/-! ## Strings and numbers -/

theorem isHex_hexDigit {d : UInt8} (h : d.toNat < 16) : IsHex (hexDigit d) := by
  refine of_forall_ofNat (p := fun d => IsHex (hexDigit d)) ?_ h
  unfold IsHex
  decide

theorem isHex_zero : IsHex 48 := .inl (by decide)

/-- A byte of a string as `put_escaped` spells it. -/
def escapeChar (c : UInt8) : StrChar :=
  if h34 : c = 34 then .escape 34 (by decide)
  else if h92 : c = 92 then .escape 92 (by decide)
  else if c = 10 then .escape 110 (by decide)
  else if c = 13 then .escape 114 (by decide)
  else if c = 9 then .escape 116 (by decide)
  else if h : c < 32 then
    .unicode 48 48 (hexDigit (c >>> 4)) (hexDigit (c &&& 15))
      ⟨isHex_zero, isHex_zero, isHex_hexDigit (high_lt c), isHex_hexDigit (low_lt c)⟩
  else .plain c ⟨UInt8.not_lt.mp h, h34, h92⟩

def escapeStr (s : Bytes) : Str := s.map escapeChar

theorem bytes_escapeChar (c : UInt8) : (escapeChar c).bytes = JsonText.escape c := by
  rw [escapeChar, JsonText.escape]
  split_ifs <;> rfl

theorem spelled_escapeStr (s : Bytes) : spelled (escapeStr s) = s.flatMap JsonText.escape := by
  rw [spelled, escapeStr]
  rw [List.flatMap_map]
  simp [bytes_escapeChar]

theorem quoted_escapeStr (s : Bytes) : quoted (escapeStr s) = JsonText.quoted s := by
  rw [quoted, JsonText.quoted]
  rw [spelled_escapeStr]
  rfl

/-- Every character stands for itself. -/
def PlainText (s : Bytes) : Prop := ∀ c ∈ s, 32 ≤ c ∧ c ≠ 34 ∧ c ≠ 92

instance (s : Bytes) : Decidable (PlainText s) := List.decidableBAll _ s

/-- Characters that stand for themselves are spelled as they are. -/
theorem flatMap_escape_of_plain {s : Bytes} (h : PlainText s) :
    s.flatMap JsonText.escape = s := by
  induction s with
  | nil => rfl
  | cons c s ih =>
    obtain ⟨hspace, hquote, hbackslash⟩ := h c List.mem_cons_self
    have hctl : ∀ d : UInt8, d < 32 → c ≠ d := by
      rintro d hd rfl
      exact absurd hd (UInt8.not_lt.mpr hspace)
    have hc : JsonText.escape c = [c] := by
      rw [JsonText.escape]
      rw [if_neg hquote, if_neg hbackslash, if_neg (hctl 10 (by decide)),
        if_neg (hctl 13 (by decide)), if_neg (hctl 9 (by decide)),
        if_neg (UInt8.not_lt.mpr hspace)]
    rw [List.flatMap_cons, hc, ih fun d hd => h d (List.mem_cons_of_mem c hd)]
    rfl

theorem hexLower_plain (b : Bytes) : PlainText (hexLower b) := by
  have hdigit : ∀ d : UInt8, d.toNat < 16 →
      32 ≤ hexDigit d ∧ hexDigit d ≠ 34 ∧ hexDigit d ≠ 92 := by
    intro d hd
    refine of_forall_ofNat (p := fun d => 32 ≤ hexDigit d ∧ hexDigit d ≠ 34 ∧ hexDigit d ≠ 92) ?_ hd
    decide
  intro c hc
  obtain ⟨x, -, hx⟩ := List.mem_flatMap.mp hc
  rcases List.mem_pair.mp hx with rfl | rfl
  · exact hdigit _ (high_lt x)
  · exact hdigit _ (low_lt x)

/-- The digits of `n`, with a minus sign or without. -/
def wholeNumber (minus : Bool) (n : Nat) : Number where
  minus := minus
  int := decimal n
  int_ok := decimal_cases n
  frac := none
  frac_ok := nofun
  exponent := none

theorem bytes_wholeNumber (i : Int) :
    (wholeNumber (decide (i < 0)) i.natAbs).bytes = decimalInt i := by
  rw [Number.bytes, decimalInt]
  by_cases h : i < 0
  · simp [wholeNumber, Number.fracBytes, Number.expBytes, h]
  · have habs : i.natAbs = i.toNat := by omega
    simp [wholeNumber, Number.fracBytes, Number.expBytes, h, habs]

/-! ## Trees of calls -/

/-- What one call adds. -/
inductive Leaf where
  | str (value : Option Bytes)
  | strLen (value : Bytes)
  | fmt (text : Bytes)
  | int (value : Int)
  | uint (value : Nat)
  | bool (value : Bool)
  | null
  | hex (bytes : Bytes)

namespace Leaf

def call : Leaf → Option Bytes → WriterCall
  | str value, key => .addStr key value
  | strLen value, key => .addStrLen key value
  | fmt text, key => .addFmt key (some text)
  | int value, key => .addInt key value
  | uint value, key => .addUint key value
  | bool value, key => .addBool key value
  | null, key => .addNull key
  | hex bytes, key => .addHex key bytes

def value : Leaf → Value
  | str none | null => .literal .null
  | str (some s) | strLen s => .string (escapeStr s)
  | fmt text => .string (escapeStr (snprintf 128 text))
  | int i => .number (wholeNumber (decide (i < 0)) i.natAbs)
  | uint n => .number (wholeNumber false n)
  | bool true => .literal .true
  | bool false => .literal .false
  | hex bytes => .string (escapeStr (hexLower bytes))

end Leaf

mutual

/-- A value that is written by properly nested calls. -/
inductive Written where
  | object (members : WrittenMembers)
  | array (elements : WrittenElements)
  | leaf (l : Leaf)

inductive WrittenMembers where
  | nil
  | cons (key : Bytes) (value : Written) (rest : WrittenMembers)

inductive WrittenElements where
  | nil
  | cons (value : Written) (rest : WrittenElements)

end

mutual

/-- The calls that write a value, with a key or without. -/
def Written.calls : Written → Option Bytes → List WriterCall
  | .object members, key => .beginObject key :: (members.calls ++ [.endObject])
  | .array elements, key => .beginArray key :: (elements.calls ++ [.endArray])
  | .leaf l, key => [l.call key]

def WrittenMembers.calls : WrittenMembers → List WriterCall
  | .nil => []
  | .cons key value rest => value.calls (some key) ++ rest.calls

def WrittenElements.calls : WrittenElements → List WriterCall
  | .nil => []
  | .cons value rest => value.calls none ++ rest.calls

end

mutual

/-- The JSON value that is written. -/
def Written.value : Written → Value
  | .object members => .object members.members
  | .array elements => .array elements.elements
  | .leaf l => l.value

def WrittenMembers.members : WrittenMembers → Members
  | .nil => .nil .none
  | .cons key value rest =>
    .cons .none (escapeStr key) .none .none value.value .none rest.members

def WrittenElements.elements : WrittenElements → Elements
  | .nil => .nil .none
  | .cons value rest => .cons .none value.value .none rest.elements

end

mutual

/-- How many containers are nested. -/
def Written.nesting : Written → Nat
  | .object members => members.nesting + 1
  | .array elements => elements.nesting + 1
  | .leaf _ => 0

def WrittenMembers.nesting : WrittenMembers → Nat
  | .nil => 0
  | .cons _ value rest => max value.nesting rest.nesting

def WrittenElements.nesting : WrittenElements → Nat
  | .nil => 0
  | .cons value rest => max value.nesting rest.nesting

end

/-! ## What the calls write -/

/-- A container begun at this depth, or one inside it, is refused. -/
def tooDeep (depth nesting : Nat) : Bool := decide (0 < nesting ∧ maxDepth < depth + nesting)

/-- From `i` to `j` the value `t` has been written, which nests `nesting` containers. -/
structure Wrote (i : JsonText) (key : Option Bytes) (t : Bytes) (nesting : Nat) (j : JsonText) :
    Prop where
  text : j.text = (i.beginValue key).text ++ t
  depth : j.depth = i.depth
  filled : ∀ n ≤ i.depth, j.filled n = (i.beginValue key).filled n
  refused : j.refused = (i.refused || tooDeep i.depth nesting)

/-- From `i` to `j` the members or elements with the text `t` have been written into the
innermost container. -/
structure WroteInto (i : JsonText) (t : Bytes) (nesting : Nat) (j : JsonText) : Prop where
  text : j.text = i.text ++ t
  depth : j.depth = i.depth
  filled : ∀ n < i.depth, j.filled n = i.filled n
  refused : j.refused = (i.refused || tooDeep i.depth nesting)

namespace JsonText

variable {i j : JsonText} {key : Option Bytes}

theorem run_cons (i : JsonText) (c : WriterCall) (calls : List WriterCall) :
    i.run (c :: calls) = (i.apply c).run calls :=
  rfl

theorem run_append (i : JsonText) (calls calls' : List WriterCall) :
    i.run (calls ++ calls') = (i.run calls).run calls' :=
  List.foldl_append

/-- What a value is preceded by. -/
def keyText : Option Bytes → Bytes
  | none => []
  | some key => quoted key ++ [58]

/-- Inside a container a value is preceded by a comma or not, and fills the container. -/
theorem beginValue_text (hdepth : 0 < i.depth) :
    (i.beginValue key).text = i.text ++ separator (!i.filled i.depth) ++ keyText key := by
  unfold beginValue
  rw [if_pos hdepth]
  cases hfilled : i.filled i.depth <;> cases key <;>
    simp [mark, append, keyText, separator]

theorem beginValue_filled (hdepth : 0 < i.depth) (n : Nat) :
    (i.beginValue key).filled n = if n = i.depth then true else i.filled n := by
  unfold beginValue
  rw [if_pos hdepth]
  cases hfilled : i.filled i.depth <;> cases key <;>
    simp [mark, append, Function.update_apply]

end JsonText

namespace Leaf

/-- A leaf's call puts the text of its value. -/
theorem apply_call (l : Leaf) (i : JsonText) (key : Option Bytes) :
    i.apply (l.call key) = i.addRaw key l.value.bytes := by
  cases l with
  | str value =>
    cases value with
    | none => rfl
    | some s => simp only [call, value, JsonText.apply, Value.bytes, quoted_escapeStr]
  | strLen s => simp only [call, value, JsonText.apply, Value.bytes, quoted_escapeStr]
  | fmt text => simp only [call, value, JsonText.apply, Value.bytes, quoted_escapeStr]
  | int n => simp only [call, value, JsonText.apply, Value.bytes, bytes_wholeNumber]
  | uint n => simp [call, value, JsonText.apply, Value.bytes, Number.bytes, wholeNumber,
      Number.fracBytes, Number.expBytes]
  | bool b => cases b <;> rfl
  | null => rfl
  | hex bytes =>
    simp only [call, value, JsonText.apply, Value.bytes, quoted_escapeStr, JsonText.quoted,
      flatMap_escape_of_plain (hexLower_plain bytes)]

end Leaf

/-- A leaf, with or without a key. -/
theorem wrote_addRaw (i : JsonText) (key : Option Bytes) (t : Bytes) :
    Wrote i key t 0 (i.addRaw key t) := by
  constructor
  · rfl
  · exact JsonText.beginValue_depth i key
  · intro n _
    rfl
  · rw [show tooDeep i.depth 0 = false by simp [tooDeep], Bool.or_false]
    exact JsonText.beginValue_refused i key

/-- A container whose content has been written. -/
theorem WroteInto.close {i j : JsonText} {bracket close : UInt8} {key : Option Bytes} {t : Bytes}
    {nesting : Nat} (h : WroteInto (i.beginContainer bracket key) t nesting j) :
    Wrote i key (bracket :: (t ++ [close])) (nesting + 1) (j.endContainer close) := by
  have hdepth := JsonText.beginValue_depth i key
  have hbegun : (i.beginContainer bracket key).depth = i.depth + 1 :=
    congrArg (· + 1) hdepth
  constructor
  · show j.text ++ [close] = _
    rw [h.text]
    simp [JsonText.beginContainer, JsonText.append]
  · show j.depth - 1 = _
    rw [h.depth, hbegun, Nat.add_sub_cancel]
  · intro n hn
    show j.filled n = _
    rw [h.filled n (by omega)]
    show Function.update (i.beginValue key).filled ((i.beginValue key).depth + 1) false n = _
    rw [hdepth, Function.update_of_ne (by omega)]
  · show j.refused = _
    rw [h.refused, hbegun]
    show ((i.beginValue key).refused || decide (maxDepth ≤ (i.beginValue key).depth) || _) = _
    rw [hdepth, JsonText.beginValue_refused, Bool.or_assoc]
    congr 1
    unfold tooDeep
    rw [← Bool.decide_or, decide_eq_decide]
    omega

/-- The first member or element, and then the others. -/
theorem Wrote.cons {i j k : JsonText} {key : Option Bytes} {t u : Bytes} {m n : Nat}
    (hdepth : 0 < i.depth) (h : Wrote i key t m j)
    (hrest : WroteInto j u n k) :
    WroteInto i (separator (!i.filled i.depth) ++ JsonText.keyText key ++ t ++ u) (max m n) k := by
  constructor
  · rw [hrest.text, h.text, JsonText.beginValue_text hdepth]
    simp
  · rw [hrest.depth, h.depth]
  · intro d hd
    rw [hrest.filled d (by rwa [h.depth]), h.filled d hd.le, JsonText.beginValue_filled hdepth,
      if_neg (by omega)]
  · rw [hrest.refused, h.refused, h.depth, Bool.or_assoc]
    congr 1
    unfold tooDeep
    rw [← Bool.decide_or, decide_eq_decide]
    omega

theorem wroteInto_nil (i : JsonText) : WroteInto i [] 0 i := by
  constructor
  · rw [List.append_nil]
  · rfl
  · intro n _
    rfl
  · simp [tooDeep]

/-- The container is filled once a value is in it. -/
theorem Wrote.filled_depth {i j : JsonText} {key : Option Bytes} {t : Bytes} {n : Nat}
    (hdepth : 0 < i.depth) (h : Wrote i key t n j) : j.filled j.depth = true := by
  rw [h.depth, h.filled _ (Nat.le_refl _), JsonText.beginValue_filled hdepth, if_pos rfl]

/-- A container that has been begun is empty. -/
theorem filled_beginContainer (i : JsonText) (bracket : UInt8) (key : Option Bytes) :
    (i.beginContainer bracket key).filled (i.beginContainer bracket key).depth = false ∧
      0 < (i.beginContainer bracket key).depth :=
  ⟨Function.update_self _ _ _, Nat.succ_pos _⟩

mutual

/-- **The calls of a tree write its value.** -/
theorem wrote : ∀ (v : Written) (i : JsonText) (key : Option Bytes),
    Wrote i key v.value.bytes v.nesting (i.run (v.calls key))
  | .leaf l, i, key => by
    show Wrote i key l.value.bytes 0 (i.apply (l.call key))
    rw [l.apply_call]
    exact wrote_addRaw i key _
  | .object members, i, key => by
    obtain ⟨hfilled, hdepth⟩ := filled_beginContainer i 123 key
    have hmembers := wrote_members members (i.beginContainer 123 key) hdepth
    rw [hfilled] at hmembers
    simp only [Written.calls, JsonText.run_cons, JsonText.run_append]
    exact hmembers.close
  | .array elements, i, key => by
    obtain ⟨hfilled, hdepth⟩ := filled_beginContainer i 91 key
    have helements := wrote_elements elements (i.beginContainer 91 key) hdepth
    rw [hfilled] at helements
    simp only [Written.calls, JsonText.run_cons, JsonText.run_append]
    exact helements.close

theorem wrote_members : ∀ (ms : WrittenMembers) (i : JsonText), 0 < i.depth →
    WroteInto i (ms.members.bytes (!i.filled i.depth)) ms.nesting (i.run ms.calls)
  | .nil, i, _ => wroteInto_nil i
  | .cons key value rest, i, hdepth => by
    have hvalue := wrote value i (some key)
    have hrest := wrote_members rest (i.run (value.calls (some key))) (by rwa [hvalue.depth])
    rw [hvalue.filled_depth hdepth] at hrest
    have hall := hvalue.cons hdepth hrest
    simp only [WrittenMembers.calls, JsonText.run_append, WrittenMembers.members, Members.bytes,
      WrittenMembers.nesting, quoted_escapeStr]
    simpa [JsonText.keyText, Ws.none] using hall

theorem wrote_elements : ∀ (es : WrittenElements) (i : JsonText), 0 < i.depth →
    WroteInto i (es.elements.bytes (!i.filled i.depth)) es.nesting (i.run es.calls)
  | .nil, i, _ => wroteInto_nil i
  | .cons value rest, i, hdepth => by
    have hvalue := wrote value i none
    have hrest := wrote_elements rest (i.run (value.calls none)) (by rwa [hvalue.depth])
    rw [hvalue.filled_depth hdepth] at hrest
    have hall := hvalue.cons hdepth hrest
    simp only [WrittenElements.calls, JsonText.run_append, WrittenElements.elements,
      Elements.bytes, WrittenElements.nesting]
    simpa [JsonText.keyText, Ws.none] using hall

end

namespace JsonWriter

variable {cap : Nat}

/-- **Writing a tree into a buffer** succeeds exactly if the text of its value fits and no more
than 31 containers are nested, and then the buffer holds that text. -/
theorem reset_run_written (w : JsonWriter cap) (v : Written) (hcap : 0 < cap) :
    ((w.reset.run (v.calls none)).ok = true ↔
      v.value.bytes.length < cap ∧ v.nesting ≤ maxDepth) ∧
    ((w.reset.run (v.calls none)).ok = true →
      (w.reset.run (v.calls none)).text = v.value.bytes) ∧
    (w.reset.run (v.calls none)).text <+: v.value.bytes ∧
    (w.reset.run (v.calls none)).text.length < cap := by
  have hrenders : Renders (w.reset.run (v.calls none)) (JsonText.empty.run (v.calls none)) :=
    (renders_reset _ hcap).run hcap _
  have hwrote := wrote v .empty none
  have htext : (JsonText.empty.run (v.calls none)).text = v.value.bytes := hwrote.text
  have hok : (w.reset.run (v.calls none)).ok = true ↔
      (w.reset.run (v.calls none)).overflow = false := by
    rw [ok]
    rw [Bool.not_eq_true']
  have hrefused : (JsonText.empty.run (v.calls none)).refused = false ↔ v.nesting ≤ maxDepth := by
    rw [hwrote.refused]
    show (false || decide (0 < v.nesting ∧ maxDepth < 0 + v.nesting)) = false ↔ _
    rw [Bool.false_or, decide_eq_false_iff_not]
    omega
  refine ⟨?_, ?_, ?_, ?_⟩
  · rw [hok, hrenders.ok, htext, hrefused]
  · intro h
    rw [hrenders.whole (hok.mp h), htext]
  · rw [← htext]
    exact hrenders.text
  · rw [text_length _ hcap]
    exact pos_lt _ hcap

end JsonWriter

end SoulCloud
