import SoulCloud.Lib.Bytes

/-!
# The JSON tokenizer (`jsmn_parse`)

The vendored jsmn, as `sc_json.cpp` builds it: strict, without parent links, and always
with a token array. The tokens allocated so far are a list, so `toknext` is its length;
`toksuper` is an index into it, or `none` for -1. Positions are offsets into a text of
fewer than 2^31 bytes.

- `scanString`, `scanPrimitive`: `jsmn_parse_string` and `jsmn_parse_primitive` up to the
  token they fill in.
- `JsmnParser`: the operations of the main loop on the tokens.
- `JsmnParser.step`, `JsmnParser.loop`, `jsmnParse`: `jsmn_parse`.
-/

namespace SoulCloud

/-- `jsmntype_t`. -/
inductive JsmnType where
  | object
  | array
  | string
  | primitive
  deriving DecidableEq, Repr

/-- The kinds of token with brackets. -/
inductive Container where
  | object
  | array
  deriving DecidableEq, Repr

def Container.type : Container → JsmnType
  | object => .object
  | array => .array

/-- `jsmntok_t`. The end of an object or array is -1 until its bracket is read. -/
structure JsmnToken where
  type : JsmnType
  start : Int
  stop : Int
  size : Nat
  deriving DecidableEq, Repr

/-- `JSMN_ERROR_NOMEM`, `JSMN_ERROR_INVAL` and `JSMN_ERROR_PART`. -/
inductive JsmnError where
  | noMem
  | inval
  | part
  deriving DecidableEq, Repr

namespace JsmnToken

/-- `token->start != -1 && token->end == -1`. -/
def isOpen (t : JsmnToken) : Bool := t.start != -1 && t.stop == -1

def isContainer (t : JsmnToken) : Bool := t.type == .array || t.type == .object

end JsmnToken

/-! ## Strings and primitives -/

/-- Where the loop of `jsmn_parse_string` is: between characters, after a backslash, or
with `n + 1` hexadecimal digits to come. -/
inductive StringScan where
  | plain
  | escape
  | hex (n : Nat)
  deriving DecidableEq, Repr

def isHexDigit (c : UInt8) : Bool :=
  decide (48 ≤ c ∧ c ≤ 57) || decide (65 ≤ c ∧ c ≤ 70) || decide (97 ≤ c ∧ c ≤ 102)

/-- The characters allowed after a backslash, `u` apart. -/
def simpleEscapes : Bytes := [34, 47, 92, 98, 102, 114, 110, 116]

/-- The loop of `jsmn_parse_string` over the bytes after the opening quote: how many there
are before the closing one. -/
def scanString : StringScan → Bytes → Nat → Except JsmnError Nat
  | _, [], _ => .error .part
  | .plain, c :: rest, n =>
    if c = 0 then .error .part
    else if c = 34 then .ok n
    else if c = 92 then scanString .escape rest (n + 1)
    else scanString .plain rest (n + 1)
  | .escape, c :: rest, n =>
    if c = 117 then scanString (.hex 3) rest (n + 1)
    else if c ∈ simpleEscapes then scanString .plain rest (n + 1)
    else .error .inval
  | .hex k, c :: rest, n =>
    if c = 0 then .error .part
    else if isHexDigit c then
      scanString (match k with
        | 0 => .plain
        | k + 1 => .hex k) rest (n + 1)
    else .error .inval

/-! What the scan does with one byte. -/

theorem scanString_plain {c : UInt8} (h0 : c ≠ 0) (hquote : c ≠ 34) (hback : c ≠ 92)
    (rest : Bytes) (n : Nat) :
    scanString .plain (c :: rest) n = scanString .plain rest (n + 1) := by
  rw [scanString, if_neg h0, if_neg hquote, if_neg hback]

theorem scanString_backslash (rest : Bytes) (n : Nat) :
    scanString .plain (92 :: rest) n = scanString .escape rest (n + 1) := rfl

theorem scanString_simple {c : UInt8} (h : c ∈ simpleEscapes) (rest : Bytes) (n : Nat) :
    scanString .escape (c :: rest) n = scanString .plain rest (n + 1) := by
  have hu : c ≠ 117 := by
    rintro rfl
    exact absurd h (by decide)
  rw [scanString, if_neg hu, if_pos h]

theorem scanString_unicode (rest : Bytes) (n : Nat) :
    scanString .escape (117 :: rest) n = scanString (.hex 3) rest (n + 1) := rfl

theorem scanString_digit {c : UInt8} (h : isHexDigit c = true ∧ c ≠ 0) (k : Nat) (rest : Bytes)
    (n : Nat) :
    scanString (.hex (k + 1)) (c :: rest) n = scanString (.hex k) rest (n + 1) := by
  rw [scanString, if_neg h.2, if_pos h.1]

theorem scanString_lastDigit {c : UInt8} (h : isHexDigit c = true ∧ c ≠ 0) (rest : Bytes)
    (n : Nat) : scanString (.hex 0) (c :: rest) n = scanString .plain rest (n + 1) := by
  rw [scanString, if_neg h.2, if_pos h.1]

def isJsonSpace (c : UInt8) : Bool := c == 9 || c == 13 || c == 10 || c == 32

/-- A byte that ends a primitive. -/
def endsPrimitive (c : UInt8) : Bool := isJsonSpace c || c == 44 || c == 93 || c == 125

/-- The loop of `jsmn_parse_primitive`: how many bytes the primitive has. In strict mode it
must be followed by something. -/
def scanPrimitive : Bytes → Nat → Except JsmnError Nat
  | [], _ => .error .part
  | c :: rest, n =>
    if c = 0 then .error .part
    else if endsPrimitive c then .ok n
    else if c < 32 ∨ 127 ≤ c then .error .inval
    else scanPrimitive rest (n + 1)

/-- The characters a strict primitive starts with. -/
def startsPrimitive (c : UInt8) : Bool :=
  c == 45 || decide (48 ≤ c ∧ c ≤ 57) || c == 116 || c == 102 || c == 110

/-- The cases of the switch of the main loop. -/
inductive JsmnCase where
  | opening (c : Container)
  | closing (c : Container)
  | quote
  | space
  | colon
  | comma
  | primitive
  /-- Not allowed in strict mode. -/
  | other
  deriving DecidableEq, Repr

/-- The case of a byte. -/
def jsmnCase (c : UInt8) : JsmnCase :=
  if c = 123 then .opening .object
  else if c = 91 then .opening .array
  else if c = 125 then .closing .object
  else if c = 93 then .closing .array
  else if c = 34 then .quote
  else if isJsonSpace c then .space
  else if c = 58 then .colon
  else if c = 44 then .comma
  else if startsPrimitive c then .primitive
  else .other

/-! ## The tokens -/

/-- `jsmn_parser`, with the tokens allocated so far. -/
structure JsmnParser where
  tokens : List JsmnToken
  toksuper : Option Nat
  deriving DecidableEq, Repr

/-- The backward scans of the main loop: the last of the first `n` tokens that passes. -/
def lastToken (test : JsmnToken → Bool) (tokens : List JsmnToken) : Nat → Option Nat
  | 0 => none
  | n + 1 => if tokens[n]?.any test then some n else lastToken test tokens n

namespace JsmnParser

/-- `jsmn_init`. -/
def init : JsmnParser := ⟨[], none⟩

/-- `jsmn_alloc_token`, with what its callers write into the token. -/
def alloc (s : JsmnParser) (cap : Nat) (t : JsmnToken) : Except JsmnError JsmnParser :=
  if cap ≤ s.tokens.length then .error .noMem else .ok { s with tokens := s.tokens ++ [t] }

/-- The token `toksuper` points to. -/
def super (s : JsmnParser) : Option JsmnToken := s.toksuper.bind fun i => s.tokens[i]?

/-- `tokens[toksuper].size++`, where there is one. -/
def grow (s : JsmnParser) : JsmnParser :=
  match s.toksuper with
  | none => s
  | some i => { s with tokens := s.tokens.modify i fun t => { t with size := t.size + 1 } }

/-- `{` and `[`. An object's next token is a key, which an object or array can't become. -/
def beginContainer (s : JsmnParser) (cap : Nat) (type : JsmnType) (pos : Nat) :
    Except JsmnError JsmnParser :=
  match s.alloc cap ⟨type, pos, -1, 0⟩ with
  | .error e => .error e
  | .ok s' =>
    if s.super.any fun t => t.type == .object then .error .inval
    else .ok { s'.grow with toksuper := some s.tokens.length }

/-- `}` and `]`: the last open token is closed, and the next open one below it becomes the
super token. -/
def endContainer (s : JsmnParser) (type : JsmnType) (pos : Nat) : Except JsmnError JsmnParser :=
  match lastToken JsmnToken.isOpen s.tokens s.tokens.length with
  | none => .error .inval
  | some i =>
    if s.tokens[i]?.any fun t => t.type != type then .error .inval
    else
      let tokens := s.tokens.modify i fun t => { t with stop := pos + 1 }
      .ok ⟨tokens, lastToken JsmnToken.isOpen tokens (i + 1)⟩

/-- A string or a primitive. -/
def addLeaf (s : JsmnParser) (cap : Nat) (type : JsmnType) (start stop : Nat) :
    Except JsmnError JsmnParser :=
  match s.alloc cap ⟨type, start, stop, 0⟩ with
  | .error e => .error e
  | .ok s' => .ok s'.grow

/-- `:`: the last token becomes the super token, whatever it is. -/
def colon (s : JsmnParser) : JsmnParser :=
  { s with toksuper := if s.tokens.length = 0 then none else some (s.tokens.length - 1) }

/-- `,`: below a key the super token becomes the last open object or array, if any is. -/
def comma (s : JsmnParser) : JsmnParser :=
  if s.super.any fun t => !t.isContainer then
    match lastToken (fun t => t.isContainer && t.isOpen) s.tokens s.tokens.length with
    | some i => { s with toksuper := some i }
    | none => s
  else s

/-- A primitive must not be a key, nor a second value of one. -/
def refusesPrimitive (s : JsmnParser) : Bool :=
  s.super.any fun t => t.type == .object || (t.type == .string && t.size != 0)

/-- The switch of the main loop on the byte `c` at `pos`, before `rest`: the new state, and
how many bytes of `rest` were read with it. -/
def step (cap : Nat) (c : UInt8) (rest : Bytes) (pos : Nat) (s : JsmnParser) :
    Except JsmnError (JsmnParser × Nat) :=
  match jsmnCase c with
  | .opening c => (s.beginContainer cap c.type pos).map (·, 0)
  | .closing c => (s.endContainer c.type pos).map (·, 0)
  | .quote =>
    match scanString .plain rest 0 with
    | .error e => .error e
    | .ok n => (s.addLeaf cap .string (pos + 1) (pos + 1 + n)).map (·, n + 1)
  | .space => .ok (s, 0)
  | .colon => .ok (s.colon, 0)
  | .comma => .ok (s.comma, 0)
  | .primitive =>
    if s.refusesPrimitive then .error .inval
    else
      match scanPrimitive (c :: rest) 0 with
      | .error e => .error e
      -- The byte that ended the primitive is read again.
      | .ok n => (s.addLeaf cap .primitive pos (pos + n)).map (·, n - 1)
  | .other => .error .inval

/-- The main loop of `jsmn_parse` from `pos` on; the next `skip` bytes are read already. -/
def loop (cap : Nat) : Bytes → Nat → Nat → JsmnParser → Except JsmnError JsmnParser
  | [], _, _, s => .ok s
  | _ :: rest, pos, skip + 1, s => loop cap rest (pos + 1) skip s
  | c :: rest, pos, 0, s =>
    if c = 0 then .ok s
    else
      match step cap c rest pos s with
      | .error e => .error e
      | .ok (s, skip) => loop cap rest (pos + 1) skip s

end JsmnParser

/-- `jsmn_parse`. The number it returns counts the tokens it allocated, so it is the length
of the list. -/
def jsmnParse (cap : Nat) (js : Bytes) : Except JsmnError (List JsmnToken) :=
  match JsmnParser.loop cap js 0 0 .init with
  | .error e => .error e
  | .ok s =>
    if (lastToken JsmnToken.isOpen s.tokens s.tokens.length).isSome then .error .part
    else .ok s.tokens

end SoulCloud
