import SoulCloud.Config
import SoulCloud.Json.Jsmn
import SoulCloud.Lib.Forest

/-!
# The JSON reader (`sc_json_reader`)

The lookup functions over the tokens of a parsed text. A token argument or result is an
index, or `none` for the -1 (or any other negative number) that means "no token"; every
function checks it against `count` before it looks at the array.

- `JsonReader`: the reader's fields. `tokens` is the caller's array as far as it has been
  written; only the first `count` entries are ever looked at.
- `parse`, `skip`, `find`, `isObject`, `childCount`, `raw`: the tokens.
- `strAt`, `intAt`, `getBool` and the rest: the values.
-/

namespace SoulCloud

open Bytes

/-- `sc_json_reader`. -/
structure JsonReader where
  maxTokens : Nat
  tokens : List JsmnToken
  count : Nat
  json : Bytes

namespace JsonReader

variable (r : JsonReader)

/-- A reader with room for `maxTokens` tokens that has parsed nothing. -/
def new (maxTokens : Nat) : JsonReader := ⟨maxTokens, [], 0, []⟩

/-- `parse`. After a failure `count` is 0; what the array holds then does not matter. -/
def parse (json : Bytes) : EspErr × JsonReader :=
  match jsmnParse r.maxTokens json with
  | .error .noMem => (.noMem, { r with json := json, count := 0 })
  | .error _ => (.invalidArg, { r with json := json, count := 0 })
  | .ok tokens =>
    if (tokens.head?.map (·.type)) = some .object then
      (.ok, { r with json := json, tokens := tokens, count := tokens.length })
    else (.invalidArg, { r with json := json, tokens := tokens, count := 0 })

/-- The test `tok < 0 || tok >= count` that guards every access: the token, if it is one. -/
def token? (tok : Option Nat) : Option JsmnToken :=
  match tok with
  | none => none
  | some i => if i < r.count then r.tokens[i]? else none

/-- `skip`. The walk over the sizes is `Forest.span`. -/
def skip (tok : Option Nat) : Option Nat :=
  match tok with
  | none => none
  | some i =>
    if i < r.count then
      let idx := i + Forest.span (((r.tokens.take r.count).drop i).map (·.size)) 1
      if idx < r.count then some idx else none
    else none

/-- The bytes of the text from `start` up to `stop`. -/
def slice (start stop : Int) : Bytes := (r.json.take stop.toNat).drop start.toNat

/-- `key_equals`, which compares the key as it is spelled in the text. -/
def keyEquals (t : JsmnToken) (key : Bytes) : Bool :=
  t.type == .string && (t.stop - t.start == key.length) && r.slice t.start t.stop == key

/-- `is_object`. -/
def isObject (tok : Option Nat) : Bool :=
  match r.token? tok with
  | some t => t.type == .object
  | none => false

/-- The loop of `find` over the `n` members from the token `member` on. -/
def findLoop (key : Bytes) : Nat → Option Nat → Option Nat
  | 0, _ => none
  | _ + 1, none => none
  | n + 1, some member =>
    if member + 1 < r.count then
      match r.tokens[member]? with
      | none => none
      | some t =>
        -- A key without a value has no child; it counts as missing.
        if t.size ≠ 1 then none
        else if r.keyEquals t key then some (member + 1)
        else findLoop key n (r.skip (some (member + 1)))
    else none

/-- `child_count`. -/
def childCount (tok : Option Nat) : Nat :=
  match r.token? tok with
  | some t => t.size
  | none => 0

/-- `find`. -/
def find (object : Option Nat) (key : Bytes) : Option Nat :=
  match object with
  | none => none
  | some o =>
    if r.isObject (some o) then r.findLoop key (r.childCount (some o)) (some (o + 1)) else none

/-- `raw`: where the token's text starts, and how long it is. -/
def raw (tok : Option Nat) : Option (Int × Int) :=
  (r.token? tok).map fun t => (t.start, t.stop - t.start)

/-- The text that `raw` points to. -/
def rawText (tok : Option Nat) : Option Bytes :=
  (r.token? tok).map fun t => r.slice t.start t.stop

/-! ## Strings -/

/-- `hex_value`. -/
def hexValue (c : UInt8) : Option Nat :=
  if 48 ≤ c ∧ c ≤ 57 then some (c.toNat - 48)
  else if 97 ≤ c ∧ c ≤ 102 then some (c.toNat - 97 + 10)
  else if 65 ≤ c ∧ c ≤ 70 then some (c.toNat - 65 + 10)
  else none

/-- What `str_at` emits for `\\uXXXX`: UTF-8, and '?' for a surrogate. -/
def emitCode (code : Nat) : Bytes :=
  let code := if 0xd800 ≤ code ∧ code ≤ 0xdfff then 63 else code
  if code < 0x80 then [code.toUInt8]
  else if code < 0x800 then [(0xc0 ||| code >>> 6).toUInt8, (0x80 ||| code &&& 0x3f).toUInt8]
  else
    [(0xe0 ||| code >>> 12).toUInt8, (0x80 ||| (code >>> 6) &&& 0x3f).toUInt8,
      (0x80 ||| code &&& 0x3f).toUInt8]

/-- The character for a simple escape; '"', '\\' and '/' stand for themselves. -/
def unescapeChar (c : UInt8) : UInt8 :=
  if c = 98 then 8
  else if c = 102 then 12
  else if c = 110 then 10
  else if c = 114 then 13
  else if c = 116 then 9
  else c

/-- The loop of `str_at`, with room for `room` more bytes before the NUL: what it emits. -/
def unescape (room : Nat) : Bytes → Option Bytes
  | [] => some []
  | c :: rest =>
    if c ≠ 92 then if 0 < room then (unescape (room - 1) rest).map (c :: ·) else none
    else
      match rest with
      | [] => none
      | esc :: rest =>
        if esc = 117 then
          match rest with
          | a :: b :: c :: d :: rest =>
            match hexValue a, hexValue b, hexValue c, hexValue d with
            | some a, some b, some c, some d =>
              let out := emitCode (((a <<< 4 ||| b) <<< 4 ||| c) <<< 4 ||| d)
              if out.length ≤ room then (unescape (room - out.length) rest).map (out ++ ·)
              else none
            | _, _, _, _ => none
          | _ => none
        else if 0 < room then (unescape (room - 1) rest).map (unescapeChar esc :: ·)
        else none

/-- `str_at` into a buffer of `cap` bytes: the bytes before the NUL it writes. -/
def strAt (tok : Option Nat) (cap : Nat) : Option Bytes :=
  match r.token? tok with
  | some t =>
    if t.type ≠ .string ∨ cap < 1 then none else unescape (cap - 1) (r.slice t.start t.stop)
  | none => none

/-- `get_str`. -/
def getStr (object : Option Nat) (key : Bytes) (cap : Nat) : Option Bytes :=
  r.strAt (r.find object key) cap

/-! ## Numbers and booleans -/

def isDigit (c : UInt8) : Bool := decide (48 ≤ c ∧ c ≤ 57)

def int64Min : Int := -2 ^ 63

def int64Max : Int := 2 ^ 63 - 1

/-- `strtoll` in base 10 on a C string: the number and what follows it, or `none` when no
digit is found or the number is out of range. -/
def strtoll (s : Bytes) : Option (Int × Bytes) :=
  let s := s.dropWhile fun c => c == 32 || decide (9 ≤ c ∧ c ≤ 13)
  let neg := s.head? == some 45
  let s := if neg || s.head? == some 43 then s.tail else s
  let digits := s.takeWhile isDigit
  let value : Int := if neg then -(ofDecimal digits : Int) else ofDecimal digits
  if digits = [] ∨ value < int64Min ∨ int64Max < value then none
  else some (value, s.dropWhile isDigit)

/-- `int_at`. -/
def intAt (tok : Option Nat) : Option Int :=
  match r.token? tok with
  | some t =>
    let text := r.slice t.start t.stop
    if t.type ≠ .primitive ∨ t.stop - t.start < 1 ∨ 20 < t.stop - t.start then none
    else
      match strtoll (cstr text) with
      | some (value, []) => some value
      | _ => none
  | none => none

/-- `get_int`. -/
def getInt (object : Option Nat) (key : Bytes) : Option Int := r.intAt (r.find object key)

/-- `get_bool`. -/
def getBool (object : Option Nat) (key : Bytes) : Option Bool :=
  let tok := r.find object key
  match r.token? tok with
  | some t =>
    let text := r.slice t.start t.stop
    if t.type ≠ .primitive then none
    else if text = ascii "true" then some true
    else if text = ascii "false" then some false
    else none
  | none => none

end JsonReader

end SoulCloud
