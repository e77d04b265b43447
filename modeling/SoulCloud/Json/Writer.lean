import SoulCloud.Lib.Bytes

/-!
# The JSON writer (`sc_json_writer`)

Compact JSON written into an array of `cap` bytes. The writer is translated
function by function: `put` and `putText` are the two `put`s, which refuse what
would not leave room for the NUL and then stay refused until `reset`.

- `JsonWriter`: the writer's fields; `len() < cap` is part of the type.
- `WriterCall`: the public calls, so that what a callback does with a writer is a
  list of them, executed by `JsonWriter.run`.

A `key` of `none` is the null pointer, which adds an array element.
-/

namespace SoulCloud

open Bytes

/-- `MAX_DEPTH`. -/
def maxDepth : Nat := 31

/-- `sc_json_writer` on a buffer of `cap` bytes. Bit n of `hasItems`: the container at
depth n already holds a value. -/
structure JsonWriter (cap : Nat) where
  buf : Buf cap
  pos : Nat
  pos_lt : 0 < cap → pos < cap
  overflow : Bool
  depth : Nat
  hasItems : BitVec 32

/-- One call on a writer. -/
inductive WriterCall where
  | beginObject (key : Option Bytes)
  | endObject
  | beginArray (key : Option Bytes)
  | endArray
  /-- `add_str` of a C string or a null pointer. -/
  | addStr (key : Option Bytes) (value : Option Bytes)
  /-- `add_str` with a length. -/
  | addStrLen (key : Option Bytes) (value : Bytes)
  /-- `add_fmt`, with the whole formatted text, or `none` when formatting fails. -/
  | addFmt (key : Option Bytes) (text : Option Bytes)
  | addInt (key : Option Bytes) (value : Int)
  | addUint (key : Option Bytes) (value : Nat)
  | addBool (key : Option Bytes) (value : Bool)
  | addNull (key : Option Bytes)
  | addHex (key : Option Bytes) (bytes : Bytes)
  | reset

namespace JsonWriter

variable {cap : Nat}

/-- `reset`. -/
def reset (w : JsonWriter cap) : JsonWriter cap where
  buf := if h : 0 < cap then w.buf.set ⟨0, h⟩ 0 else w.buf
  pos := 0
  pos_lt h := h
  overflow := decide (cap < 1)
  depth := 0
  hasItems := 0

/-- A writer on a zero-initialised buffer. -/
def init (cap : Nat) : JsonWriter cap := reset ⟨.zero cap, 0, fun h => h, false, 0, 0⟩

/-- `ok`. -/
def ok (w : JsonWriter cap) : Bool := !w.overflow

/-- The first `len` bytes of the buffer. -/
def text (w : JsonWriter cap) : Bytes := w.buf.text w.pos

/-- Nothing more is written. -/
def fail (w : JsonWriter cap) : JsonWriter cap := { w with overflow := true }

/-- `put` of a string. -/
def putText (w : JsonWriter cap) (str : Bytes) : JsonWriter cap :=
  if h : w.overflow = true ∨ cap ≤ w.pos + str.length then w.fail
  else
    have hlt : w.pos + str.length < cap := by
      rw [not_or] at h
      omega
    { w with
      buf := (w.buf.write w.pos str hlt.le).set ⟨w.pos + str.length, hlt⟩ 0
      pos := w.pos + str.length
      pos_lt := fun _ => hlt }

/-- `put` of a character. -/
def put (w : JsonWriter cap) (c : UInt8) : JsonWriter cap :=
  if h : w.overflow = true ∨ cap ≤ w.pos + 1 then w.fail
  else
    have hlt : w.pos + 1 < cap := by
      rw [not_or] at h
      omega
    { w with
      buf := (w.buf.set ⟨w.pos, by omega⟩ c).set ⟨w.pos + 1, hlt⟩ 0
      pos := w.pos + 1
      pos_lt := fun _ => hlt }

/-- The body of the loop of `put_escaped`. -/
def putEscapedByte (w : JsonWriter cap) (c : UInt8) : JsonWriter cap :=
  if c = 34 then w.putText [92, 34]
  else if c = 92 then w.putText [92, 92]
  else if c = 10 then w.putText (ascii "\\n")
  else if c = 13 then w.putText (ascii "\\r")
  else if c = 9 then w.putText (ascii "\\t")
  else if c < 32 then w.putText (ascii "\\u00" ++ [hexDigit (c >>> 4), hexDigit (c &&& 15)])
  else w.put c

/-- The loop of `put_escaped`. -/
def putEscapedLoop (w : JsonWriter cap) : Bytes → JsonWriter cap
  | [] => w
  | c :: rest => if w.overflow then w else (w.putEscapedByte c).putEscapedLoop rest

/-- `put_escaped`. -/
def putEscaped (w : JsonWriter cap) (str : Bytes) : JsonWriter cap :=
  ((w.put 34).putEscapedLoop str).put 34

/-- `1UL << depth`. -/
def depthBit (w : JsonWriter cap) : BitVec 32 := 1#32 <<< w.depth

/-- `begin_value`. -/
def beginValue (w : JsonWriter cap) (key : Option Bytes) : JsonWriter cap :=
  let w :=
    if 0 < w.depth then
      let w' := if w.hasItems &&& w.depthBit ≠ 0 then w.put 44 else w
      { w' with hasItems := w.hasItems ||| w.depthBit }
    else w
  match key with
  | some key => (w.putEscaped key).put 58
  | none => w

/-- `begin_object` and `begin_array`, which differ in the bracket. -/
def beginContainer (w : JsonWriter cap) (bracket : UInt8) (key : Option Bytes) : JsonWriter cap :=
  let w := (w.beginValue key).put bracket
  -- The bracket of a refused container is in the buffer already.
  if maxDepth ≤ w.depth then w.fail
  else { w with depth := w.depth + 1, hasItems := w.hasItems &&& ~~~(1#32 <<< (w.depth + 1)) }

def beginObject (w : JsonWriter cap) (key : Option Bytes) : JsonWriter cap :=
  w.beginContainer 123 key

def beginArray (w : JsonWriter cap) (key : Option Bytes) : JsonWriter cap :=
  w.beginContainer 91 key

/-- `end_object` and `end_array`. -/
def endContainer (w : JsonWriter cap) (bracket : UInt8) : JsonWriter cap :=
  let w := w.put bracket
  { w with depth := w.depth - 1 }

def endObject (w : JsonWriter cap) : JsonWriter cap := w.endContainer 125

def endArray (w : JsonWriter cap) : JsonWriter cap := w.endContainer 93

/-- A value that is put as it is. -/
def addRaw (w : JsonWriter cap) (key : Option Bytes) (text : Bytes) : JsonWriter cap :=
  (w.beginValue key).putText text

def addNull (w : JsonWriter cap) (key : Option Bytes) : JsonWriter cap :=
  w.addRaw key (ascii "null")

/-- `add_str` with a length. -/
def addStrLen (w : JsonWriter cap) (key : Option Bytes) (value : Bytes) : JsonWriter cap :=
  (w.beginValue key).putEscaped value

/-- `add_str`. -/
def addStr (w : JsonWriter cap) (key : Option Bytes) (value : Option Bytes) : JsonWriter cap :=
  match value with
  | none => w.addNull key
  | some value => w.addStrLen key value

/-- `add_fmt`, which formats into a `char[128]`. -/
def addFmt (w : JsonWriter cap) (key : Option Bytes) (text : Option Bytes) : JsonWriter cap :=
  match text with
  | none => w.fail
  | some text => w.addStrLen key (snprintf 128 text)

def addInt (w : JsonWriter cap) (key : Option Bytes) (value : Int) : JsonWriter cap :=
  w.addRaw key (decimalInt value)

def addUint (w : JsonWriter cap) (key : Option Bytes) (value : Nat) : JsonWriter cap :=
  w.addRaw key (decimal value)

def addBool (w : JsonWriter cap) (key : Option Bytes) (value : Bool) : JsonWriter cap :=
  w.addRaw key (if value then ascii "true" else ascii "false")

/-- The loop of `add_hex`. -/
def putHexLoop (w : JsonWriter cap) : Bytes → JsonWriter cap
  | [] => w
  | c :: rest =>
    if w.overflow then w
    else ((w.put (hexDigit (c >>> 4))).put (hexDigit (c &&& 15))).putHexLoop rest

def addHex (w : JsonWriter cap) (key : Option Bytes) (bytes : Bytes) : JsonWriter cap :=
  (((w.beginValue key).put 34).putHexLoop bytes).put 34

/-- One call. -/
def apply (w : JsonWriter cap) : WriterCall → JsonWriter cap
  | .beginObject key => w.beginObject key
  | .endObject => w.endObject
  | .beginArray key => w.beginArray key
  | .endArray => w.endArray
  | .addStr key value => w.addStr key value
  | .addStrLen key value => w.addStrLen key value
  | .addFmt key text => w.addFmt key text
  | .addInt key value => w.addInt key value
  | .addUint key value => w.addUint key value
  | .addBool key value => w.addBool key value
  | .addNull key => w.addNull key
  | .addHex key bytes => w.addHex key bytes
  | .reset => w.reset

/-- A sequence of calls. -/
def run (w : JsonWriter cap) (calls : List WriterCall) : JsonWriter cap := calls.foldl apply w

end JsonWriter

end SoulCloud
