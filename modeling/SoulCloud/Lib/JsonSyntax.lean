import SoulCloud.Lib.Bytes

/-!
# JSON texts (RFC 8259)

The grammar of JSON as concrete syntax trees: a text is well-formed exactly if it is the
text of some tree. White space, escapes and the digits of a number are part of the tree, so
nothing of the text is lost in it.

- `Json.Ws`, `Json.Str`, `Json.Number`, `Json.Literal`: the terminals.
- `Json.Value`, `Json.Members`, `Json.Elements`: the values, and what stands between the
  brackets of an object or an array.
- `Json.Value.bytes`: the text of a value.
- `Json.Document`: a whole text with an object at its root.
- `Json.Part`: the nodes of a document, and `at?` for the node at an index in pre-order.
- `Json.Members.lookup?`: the value of the first member with a given key.

Texts are bytes. A byte from 128 on is part of the UTF-8 form of a character that stands for
itself in a string.
-/

namespace Json

open Bytes

/-! ## Terminals -/

/-- White space: blanks, tabs and line ends. -/
structure Ws where
  bytes : Bytes
  space : ∀ c ∈ bytes, c = 32 ∨ c = 9 ∨ c = 10 ∨ c = 13

def Ws.none : Ws := ⟨[], nofun⟩

/-- A hexadecimal digit. -/
def IsHex (c : UInt8) : Prop := (48 ≤ c ∧ c ≤ 57) ∨ (65 ≤ c ∧ c ≤ 70) ∨ (97 ≤ c ∧ c ≤ 102)

/-- A character of a string: one that stands for itself, or an escape. -/
inductive StrChar where
  | plain (c : UInt8) (h : 32 ≤ c ∧ c ≠ 34 ∧ c ≠ 92)
  | escape (c : UInt8) (h : c ∈ ([34, 92, 47, 98, 102, 110, 114, 116] : Bytes))
  | unicode (a b c d : UInt8) (h : IsHex a ∧ IsHex b ∧ IsHex c ∧ IsHex d)

def StrChar.bytes : StrChar → Bytes
  | plain c _ => [c]
  | escape c _ => [92, c]
  | unicode a b c d _ => [92, 117, a, b, c, d]

/-- What stands between the quotes of a string. -/
abbrev Str := List StrChar

/-- A string as it is spelled, without its quotes. -/
def spelled (s : Str) : Bytes := s.flatMap StrChar.bytes

/-- A string with its quotes. -/
def quoted (s : Str) : Bytes := 34 :: (spelled s ++ [34])

def IsDigit (c : UInt8) : Prop := 48 ≤ c ∧ c ≤ 57

/-- The exponent of a number: the letter, the sign and the digits. -/
structure Exponent where
  letter : UInt8
  letter_e : letter = 101 ∨ letter = 69
  sign : Bytes
  sign_ok : sign = [] ∨ sign = [43] ∨ sign = [45]
  digits : Bytes
  digits_ok : digits ≠ [] ∧ ∀ c ∈ digits, IsDigit c

def Exponent.bytes (e : Exponent) : Bytes := e.letter :: (e.sign ++ e.digits)

/-- A number: a sign, an integer without leading zeros, a fraction and an exponent. -/
structure Number where
  minus : Bool
  int : Bytes
  int_ok : int = [48] ∨ ∃ d ds, int = d :: ds ∧ (49 ≤ d ∧ d ≤ 57) ∧ ∀ c ∈ ds, IsDigit c
  frac : Option Bytes
  frac_ok : ∀ ds ∈ frac, ds ≠ [] ∧ ∀ c ∈ ds, IsDigit c
  exponent : Option Exponent

namespace Number

/-- The digits of the fraction after their point. -/
def fracBytes (n : Number) : Bytes :=
  match n.frac with
  | some ds => 46 :: ds
  | none => []

def expBytes (n : Number) : Bytes :=
  match n.exponent with
  | some e => e.bytes
  | none => []

def bytes (n : Number) : Bytes :=
  (if n.minus then [45] else []) ++ n.int ++ n.fracBytes ++ n.expBytes

end Number

inductive Literal where
  | true
  | false
  | null
  deriving DecidableEq

def Literal.bytes : Literal → Bytes
  | true => ascii "true"
  | false => ascii "false"
  | null => ascii "null"

/-! ## Values -/

mutual

inductive Value where
  | object (members : Members)
  | array (elements : Elements)
  | string (s : Str)
  | number (n : Number)
  | literal (l : Literal)

/-- What stands between the brackets of an object, with the white space before the closing
one. -/
inductive Members where
  | nil (ws : Ws)
  | cons (lead : Ws) (key : Str) (beforeColon afterColon : Ws) (value : Value) (trail : Ws)
    (rest : Members)

/-- What stands between the brackets of an array. -/
inductive Elements where
  | nil (ws : Ws)
  | cons (lead : Ws) (value : Value) (trail : Ws) (rest : Elements)

end

/-- The separator before a member or an element that is not the first one. -/
def separator (first : Bool) : Bytes := if first then [] else [44]

mutual

/-- The text of a value. -/
def Value.bytes : Value → Bytes
  | .object members => 123 :: (members.bytes true ++ [125])
  | .array elements => 91 :: (elements.bytes true ++ [93])
  | .string s => quoted s
  | .number n => n.bytes
  | .literal l => l.bytes

def Members.bytes : Bool → Members → Bytes
  | _, .nil ws => ws.bytes
  | first, .cons lead key beforeColon afterColon value trail rest =>
    separator first ++ lead.bytes ++ quoted key ++ beforeColon.bytes ++ [58] ++
      afterColon.bytes ++ value.bytes ++ trail.bytes ++ rest.bytes false

def Elements.bytes : Bool → Elements → Bytes
  | _, .nil ws => ws.bytes
  | first, .cons lead value trail rest =>
    separator first ++ lead.bytes ++ value.bytes ++ trail.bytes ++ rest.bytes false

end

/-- The number of members. -/
def Members.length : Members → Nat
  | .nil _ => 0
  | .cons _ _ _ _ _ _ rest => rest.length + 1

/-- The number of elements. -/
def Elements.length : Elements → Nat
  | .nil _ => 0
  | .cons _ _ _ rest => rest.length + 1

mutual

/-- The number of nodes: objects, arrays, keys, strings, numbers and literals. -/
def Value.count : Value → Nat
  | .object members => members.count + 1
  | .array elements => elements.count + 1
  | .string _ | .number _ | .literal _ => 1

def Members.count : Members → Nat
  | .nil _ => 0
  | .cons _ _ _ _ value _ rest => value.count + 1 + rest.count

def Elements.count : Elements → Nat
  | .nil _ => 0
  | .cons _ value _ rest => value.count + rest.count

end

/-- A whole text: an object between white space. -/
structure Document where
  lead : Ws
  members : Members
  trail : Ws

namespace Document

def root (d : Document) : Value := .object d.members

def bytes (d : Document) : Bytes := d.lead.bytes ++ d.root.bytes ++ d.trail.bytes

/-- The number of nodes. -/
def count (d : Document) : Nat := d.root.count

end Document

/-- The text is the UTF-8 form of some characters. -/
def IsUtf8 (text : Bytes) : Prop := ∃ chars : List Char, text = chars.flatMap String.utf8EncodeChar

/-- The text is the text of some document, in UTF-8. -/
def WellFormed (text : Bytes) : Prop := IsUtf8 text ∧ ∃ d : Document, text = d.bytes

/-! ## Nodes -/

/-- A node of a document: a value, or a key with its value below it. -/
inductive Part where
  | value (v : Value)
  | key (s : Str) (v : Value)

namespace Part

/-- The number of members or elements of a container; a key has its value. -/
def childCount : Part → Nat
  | value (.object members) => members.length
  | value (.array elements) => elements.length
  | value _ => 0
  | key _ _ => 1

/-- The number of nodes of the subtree. -/
def count : Part → Nat
  | value v => v.count
  | key _ v => v.count + 1

end Part

/-- Where the key of a member starts that is the first one or not, when what stands before
the member ends at `pos`. -/
def keyPos (first : Bool) (pos : Nat) (lead : Ws) : Nat :=
  pos + (separator first).length + lead.bytes.length

/-- Where the value starts whose key starts at `pos`. -/
def valuePos (pos : Nat) (key : Str) (beforeColon afterColon : Ws) : Nat :=
  pos + (quoted key).length + beforeColon.bytes.length + 1 + afterColon.bytes.length

/-- Where the white space after a value ends that starts at `pos`. -/
def nextPos (pos : Nat) (value : Value) (trail : Ws) : Nat :=
  pos + value.bytes.length + trail.bytes.length

mutual

/-- The node at index `i` in pre-order of a value that starts at `pos`, and where it starts. -/
def Value.at? : Value → Nat → Nat → Option (Part × Nat)
  | v, pos, 0 => some (.value v, pos)
  | .object members, pos, i + 1 => members.at? true (pos + 1) i
  | .array elements, pos, i + 1 => elements.at? true (pos + 1) i
  | .string _, _, _ + 1 | .number _, _, _ + 1 | .literal _, _, _ + 1 => none

def Members.at? : Members → Bool → Nat → Nat → Option (Part × Nat)
  | .nil _, _, _, _ => none
  | .cons lead key _ _ value _ _, first, pos, 0 => some (.key key value, keyPos first pos lead)
  | .cons lead key beforeColon afterColon value trail rest, first, pos, i + 1 =>
    let valuePos := valuePos (keyPos first pos lead) key beforeColon afterColon
    if i < value.count then value.at? valuePos i
    else rest.at? false (nextPos valuePos value trail) (i - value.count)

def Elements.at? : Elements → Bool → Nat → Nat → Option (Part × Nat)
  | .nil _, _, _, _ => none
  | .cons lead value trail rest, first, pos, i =>
    let valuePos := keyPos first pos lead
    if i < value.count then value.at? valuePos i
    else rest.at? false (nextPos valuePos value trail) (i - value.count)

end

/-- The node at index `i` of a document in pre-order, and where it starts. -/
def Document.at? (d : Document) (i : Nat) : Option (Part × Nat) :=
  d.root.at? d.lead.bytes.length i

/-- Where the value of the first member whose key is spelled `k` is among the members'
nodes. -/
def Members.find? (k : Bytes) : Members → Option Nat
  | .nil _ => none
  | .cons _ key _ _ value _ rest =>
    if spelled key = k then some 1 else (rest.find? k).map (value.count + 1 + ·)

/-- The value of the first member whose key is spelled `k`. -/
def Members.lookup? (k : Bytes) : Members → Option Value
  | .nil _ => none
  | .cons _ key _ _ value _ rest => if spelled key = k then some value else rest.lookup? k

theorem Value.at?_zero (v : Value) (pos : Nat) : v.at? pos 0 = some (.value v, pos) := by
  cases v <;> rfl

theorem Value.count_pos (v : Value) : 0 < v.count := by
  cases v <;> simp [Value.count]

theorem Number.bytes_ne_nil (n : Number) : n.bytes ≠ [] := by
  have hint : n.int ≠ [] := by
    rcases n.int_ok with heq | ⟨d, ds, heq, -⟩
    · rw [heq]
      exact List.cons_ne_nil _ _
    · rw [heq]
      exact List.cons_ne_nil _ _
  rw [bytes]
  simp [hint]

mutual

/-- Every node has a byte of its own. -/
theorem Value.count_le_length : ∀ v : Value, v.count ≤ v.bytes.length
  | .object members => by
    have hle := members.count_le_length true
    rw [Value.count, Value.bytes, List.length_cons, List.length_append]
    omega
  | .array elements => by
    have hle := elements.count_le_length true
    rw [Value.count, Value.bytes, List.length_cons, List.length_append]
    omega
  | .string s => Nat.succ_le_succ (Nat.zero_le _)
  | .number n => List.length_pos_of_ne_nil n.bytes_ne_nil
  | .literal l => by cases l <;> decide

theorem Members.count_le_length : ∀ (ms : Members) (first : Bool),
    ms.count ≤ (ms.bytes first).length
  | .nil _, _ => Nat.zero_le _
  | .cons _ key _ _ value _ rest, _ => by
    have hvalue := value.count_le_length
    have hrest := rest.count_le_length false
    simp only [Members.count, Members.bytes, List.length_append, List.length_singleton]
    omega

theorem Elements.count_le_length : ∀ (es : Elements) (first : Bool),
    es.count ≤ (es.bytes first).length
  | .nil _, _ => Nat.zero_le _
  | .cons _ value _ rest, _ => by
    have hvalue := value.count_le_length
    have hrest := rest.count_le_length false
    simp only [Elements.count, Elements.bytes, List.length_append]
    omega

end

theorem Document.count_le_length (d : Document) : d.count ≤ d.bytes.length := by
  have hle := d.root.count_le_length
  rw [count, bytes, List.length_append, List.length_append]
  omega

mutual

/-- The nodes below a node are where the node's own numbering puts them. -/
theorem Value.at?_add : ∀ {v w : Value} {pos p i j : Nat}, v.at? pos i = some (.value w, p) →
    j < w.count → v.at? pos (i + j) = w.at? p j ∧ i + j < v.count
  | v, w, pos, p, 0, j, hat, hj => by
    rw [Value.at?_zero] at hat
    cases hat
    rw [Nat.zero_add]
    exact ⟨rfl, hj⟩
  | .object members, w, pos, p, i + 1, j, hat, hj => by
    obtain ⟨hsame, hlt⟩ := Members.at?_add hat hj
    rw [Nat.add_right_comm]
    exact ⟨hsame, Nat.succ_lt_succ hlt⟩
  | .array elements, w, pos, p, i + 1, j, hat, hj => by
    obtain ⟨hsame, hlt⟩ := Elements.at?_add hat hj
    rw [Nat.add_right_comm]
    exact ⟨hsame, Nat.succ_lt_succ hlt⟩
  | .string _, _, _, _, _ + 1, _, hat, _ => by cases hat
  | .number _, _, _, _, _ + 1, _, hat, _ => by cases hat
  | .literal _, _, _, _, _ + 1, _, hat, _ => by cases hat

theorem Members.at?_add : ∀ {ms : Members} {w : Value} {first : Bool} {pos p i j : Nat},
    ms.at? first pos i = some (.value w, p) → j < w.count →
    ms.at? first pos (i + j) = w.at? p j ∧ i + j < ms.count
  | .nil _, _, _, _, _, _, _, hat, _ => by cases hat
  | .cons _ _ _ _ _ _ _, _, _, _, _, 0, _, hat, _ => by cases hat
  | .cons _ _ _ _ value _ rest, w, _, _, p, i + 1, j, hat, hj => by
    simp only [Members.at?] at hat
    rw [Nat.add_right_comm]
    simp only [Members.at?, Members.count]
    by_cases hi : i < value.count
    · rw [if_pos hi] at hat
      obtain ⟨hsame, hlt⟩ := Value.at?_add hat hj
      rw [if_pos hlt]
      exact ⟨hsame, by omega⟩
    · rw [if_neg hi] at hat
      obtain ⟨hsame, hlt⟩ := Members.at?_add hat hj
      rw [if_neg (by omega), show i + j - value.count = i - value.count + j by omega]
      exact ⟨hsame, by omega⟩

theorem Elements.at?_add : ∀ {es : Elements} {w : Value} {first : Bool} {pos p i j : Nat},
    es.at? first pos i = some (.value w, p) → j < w.count →
    es.at? first pos (i + j) = w.at? p j ∧ i + j < es.count
  | .nil _, _, _, _, _, _, _, hat, _ => by cases hat
  | .cons _ value _ rest, w, _, _, p, i, j, hat, hj => by
    simp only [Elements.at?] at hat
    simp only [Elements.at?, Elements.count]
    by_cases hi : i < value.count
    · rw [if_pos hi] at hat
      obtain ⟨hsame, hlt⟩ := Value.at?_add hat hj
      rw [if_pos hlt]
      exact ⟨hsame, by omega⟩
    · rw [if_neg hi] at hat
      obtain ⟨hsame, hlt⟩ := Elements.at?_add hat hj
      rw [if_neg (by omega), show i + j - value.count = i - value.count + j by omega]
      exact ⟨hsame, by omega⟩

end

/-- `find?` is the index of the value that `lookup?` names. -/
theorem Members.at?_find? (ms : Members) (k : Bytes) (first : Bool) (pos : Nat) :
    match ms.find? k with
    | none => ms.lookup? k = none
    | some j => ∃ v p, ms.lookup? k = some v ∧ ms.at? first pos j = some (.value v, p) ∧
        j < ms.count := by
  match ms with
  | .nil _ => rfl
  | .cons lead key beforeColon afterColon value trail rest =>
    have hpos := value.count_pos
    have ih := rest.at?_find? k false
      (nextPos (valuePos (keyPos first pos lead) key beforeColon afterColon) value trail)
    simp only [Members.find?, Members.lookup?, Members.count]
    by_cases hkey : spelled key = k
    · rw [if_pos hkey, if_pos hkey]
      refine ⟨value, valuePos (keyPos first pos lead) key beforeColon afterColon, rfl, ?_, by omega⟩
      simp only [Members.at?]
      rw [if_pos hpos, Value.at?_zero]
    · rw [if_neg hkey, if_neg hkey]
      cases hfind : rest.find? k with
      | none =>
        rw [hfind] at ih
        exact ih
      | some j =>
        rw [hfind] at ih
        obtain ⟨v, p, hlookup, hat, hlt⟩ := ih
        refine ⟨v, p, hlookup, ?_, Nat.add_lt_add_left hlt _⟩
        have hindex : value.count + 1 + j = value.count + j + 1 := by omega
        simp only [hindex, Members.at?]
        rw [if_neg (by omega), Nat.add_sub_cancel_left]
        exact hat

end Json
