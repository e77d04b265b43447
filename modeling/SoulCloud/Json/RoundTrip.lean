import SoulCloud.Json.WellFormed
import SoulCloud.Json.Written

/-!
# Writing a tree and reading it back

A value that the writer has written is recovered from the reader alone: `decode` asks
nothing but the lookup functions, and what it finds is the tree that was written.

- `JsonTree`: the trees, and `JsonTree.Valid` for what can be written so that it is read back.
- `JsonReader.decode`: the tree that the lookup functions see.
- `round_trip`: `decode` after `parse` after the writer is the identity.
-/

namespace SoulCloud

open Bytes Json Forest

/-! ## Trees -/

mutual

inductive JsonTree where
  | object (members : TreeMembers)
  | array (elements : TreeElements)
  | string (s : Bytes)
  | int (n : Int)
  | bool (b : Bool)
  | null

inductive TreeMembers where
  | nil
  | cons (key : Bytes) (value : JsonTree) (rest : TreeMembers)

inductive TreeElements where
  | nil
  | cons (value : JsonTree) (rest : TreeElements)

end

mutual

/-- The calls that write a tree: `add_str` with a length, `add_int`, `add_bool`, `add_null`
and the containers. -/
def JsonTree.written : JsonTree → Written
  | .object members => .object members.written
  | .array elements => .array elements.written
  | .string s => .leaf (.strLen s)
  | .int n => .leaf (.int n)
  | .bool b => .leaf (.bool b)
  | .null => .leaf .null

def TreeMembers.written : TreeMembers → WrittenMembers
  | .nil => .nil
  | .cons key value rest => .cons key value.written rest.written

def TreeElements.written : TreeElements → WrittenElements
  | .nil => .nil
  | .cons value rest => .cons value.written rest.written

end

def TreeMembers.length : TreeMembers → Nat
  | .nil => 0
  | .cons _ _ rest => rest.length + 1

def TreeElements.length : TreeElements → Nat
  | .nil => 0
  | .cons _ rest => rest.length + 1

def TreeMembers.keys : TreeMembers → List Bytes
  | .nil => []
  | .cons key _ rest => key :: rest.keys

/-- A key that needs no escape: no NUL, quote, backslash or control character. -/
def PlainKey (key : Bytes) : Prop := ∀ c ∈ key, 32 ≤ c ∧ c ≠ 34 ∧ c ≠ 92

mutual

/-- Keys are plain and distinct, and integers have 64 bits. -/
def JsonTree.Valid : JsonTree → Prop
  | .object members => members.keys.Nodup ∧ members.Valid
  | .array elements => elements.Valid
  | .int n => JsonReader.int64Min ≤ n ∧ n ≤ JsonReader.int64Max
  | .string _ | .bool _ | .null => True

def TreeMembers.Valid : TreeMembers → Prop
  | .nil => True
  | .cons key value rest => PlainKey key ∧ value.Valid ∧ rest.Valid

def TreeElements.Valid : TreeElements → Prop
  | .nil => True
  | .cons value rest => value.Valid ∧ rest.Valid

end

mutual

/-- How many containers are nested. -/
def JsonTree.nesting : JsonTree → Nat
  | .object members => members.nesting + 1
  | .array elements => elements.nesting + 1
  | .string _ | .int _ | .bool _ | .null => 0

def TreeMembers.nesting : TreeMembers → Nat
  | .nil => 0
  | .cons _ value rest => max value.nesting rest.nesting

def TreeElements.nesting : TreeElements → Nat
  | .nil => 0
  | .cons value rest => max value.nesting rest.nesting

end

mutual

/-- The number of nodes, each key counted as one. -/
def JsonTree.nodes : JsonTree → Nat
  | .object members => members.nodes + 1
  | .array elements => elements.nodes + 1
  | .string _ | .int _ | .bool _ | .null => 1

def TreeMembers.nodes : TreeMembers → Nat
  | .nil => 0
  | .cons _ value rest => value.nodes + 1 + rest.nodes

def TreeElements.nodes : TreeElements → Nat
  | .nil => 0
  | .cons value rest => value.nodes + rest.nodes

end

mutual

/-- The length of the longest string. -/
def JsonTree.longest : JsonTree → Nat
  | .object members => members.longest
  | .array elements => elements.longest
  | .string s => s.length
  | .int _ | .bool _ | .null => 0

def TreeMembers.longest : TreeMembers → Nat
  | .nil => 0
  | .cons _ value rest => max value.longest rest.longest

def TreeElements.longest : TreeElements → Nat
  | .nil => 0
  | .cons value rest => max value.longest rest.longest

end

/-! ## Reading a tree -/

namespace JsonReader

variable (r : JsonReader)

/-- `n` members of the object at `object` from the key token `member` on: the text of the key,
the value that `find` has for it, and on behind that value. -/
def decodeMembers (object : Nat) (value : Bytes → Nat → Option JsonTree) :
    Nat → Option Nat → Option TreeMembers
  | 0, _ => some .nil
  | n + 1, member =>
    (r.rawText member).bind fun key =>
      (r.find (some object) key).bind fun tok =>
        (value key tok).bind fun value' =>
          (decodeMembers object value n (r.skip (some tok))).map (.cons key value' ·)

/-- `n` elements from the token `element` on. -/
def decodeElements (value : Nat → Option JsonTree) : Nat → Option Nat → Option TreeElements
  | 0, _ => some .nil
  | _ + 1, none => none
  | n + 1, some tok =>
    (value tok).bind fun value' =>
      (decodeElements value n (r.skip (some tok))).map (.cons value' ·)

/-- A boolean: `get_bool` for a member, and the text for an element. -/
def decodeBool (member : Option (Nat × Bytes)) (text : Bytes) : Option Bool :=
  match member with
  | some (object, key) => r.getBool (some object) key
  | none =>
    if text = ascii "true" then some true
    else if text = ascii "false" then some false
    else none

/-- The value at a token, with strings of fewer than `cap` bytes and at most `fuel` containers
nested. For a member's value `member` is the object and the key. -/
def decodeValue (cap : Nat) : Nat → Option (Nat × Bytes) → Nat → Option JsonTree
  | 0, _, _ => none
  | fuel + 1, member, tok =>
    if r.isObject (some tok) then
      (r.decodeMembers tok (fun key => decodeValue cap fuel (some (tok, key)))
        (r.childCount (some tok)) (some (tok + 1))).map .object
    else
      match r.strAt (some tok) cap with
      | some s => some (.string s)
      | none =>
        match r.intAt (some tok) with
        | some n => some (.int n)
        | none =>
          (r.rawText (some tok)).bind fun text =>
            if text.head? = some 91 then
              (r.decodeElements (decodeValue cap fuel none) (r.childCount (some tok))
                (some (tok + 1))).map .array
            else if text = ascii "null" then some .null
            else (r.decodeBool member text).map .bool

/-- The tree that the lookup functions see. Nothing nests deeper than there are tokens. -/
def decode (cap : Nat) : Option JsonTree := r.decodeValue cap (r.count + 1) none 0

end JsonReader

/-! ## What a tree is written as -/

mutual

theorem JsonTree.nesting_written : ∀ t : JsonTree, t.written.nesting = t.nesting
  | .object members => congrArg (· + 1) members.nesting_written
  | .array elements => congrArg (· + 1) elements.nesting_written
  | .string _ | .int _ | .bool _ | .null => rfl

theorem TreeMembers.nesting_written : ∀ ms : TreeMembers, ms.written.nesting = ms.nesting
  | .nil => rfl
  | .cons _ value rest => by
    simp only [TreeMembers.written, WrittenMembers.nesting, TreeMembers.nesting,
      value.nesting_written, rest.nesting_written]

theorem TreeElements.nesting_written : ∀ es : TreeElements, es.written.nesting = es.nesting
  | .nil => rfl
  | .cons value rest => by
    simp only [TreeElements.written, WrittenElements.nesting, TreeElements.nesting,
      value.nesting_written, rest.nesting_written]

end

mutual

theorem JsonTree.count_written : ∀ t : JsonTree, t.written.value.count = t.nodes
  | .object members => congrArg (· + 1) members.count_written
  | .array elements => congrArg (· + 1) elements.count_written
  | .string _ | .int _ | .null => rfl
  | .bool b => by cases b <;> rfl

theorem TreeMembers.count_written : ∀ ms : TreeMembers, ms.written.members.count = ms.nodes
  | .nil => rfl
  | .cons _ value rest => by
    simp only [TreeMembers.written, WrittenMembers.members, Members.count, TreeMembers.nodes,
      value.count_written, rest.count_written]

theorem TreeElements.count_written : ∀ es : TreeElements, es.written.elements.count = es.nodes
  | .nil => rfl
  | .cons value rest => by
    simp only [TreeElements.written, WrittenElements.elements, Elements.count, TreeElements.nodes,
      value.count_written, rest.count_written]

end

theorem TreeMembers.length_written : ∀ ms : TreeMembers, ms.written.members.length = ms.length
  | .nil => rfl
  | .cons _ _ rest => congrArg (· + 1) rest.length_written

theorem TreeElements.length_written : ∀ es : TreeElements, es.written.elements.length = es.length
  | .nil => rfl
  | .cons _ rest => congrArg (· + 1) rest.length_written

mutual

/-- Containers are nodes. -/
theorem JsonTree.nesting_le_nodes : ∀ t : JsonTree, t.nesting ≤ t.nodes
  | .object members => Nat.succ_le_succ members.nesting_le_nodes
  | .array elements => Nat.succ_le_succ elements.nesting_le_nodes
  | .string _ | .int _ | .bool _ | .null => Nat.zero_le _

theorem TreeMembers.nesting_le_nodes : ∀ ms : TreeMembers, ms.nesting ≤ ms.nodes
  | .nil => Nat.le_refl _
  | .cons _ value rest => by
    have hvalue := value.nesting_le_nodes
    have hrest := rest.nesting_le_nodes
    simp only [TreeMembers.nesting, TreeMembers.nodes]
    omega

theorem TreeElements.nesting_le_nodes : ∀ es : TreeElements, es.nesting ≤ es.nodes
  | .nil => Nat.le_refl _
  | .cons value rest => by
    have hvalue := value.nesting_le_nodes
    have hrest := rest.nesting_le_nodes
    simp only [TreeElements.nesting, TreeElements.nodes]
    omega

end

/-! ## Reading strings and numbers -/

namespace JsonReader

theorem hexValue_hexDigit {d : UInt8} (h : d.toNat < 16) :
    hexValue (hexDigit d) = some d.toNat := by
  refine of_forall_ofNat (p := fun d => hexValue (hexDigit d) = some d.toNat) ?_ h
  decide

/-- A control character comes back from its hexadecimal digits. -/
theorem emitCode_nibbles {c : UInt8} (h : c < 32) :
    emitCode (((0 <<< 4 ||| 0) <<< 4 ||| (c >>> 4).toNat) <<< 4 ||| (c &&& 15).toNat) = [c] := by
  have hlt : c.toNat < 32 := h
  refine of_forall_ofNat (p := fun c =>
    emitCode (((0 <<< 4 ||| 0) <<< 4 ||| (c >>> 4).toNat) <<< 4 ||| (c &&& 15).toNat) = [c]) ?_ hlt
  decide

theorem unescape_plain {c : UInt8} (hc : c ≠ 92) (rest : Bytes) {room : Nat} (hroom : 0 < room) :
    unescape room (c :: rest) = (unescape (room - 1) rest).map (c :: ·) := by
  rw [unescape.eq_def]
  dsimp only
  rw [if_pos hc, if_pos hroom]

theorem unescape_simple {esc : UInt8} (hesc : esc ≠ 117) (rest : Bytes) {room : Nat}
    (hroom : 0 < room) :
    unescape room (92 :: esc :: rest) =
      (unescape (room - 1) rest).map (unescapeChar esc :: ·) := by
  rw [unescape.eq_def]
  dsimp only
  rw [if_neg (by decide), if_neg hesc, if_pos hroom]

/-- `str_at` undoes the escape of one byte. -/
theorem unescape_escape (c : UInt8) (rest : Bytes) {room : Nat} (hroom : 0 < room) :
    unescape room (JsonText.escape c ++ rest) = (unescape (room - 1) rest).map (c :: ·) := by
  rw [JsonText.escape]
  split_ifs with h34 h92 h10 h13 h9 hctl
  · subst h34
    exact unescape_simple (by decide) rest hroom
  · subst h92
    exact unescape_simple (by decide) rest hroom
  · subst h10
    exact unescape_simple (by decide) rest hroom
  · subst h13
    exact unescape_simple (by decide) rest hroom
  · subst h9
    exact unescape_simple (by decide) rest hroom
  · have hhigh := hexValue_hexDigit (high_lt c)
    have hlow := hexValue_hexDigit (low_lt c)
    have hzero : hexValue 48 = some 0 := by decide
    have hcode := emitCode_nibbles hctl
    show unescape room
      (92 :: 117 :: 48 :: 48 :: hexDigit (c >>> 4) :: hexDigit (c &&& 15) :: rest) = _
    rw [unescape, if_neg (by decide), if_pos rfl]
    simp only [hzero, hhigh, hlow, hcode]
    exact if_pos hroom
  · exact unescape_plain h92 rest hroom

/-- **`str_at` undoes `put_escaped`.** -/
theorem unescape_escapeStr (s : Bytes) {room : Nat} (h : s.length ≤ room) :
    unescape room (spelled (escapeStr s)) = some s := by
  rw [spelled_escapeStr]
  induction s generalizing room with
  | nil => rfl
  | cons c s ih =>
    have hlen : s.length + 1 ≤ room := h
    rw [List.flatMap_cons, unescape_escape c _ (by omega), ih (by omega)]
    rfl

theorem isDigit_decimal (n : Nat) : ∀ c ∈ decimal n, isDigit c = true := by
  intro c hc
  exact decide_eq_true (decimal_digit hc)

theorem decimal_ne_nil (n : Nat) : decimal n ≠ [] := by
  rcases decimal_cases n with h | ⟨d, ds, h, -⟩ <;> simp [h]

/-- Digits are no white space, no sign and no NUL. -/
theorem decimalInt_byte {i : Int} {c : UInt8} (h : c ∈ decimalInt i) : 45 ≤ c ∧ c ≤ 57 := by
  have hdigit : ∀ n, c ∈ decimal n → 45 ≤ c ∧ c ≤ 57 := by
    intro n hn
    obtain ⟨hlow, hhigh⟩ := decimal_digit hn
    exact ⟨UInt8.le_trans (by decide : (45 : UInt8) ≤ 48) hlow, hhigh⟩
  rw [decimalInt] at h
  split at h
  · rcases List.mem_cons.mp h with rfl | h
    · decide
    · exact hdigit _ h
  · exact hdigit _ h

/-- **`strtoll` undoes `PRId64`.** -/
theorem strtoll_decimalInt {i : Int} (h : int64Min ≤ i ∧ i ≤ int64Max) :
    strtoll (cstr (decimalInt i)) = some (i, []) := by
  have hcstr : cstr (decimalInt i) = decimalInt i := by
    refine List.takeWhile_eq_self_iff.mpr fun c hc => ?_
    obtain ⟨hlow, -⟩ := decimalInt_byte hc
    rw [bne_iff_ne]
    rintro rfl
    exact absurd hlow (by decide)
  have hspace : (decimalInt i).dropWhile (fun c => c == 32 || decide (9 ≤ c ∧ c ≤ 13)) =
      decimalInt i := by
    refine List.dropWhile_eq_self_iff.mpr fun hlen => ?_
    obtain ⟨hlow, -⟩ := decimalInt_byte (List.getElem_mem hlen)
    generalize (decimalInt i)[0] = c at hlow ⊢
    have hc : ∀ d : UInt8, d < 45 → c ≠ d := fun d hd heq =>
      absurd (heq ▸ hlow) (UInt8.not_le.mpr hd)
    have hcontrol : ¬ (9 ≤ c ∧ c ≤ 13) := fun h =>
      absurd (UInt8.le_trans hlow h.2) (by decide)
    simp [hc 32 (by decide), hcontrol]
  have hdigits : ∀ n, (decimal n).takeWhile isDigit = decimal n ∧
      (decimal n).dropWhile isDigit = [] := by
    intro n
    exact ⟨List.takeWhile_eq_self_iff.mpr (isDigit_decimal n),
      List.dropWhile_eq_nil_iff.mpr (isDigit_decimal n)⟩
  rw [hcstr]
  rw [strtoll]
  rw [hspace]
  by_cases hneg : i < 0
  · have htext : decimalInt i = 45 :: decimal i.natAbs := if_pos hneg
    rw [htext]
    have hvalue : -((ofDecimal (decimal i.natAbs) : Nat) : Int) = i := by
      rw [ofDecimal_decimal]
      omega
    simp only [List.head?_cons, beq_self_eq_true, Bool.true_or, if_true, List.tail_cons,
      (hdigits _).1, (hdigits _).2, hvalue]
    exact if_neg (by simp [decimal_ne_nil, not_lt.mpr h.1, not_lt.mpr h.2])
  · have htext : decimalInt i = decimal i.toNat := if_neg hneg
    rw [htext]
    have hvalue : ((ofDecimal (decimal i.toNat) : Nat) : Int) = i := by
      rw [ofDecimal_decimal]
      omega
    have hsign : ∀ c : UInt8, c < 48 → ((decimal i.toNat).head? == some c) = false := by
      intro c hc
      rw [beq_eq_false_iff_ne]
      intro hhead
      obtain ⟨hlow, -⟩ := decimal_digit (List.mem_of_head? hhead)
      exact absurd hlow (UInt8.not_le.mpr hc)
    simp only [hsign 45 (by decide), hsign 43 (by decide), Bool.or_false, Bool.false_eq_true,
      if_false, (hdigits _).1, (hdigits _).2, hvalue]
    exact if_neg (by simp [decimal_ne_nil, not_lt.mpr h.1, not_lt.mpr h.2])

theorem length_decimalInt {i : Int} (h : int64Min ≤ i ∧ i ≤ int64Max) :
    0 < (decimalInt i).length ∧ (decimalInt i).length ≤ 20 := by
  obtain ⟨hmin, hmax⟩ := h
  unfold int64Min at hmin
  unfold int64Max at hmax
  rw [decimalInt]
  split
  · have hlen := decimal_length_of_lt (n := i.natAbs) (k := 19) (by norm_num) (by omega)
    simp only [List.length_cons]
    omega
  · have hlen := decimal_length_of_lt (n := i.toNat) (k := 19) (by norm_num) (by omega)
    have hpos := List.length_pos_iff.mpr (decimal_ne_nil i.toNat)
    omega

/-! ## What the lookup functions say about a value -/

variable {r : JsonReader} {f : Forest JsonNode} {i pos : Nat} {v : Value}

/-- The text that `raw` gives for a value: without the quotes of a string. -/
def rawOf : Value → Bytes
  | .string s => spelled s
  | v => v.bytes

theorem Lists.slice_value (hv : HasValue f r.json i pos v) :
    r.slice (nodeOf v pos).start (nodeOf v pos).stop = rawOf v := by
  have htext := hv.text
  cases v with
  | string s =>
    have hquoted : HasText r.json pos ([34] ++ (spelled s ++ [34])) := htext
    exact hquoted.right.left.slice
  | object members | array elements | number n | literal l => exact htext.slice

theorem Lists.token_value (h : Lists r f) (hv : HasValue f r.json i pos v) :
    r.token? (some i) = some ((nodeOf v pos).token (childrenOf v pos).width) :=
  h.token?_of hv.tree

theorem Lists.rawText_value (h : Lists r f) (hv : HasValue f r.json i pos v) :
    r.rawText (some i) = some (rawOf v) := by
  rw [rawText]
  rw [h.token_value hv]
  exact congrArg some (Lists.slice_value hv)

theorem Lists.isObject_value (h : Lists r f) (hv : HasValue f r.json i pos v) :
    r.isObject (some i) = ((nodeOf v pos).type == .object) := by
  rw [isObject]
  rw [h.token_value hv]
  rfl

theorem Lists.strAt_value (h : Lists r f) (hv : HasValue f r.json i pos v) (cap : Nat) :
    r.strAt (some i) cap =
      if (nodeOf v pos).type ≠ .string ∨ cap < 1 then none else unescape (cap - 1) (rawOf v) := by
  rw [strAt]
  rw [h.token_value hv, ← Lists.slice_value hv]
  rfl

theorem length_rawOf (v : Value) (pos : Nat) :
    (nodeOf v pos).stop - (nodeOf v pos).start = ((rawOf v).length : Nat) := by
  cases v <;> simp [nodeOf, strNode, primitiveNode, rawOf, Value.bytes]

theorem Lists.intAt_value (h : Lists r f) (hv : HasValue f r.json i pos v) :
    r.intAt (some i) =
      if (nodeOf v pos).type ≠ .primitive ∨ ((rawOf v).length : Int) < 1 ∨
          20 < ((rawOf v).length : Int) then none
      else
        match strtoll (cstr (rawOf v)) with
        | some (value, []) => some value
        | _ => none := by
  rw [intAt]
  rw [h.token_value hv, ← length_rawOf v pos, ← Lists.slice_value hv]
  rfl

/-- An integer that was written. -/
theorem Lists.intAt_whole (h : Lists r f) {n : Int} (hn : int64Min ≤ n ∧ n ≤ int64Max)
    (hv : HasValue f r.json i pos (.number (wholeNumber (decide (n < 0)) n.natAbs))) :
    r.intAt (some i) = some n := by
  obtain ⟨hpos, hlen⟩ := length_decimalInt hn
  have hraw : rawOf (.number (wholeNumber (decide (n < 0)) n.natAbs)) = decimalInt n :=
    bytes_wholeNumber n
  rw [h.intAt_value hv, hraw, strtoll_decimalInt hn, if_neg]
  rintro (hne | hshort | hlong)
  · exact hne rfl
  · omega
  · omega

/-- A literal is no integer. -/
theorem Lists.intAt_literal (h : Lists r f) {l : Literal}
    (hv : HasValue f r.json i pos (.literal l)) : r.intAt (some i) = none := by
  have hnone : strtoll (cstr (rawOf (.literal l))) = none := by cases l <;> decide
  rw [h.intAt_value hv, hnone]
  exact ite_self none

/-- `get_bool` for a member that was written. -/
theorem Lists.getBool_literal (h : Lists r f) {b : Bool}
    (hv : HasValue f r.json i pos (Leaf.bool b).value) {object : Option Nat} {key : Bytes}
    (hfind : r.find object key = some i) : r.getBool object key = some b := by
  rw [getBool]
  dsimp only
  rw [hfind, h.token_value hv]
  simp only [JsonNode.token, Lists.slice_value hv]
  cases b <;> rfl

/-! ## Reading back -/

/-- A key of the object is found where its member is. -/
theorem rawText_key (h : Lists r f) {key : Bytes} {n : JsonNode} {kids : Forest JsonNode}
    (hplain : PlainKey key)
    (ht : HasTree f i (strNode (escapeStr key) pos) (snoc nil n kids))
    (htext : HasText r.json pos (quoted (escapeStr key))) : r.rawText (some i) = some key := by
  have hspelled : spelled (escapeStr key) = key := by
    rw [spelled_escapeStr, flatMap_escape_of_plain hplain]
  have hquoted : HasText r.json pos ([34] ++ (spelled (escapeStr key) ++ [34])) := htext
  have hslice := hquoted.right.left.slice
  rw [rawText]
  rw [h.token?_of ht]
  rw [hspelled] at hslice
  refine congrArg some ?_
  show r.slice ((pos + 1 : Nat) : Int)
    ((pos + 1 + (spelled (escapeStr key)).length : Nat) : Int) = key
  rw [hspelled]
  exact hslice

theorem lt_of_hasTree {n : JsonNode} {kids : Forest JsonNode} (h : Lists r f)
    (ht : HasTree f i n kids) : i < r.count := by
  obtain ⟨before, after, rfl, hf⟩ := ht
  rw [h.count, ← length_preorder, hf]
  simp

theorem Lists.childCount_value (h : Lists r f) (hv : HasValue f r.json i pos v) :
    r.childCount (some i) = (Part.value v).childCount := by
  rw [h.childCount_of hv.tree, width_childrenOf]

/-- Behind a value stands the next one, if there is one. -/
theorem Lists.skip_value (h : Lists r f) (hv : HasValue f r.json i pos v)
    (hnext : i + v.count < r.count) : r.skip (some i) = some (i + v.count) := by
  have hcount := count_childrenOf v pos
  rw [h.skip_of hv.tree, hcount, if_pos hnext]

/-- What `find` says about the members from `i` on: the search among them. -/
def Finds (r : JsonReader) (object i : Nat) (ms : TreeMembers) : Prop :=
  ∀ key ∈ ms.keys, r.find (some object) key = (ms.written.members.find? key).map (i + ·)

theorem Finds.head {object : Nat} {key : Bytes} {value : JsonTree} {rest : TreeMembers}
    (hplain : PlainKey key) (h : Finds r object i (.cons key value rest)) :
    r.find (some object) key = some (i + 1) := by
  rw [h key List.mem_cons_self]
  simp only [TreeMembers.written, WrittenMembers.members, Members.find?, spelled_escapeStr,
    flatMap_escape_of_plain hplain, if_true]
  rfl

/-- Behind a member the search goes on, as its key is not one of the others. -/
theorem Finds.tail {object : Nat} {key : Bytes} {value : JsonTree} {rest : TreeMembers}
    (hplain : PlainKey key) (hfresh : key ∉ rest.keys)
    (h : Finds r object i (.cons key value rest)) :
    Finds r object (i + 1 + value.written.value.count) rest := by
  intro k hk
  have hne : ¬ spelled (escapeStr key) = k := by
    rw [spelled_escapeStr, flatMap_escape_of_plain hplain]
    rintro rfl
    exact hfresh hk
  rw [h k (List.mem_cons_of_mem _ hk)]
  simp only [TreeMembers.written, WrittenMembers.members, Members.find?, if_neg hne,
    Option.map_map]
  congr 1
  funext j
  simp only [Function.comp_apply]
  omega

mutual

/-- **Step lemma**, by the shape of the tree: a value that was written is decoded. -/
theorem decode_value (h : Lists r f) {cap : Nat} : ∀ (t : JsonTree)
    (member : Option (Nat × Bytes)) {i pos fuel : Nat},
    HasValue f r.json i pos t.written.value → t.Valid →
    t.longest < cap → t.nesting < fuel →
    (∀ object key, member = some (object, key) → r.find (some object) key = some i) →
    r.decodeValue cap fuel member i = some t
  | _, _, _, _, 0, _, _, _, hfuel, _ => absurd hfuel (Nat.not_lt_zero _)
  | .object ms, member, i, pos, fuel + 1, hv, ⟨hkeys, hvalid⟩, hcap, hfuel, _ => by
    have hmembers : HasMembers f r.json (i + 1) (pos + 1) true ms.written.members := hv.members
    have hfinds : Finds r i (i + 1) ms := fun key _ => h.find_object hv key
    have hwidth : r.childCount (some i) = ms.length :=
      (h.childCount_value hv).trans ms.length_written
    have hdecode := decode_members h ms hmembers hkeys hvalid hcap (Nat.lt_of_succ_lt_succ hfuel)
      hfinds
    rw [decodeValue]
    rw [h.isObject_value hv, hwidth]
    show Option.map _ (r.decodeMembers i _ ms.length (some (i + 1))) = _
    rw [hdecode]
    rfl
  | .array es, member, i, pos, fuel + 1, hv, hvalid, hcap, hfuel, _ => by
    have helements : HasElements f r.json (i + 1) (pos + 1) true es.written.elements := hv.elements
    have hstr : r.strAt (some i) cap = none := by
      rw [h.strAt_value hv, if_pos (.inl nofun)]
    have hint : r.intAt (some i) = none := by
      rw [h.intAt_value hv, if_pos (.inl nofun)]
    have hwidth : r.childCount (some i) = es.length :=
      (h.childCount_value hv).trans es.length_written
    have hdecode := decode_elements h es helements hvalid hcap (Nat.lt_of_succ_lt_succ hfuel)
    rw [decodeValue]
    rw [h.isObject_value hv, hstr, hint, h.rawText_value hv, hwidth]
    show Option.map _ (r.decodeElements _ es.length (some (i + 1))) = _
    rw [hdecode]
    rfl
  | .string s, member, i, pos, fuel + 1, hv, _, hcap, _, _ => by
    have hlen : s.length < cap := hcap
    have hstr : r.strAt (some i) cap = some s := by
      rw [h.strAt_value hv, if_neg (by rintro (hne | hlt); exacts [hne rfl, by omega])]
      exact unescape_escapeStr s (by omega)
    rw [decodeValue]
    rw [h.isObject_value hv, hstr]
    rfl
  | .int n, member, i, pos, fuel + 1, hv, hvalid, hcap, _, _ => by
    have hstr : r.strAt (some i) cap = none := by
      rw [h.strAt_value hv, if_pos (.inl nofun)]
    rw [decodeValue]
    rw [h.isObject_value hv, hstr, h.intAt_whole hvalid hv]
    rfl
  | .bool b, member, i, pos, fuel + 1, hv, _, hcap, _, hmember => by
    have hbool : HasValue f r.json i pos (Leaf.bool b).value := hv
    have hstr : r.strAt (some i) cap = none := by
      rw [h.strAt_value hv, if_pos (.inl (by cases b <;> nofun))]
    have hint : r.intAt (some i) = none := by
      cases b with
      | true => exact h.intAt_literal hbool
      | false => exact h.intAt_literal hbool
    have hdecode : r.decodeBool member (rawOf (Leaf.bool b).value) = some b := by
      unfold decodeBool
      match member, hmember with
      | none, _ => cases b <;> rfl
      | some (object, key), hmember => exact h.getBool_literal hbool (hmember object key rfl)
    have hobject : r.isObject (some i) = false := by
      rw [h.isObject_value hv]
      cases b <;> rfl
    rw [decodeValue]
    rw [hobject, hstr, hint, h.rawText_value hbool]
    show (if _ then _ else if _ then _ else (r.decodeBool member _).map _) = _
    rw [hdecode]
    cases b <;> rfl
  | .null, member, i, pos, fuel + 1, hv, _, hcap, _, _ => by
    have hstr : r.strAt (some i) cap = none := by
      rw [h.strAt_value hv, if_pos (.inl nofun)]
    rw [decodeValue]
    rw [h.isObject_value hv, hstr, h.intAt_literal hv, h.rawText_value hv]
    rfl

theorem decode_members (h : Lists r f) {cap : Nat} : ∀ (ms : TreeMembers) {object i pos fuel : Nat}
    {first : Bool}, HasMembers f r.json i pos first ms.written.members → ms.keys.Nodup → ms.Valid →
    ms.longest < cap → ms.nesting < fuel → Finds r object i ms →
    r.decodeMembers object (fun key => r.decodeValue cap fuel (some (object, key))) ms.length
      (some i) = some ms
  | .nil, _, _, _, _, _, _, _, _, _, _, _ => rfl
  | .cons key value rest, object, i, pos, fuel, first, hms, hkeys, ⟨hplain, hvalid, hrest⟩, hcap,
      hfuel, hfinds => by
    obtain ⟨hfresh, hkeys⟩ := List.nodup_cons.mp hkeys
    obtain ⟨⟨n, kids, htree, -⟩, htext⟩ := hms.headKey
    have hkey := rawText_key h hplain htree htext
    have hfind := hfinds.head hplain
    have hvalue := decode_value h value (some (object, key)) hms.headValue hvalid
      (lt_of_le_of_lt (le_max_left _ _) hcap) (lt_of_le_of_lt (le_max_left _ _) hfuel) (by
        rintro object' key' ⟨⟩
        exact hfind)
    have htail := decode_members h rest hms.tail hkeys hrest
      (lt_of_le_of_lt (le_max_right _ _) hcap) (lt_of_le_of_lt (le_max_right _ _) hfuel)
      (hfinds.tail hplain hfresh)
    have hmore : r.decodeMembers object (fun key => r.decodeValue cap fuel (some (object, key)))
        rest.length (r.skip (some (i + 1))) = some rest := by
      match rest, hms, htail with
      | .nil, _, _ => rfl
      | .cons _ _ _, hms, htail =>
        obtain ⟨⟨n, kids, hnext, -⟩, -⟩ := hms.tail.headKey
        rw [h.skip_value hms.headValue (lt_of_hasTree h hnext)]
        exact htail
    show (r.rawText (some i)).bind _ = _
    rw [hkey, Option.bind_some, hfind, Option.bind_some]
    show (r.decodeValue cap fuel (some (object, key)) (i + 1)).bind _ = _
    rw [hvalue, Option.bind_some, hmore]
    rfl

theorem decode_elements (h : Lists r f) {cap : Nat} : ∀ (es : TreeElements) {i pos fuel : Nat}
    {first : Bool}, HasElements f r.json i pos first es.written.elements → es.Valid →
    es.longest < cap → es.nesting < fuel →
    r.decodeElements (r.decodeValue cap fuel none) es.length (some i) = some es
  | .nil, _, _, _, _, _, _, _, _ => rfl
  | .cons value rest, i, pos, fuel, first, hes, ⟨hvalid, hrest⟩, hcap, hfuel => by
    have hvalue := decode_value h value none hes.headValue hvalid
      (lt_of_le_of_lt (le_max_left _ _) hcap) (lt_of_le_of_lt (le_max_left _ _) hfuel) nofun
    have htail := decode_elements h rest hes.tail hrest
      (lt_of_le_of_lt (le_max_right _ _) hcap) (lt_of_le_of_lt (le_max_right _ _) hfuel)
    have hmore : r.decodeElements (r.decodeValue cap fuel none) rest.length (r.skip (some i)) =
        some rest := by
      match rest, hes, htail with
      | .nil, _, _ => rfl
      | .cons _ _, hes, htail =>
        have hnext := hes.tail.headValue.tree
        rw [h.skip_value hes.headValue (lt_of_hasTree h hnext)]
        exact htail
    show (r.decodeValue cap fuel none i).bind _ = _
    rw [hvalue, Option.bind_some, hmore]
    rfl

end

/-- **Writing a tree and reading it back gives the same tree.** An object of valid trees with
no more than 31 containers nested, written into a buffer that its text fits, is accepted by a
reader with a token for each node, and the lookup functions recover it. -/
theorem round_trip {cap : Nat} (buf : Buf cap) (r : JsonReader) (ms : TreeMembers) (room : Nat)
    (hvalid : (JsonTree.object ms).Valid) (hnesting : (JsonTree.object ms).nesting ≤ maxDepth)
    (hfits : (JsonTree.object ms).written.value.bytes.length < cap)
    (htokens : (JsonTree.object ms).nodes ≤ r.maxTokens)
    (hroom : (JsonTree.object ms).longest < room) :
    let w := (JsonWriter.new buf).run ((JsonTree.object ms).written.calls none)
    w.ok = true ∧ (r.parse w.text).1 = .ok ∧
      (r.parse w.text).2.decode room = some (.object ms) := by
  intro w
  obtain ⟨hok, htext, -⟩ :=
    JsonWriter.reset_run_written ⟨buf, 0, id, false, 0, 0⟩ (JsonTree.object ms).written (by omega)
  have hok : w.ok = true := hok.mpr ⟨hfits, by rwa [JsonTree.nesting_written]⟩
  let d : Document := ⟨.none, ms.written.members, .none⟩
  have hbytes : w.text = d.bytes := by
    refine (htext hok).trans ?_
    simp [d, Document.bytes, Document.root, Ws.none, JsonTree.written, Written.value]
  have hcount : d.count = (JsonTree.object ms).nodes := JsonTree.count_written (.object ms)
  obtain ⟨hparse, hlists, hjson⟩ := parse_document_lists (r := r) (d := d) (by omega)
  rw [hbytes]
  refine ⟨hok, hparse, ?_⟩
  have hroot : HasValue (documentForest d) (r.parse d.bytes).2.json 0 0
      (JsonTree.object ms).written.value := by
    rw [hjson]
    exact Document.hasRoot d
  have hfuel : (JsonTree.object ms).nesting < (r.parse d.bytes).2.count + 1 := by
    have hle := JsonTree.nesting_le_nodes (.object ms)
    rw [hlists.count, count_documentForest, hcount]
    omega
  exact decode_value hlists (.object ms) none hroot hvalid hroom hfuel nofun

/-- A tree with a quote and a line end in a string, and a literal in an array. -/
theorem round_trip_sample :
    let tree := TreeMembers.cons (ascii "a") (.array (.cons (.int (-7)) (.cons .null .nil)))
      (.cons (ascii "b") (.string [34, 10, 0, 255]) (.cons (ascii "c") (.bool true) .nil))
    let w := (JsonWriter.new (.zero 64)).run ((JsonTree.object tree).written.calls none)
    ((new 9).parse w.text).2.decode 8 = some (.object tree) := by
  refine (round_trip (.zero 64) (new 9) _ 8 ?_ (by decide) (by decide) (by decide) (by decide)).2.2
  simp [JsonTree.Valid, TreeMembers.Valid, TreeElements.Valid, TreeMembers.keys, PlainKey, ascii,
    int64Min, int64Max]

end JsonReader

end SoulCloud
