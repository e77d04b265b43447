import SoulCloud.Json.Accepted
import SoulCloud.Lib.JsonSyntax

/-!
# Well-formed documents

What the tokenizer makes of a JSON text, by induction on its syntax tree. Reading a value
grafts one tree onto the tree under construction, however deep the value is; the focus may
stay below a key until the next comma, which is what `Under` allows for.

- `feed`: reading a text from some place on.
- `nodeOf`, `childrenOf`: the tree of a value that starts at a given place.
- `feed_value`: **reading a value grafts its tree**.
- `built_document`: a document builds the tree of its root.
-/

namespace SoulCloud

open Forest Json

/-! ## Reading terminals -/

/-- The tree after the rest `js` of a text, which starts at `pos`. -/
def feed (js : Bytes) (pos : Nat) (z : TokenTree) : Option TokenTree := (lex js pos 0).bind z.run

theorem feed_nil (pos : Nat) (z : TokenTree) : feed [] pos z = some z := rfl

theorem lex_skip (xs rest : Bytes) (pos : Nat) :
    lex (xs ++ rest) pos xs.length = lex rest (pos + xs.length) 0 := by
  induction xs generalizing pos with
  | nil => rfl
  | cons x xs ih =>
    show lex (xs ++ rest) (pos + 1) xs.length = _
    rw [ih, List.length_cons]
    congr 1
    omega

theorem lex_of_step {c : UInt8} {rest : Bytes} {pos skip : Nat} {l : Option Lexeme} (h0 : c ≠ 0)
    (h : lexStep c rest pos = some (l, skip)) :
    lex (c :: rest) pos 0 = (lex rest (pos + 1) skip).map (l.toList ++ ·) := by
  rw [lex, if_neg h0, h]

/-- Reading a byte of white space. -/
theorem feed_of_space {c : UInt8} (h : jsmnCase c = .space) (h0 : c ≠ 0) (rest : Bytes) (pos : Nat)
    (z : TokenTree) : feed (c :: rest) pos z = feed rest (pos + 1) z := by
  have hstep : lexStep c rest pos = some (none, 0) := by
    rw [lexStep]
    rw [h]
  unfold feed
  rw [lex_of_step h0 hstep]
  cases lex rest (pos + 1) 0 <;> rfl

/-- Reading a lexeme: `c` and then `xs`. -/
theorem feed_of_lexeme {c : UInt8} {xs rest : Bytes} {pos : Nat} {l : Lexeme}
    (h : lexStep c (xs ++ rest) pos = some (some l, xs.length)) (h0 : c ≠ 0) (z : TokenTree) :
    feed (c :: (xs ++ rest)) pos z =
      (z.act l).bind (feed rest (pos + (c :: xs).length)) := by
  unfold feed
  rw [lex_of_step h0 h, lex_skip, List.length_cons,
    show pos + 1 + xs.length = pos + (xs.length + 1) by omega]
  cases lex rest (pos + (xs.length + 1)) 0 with
  | none => cases z.act l <;> rfl
  | some ls => rfl

/-- Reading a lexeme of one byte. -/
theorem feed_of_byte {c : UInt8} {rest : Bytes} {pos : Nat} {l : Lexeme}
    (h : lexStep c rest pos = some (some l, 0)) (h0 : c ≠ 0) (z : TokenTree) :
    feed (c :: rest) pos z = (z.act l).bind (feed rest (pos + 1)) :=
  @feed_of_lexeme c [] rest pos l h h0 z

theorem feed_ws (ws : Ws) (rest : Bytes) (pos : Nat) (z : TokenTree) :
    feed (ws.bytes ++ rest) pos z = feed rest (pos + ws.bytes.length) z := by
  obtain ⟨bs, hspace⟩ := ws
  dsimp only
  induction bs generalizing pos with
  | nil => rfl
  | cons c bs ih =>
    have hc := hspace c List.mem_cons_self
    have hcase : jsmnCase c = .space ∧ c ≠ 0 := by
      rcases hc with rfl | rfl | rfl | rfl <;> decide
    rw [List.cons_append, feed_of_space hcase.1 hcase.2,
      ih _ fun x hx => hspace x (List.mem_cons_of_mem c hx), List.length_cons]
    congr 1
    omega

theorem isHexDigit_of_isHex {c : UInt8} (h : IsHex c) : isHexDigit c = true ∧ c ≠ 0 := by
  rw [isHexDigit]
  rcases h with h | h | h <;> simp [h] <;> rintro rfl <;> simp at h

/-- The scan over a string stops at the closing quote. -/
theorem scanString_spelled (s : Str) (rest : Bytes) (n : Nat) :
    scanString .plain (spelled s ++ 34 :: rest) n = .ok (n + (spelled s).length) := by
  induction s generalizing n with
  | nil => rfl
  | cons ch s ih =>
    have hcons : spelled (ch :: s) = ch.bytes ++ spelled s := rfl
    rw [hcons, List.append_assoc, List.length_append]
    cases ch with
    | plain c h =>
      obtain ⟨hlow, hquote, hback⟩ := h
      have h0 : c ≠ 0 := by
        rintro rfl
        exact absurd hlow (by decide)
      show scanString .plain (c :: (spelled s ++ 34 :: rest)) n = _
      rw [scanString_plain h0 hquote hback, ih]
      simp only [StrChar.bytes, List.length_singleton]
      congr 1
      omega
    | escape c h =>
      have hmem : c ∈ simpleEscapes := by
        revert h
        simp only [simpleEscapes, List.mem_cons]
        tauto
      show scanString .plain (92 :: c :: (spelled s ++ 34 :: rest)) n = _
      rw [scanString_backslash, scanString_simple hmem, ih]
      simp only [StrChar.bytes, List.length_cons, List.length_nil]
      congr 1
      omega
    | unicode a b c d h =>
      obtain ⟨ha, hb, hc, hd⟩ := h
      show scanString .plain (92 :: 117 :: a :: b :: c :: d :: (spelled s ++ 34 :: rest)) n = _
      rw [scanString_backslash, scanString_unicode]
      -- The four digits.
      rw [scanString_digit (isHexDigit_of_isHex ha), scanString_digit (isHexDigit_of_isHex hb),
        scanString_digit (isHexDigit_of_isHex hc), scanString_lastDigit (isHexDigit_of_isHex hd),
        ih]
      simp only [StrChar.bytes, List.length_cons, List.length_nil]
      congr 1
      omega

/-- The node of a string whose opening quote is at `pos`. -/
def strNode (s : Str) (pos : Nat) : JsonNode :=
  ⟨.string, (pos + 1 : Nat), (pos + 1 + (spelled s).length : Nat)⟩

theorem feed_quoted (s : Str) (rest : Bytes) (pos : Nat) (z : TokenTree) :
    feed (quoted s ++ rest) pos z =
      feed rest (pos + (quoted s).length) (z.leaf (strNode s pos)) := by
  have hstep : lexStep 34 ((spelled s ++ [34]) ++ rest) pos =
      some (some (.string (pos + 1) (pos + 1 + (spelled s).length)),
        (spelled s ++ [34]).length) := by
    have hscan := scanString_spelled s rest 0
    rw [lexStep]
    rw [show jsmnCase 34 = .quote by decide, List.append_assoc, List.singleton_append]
    dsimp only
    rw [hscan]
    simp
  rw [quoted]
  rw [List.cons_append, feed_of_lexeme hstep (by decide)]
  rfl

/-- The rest of a text that a primitive may stand before. -/
def Delimited (rest : Bytes) : Prop := ∃ c tail, rest = c :: tail ∧ endsPrimitive c = true ∧ c ≠ 0

/-- A text that the tokenizer takes as one primitive. -/
def IsPrimitive (p : Bytes) : Prop :=
  (∃ c ∈ p.head?, jsmnCase c = .primitive) ∧
    ∀ c ∈ p, c ≠ 0 ∧ endsPrimitive c = false ∧ 32 ≤ c ∧ c < 127

theorem scanPrimitive_append {p rest : Bytes} (hp : ∀ c ∈ p, c ≠ 0 ∧ endsPrimitive c = false ∧
    32 ≤ c ∧ c < 127) (hrest : Delimited rest) (n : Nat) :
    scanPrimitive (p ++ rest) n = .ok (n + p.length) := by
  induction p generalizing n with
  | nil =>
    obtain ⟨c, tail, rfl, hends, h0⟩ := hrest
    show scanPrimitive (c :: tail) n = _
    rw [scanPrimitive]
    rw [if_neg h0, if_pos hends]
    rfl
  | cons c p ih =>
    obtain ⟨h0, hends, hlow, hhigh⟩ := hp c List.mem_cons_self
    have hno : ¬ (c < 32 ∨ 127 ≤ c) := by
      rw [not_or, UInt8.not_lt, UInt8.not_le]
      exact ⟨hlow, hhigh⟩
    rw [List.cons_append]
    rw [scanPrimitive]
    rw [if_neg h0, hends, if_neg Bool.false_ne_true, if_neg hno,
      ih (fun x hx => hp x (List.mem_cons_of_mem c hx)), List.length_cons]
    congr 1
    omega

/-- The node of a primitive that starts at `pos`. -/
def primitiveNode (p : Bytes) (pos : Nat) : JsonNode :=
  ⟨.primitive, (pos : Nat), (pos + p.length : Nat)⟩

theorem feed_primitive {p rest : Bytes} (hp : IsPrimitive p) (hrest : Delimited rest) (pos : Nat)
    {z : TokenTree} (hz : z.refusesPrimitive = false) :
    feed (p ++ rest) pos z = feed rest (pos + p.length) (z.leaf (primitiveNode p pos)) := by
  obtain ⟨⟨c, hc, hcase⟩, hall⟩ := hp
  cases p with
  | nil => cases hc
  | cons d xs =>
    obtain rfl : d = c := by simpa using hc
    have hscan := scanPrimitive_append hall hrest 0
    have hstep : lexStep d (xs ++ rest) pos =
        some (some (.primitive pos (pos + (d :: xs).length)), xs.length) := by
      rw [lexStep]
      rw [hcase]
      dsimp only
      rw [← List.cons_append, hscan]
      simp
    rw [List.cons_append, feed_of_lexeme hstep (hall d List.mem_cons_self).1]
    simp only [TokenTree.act]
    rw [hz, if_neg Bool.false_ne_true]
    rfl

/-- The bytes a number is made of. -/
theorem number_byte {n : Number} {c : UInt8} (h : c ∈ n.bytes) :
    IsDigit c ∨ c = 45 ∨ c = 46 ∨ c = 43 ∨ c = 101 ∨ c = 69 := by
  rw [Number.bytes, Number.fracBytes, Number.expBytes] at h
  simp only [List.mem_append] at h
  rcases h with ((h | h) | h) | h
  · split_ifs at h
    · exact .inr (.inl (List.mem_singleton.mp h))
    · cases h
  · rcases n.int_ok with hint | ⟨d, ds, hint, hd, hds⟩
    · rw [hint, List.mem_singleton] at h
      subst h
      exact .inl ⟨by decide, by decide⟩
    · rw [hint, List.mem_cons] at h
      rcases h with rfl | h
      · exact .inl ⟨UInt8.le_trans (by decide) hd.1, hd.2⟩
      · exact .inl (hds c h)
  · cases hfrac : n.frac with
    | none =>
      rw [hfrac] at h
      cases h
    | some ds =>
      rw [hfrac] at h
      rcases List.mem_cons.mp h with rfl | h
      · exact .inr (.inr (.inl rfl))
      · exact .inl ((n.frac_ok ds hfrac).2 c h)
  · cases hexp : n.exponent with
    | none =>
      rw [hexp] at h
      cases h
    | some e =>
      rw [hexp] at h
      rcases List.mem_cons.mp h with rfl | h
      · rcases e.letter_e with he | he
        · exact .inr (.inr (.inr (.inr (.inl he))))
        · exact .inr (.inr (.inr (.inr (.inr he))))
      · rcases List.mem_append.mp h with h | h
        · rcases e.sign_ok with hs | hs | hs <;> rw [hs] at h
          · cases h
          · exact .inr (.inr (.inr (.inl (List.mem_singleton.mp h))))
          · exact .inr (.inl (List.mem_singleton.mp h))
        · exact .inl (e.digits_ok.2 c h)

theorem isDigit_cases {c : UInt8} (h : IsDigit c) :
    c = 48 ∨ c = 49 ∨ c = 50 ∨ c = 51 ∨ c = 52 ∨ c = 53 ∨ c = 54 ∨ c = 55 ∨ c = 56 ∨ c = 57 := by
  obtain ⟨hlow, hhigh⟩ := h
  rw [UInt8.le_iff_toNat_le] at hlow hhigh
  simp only [← UInt8.toNat_inj]
  simp only [UInt8.toNat_ofNat] at hlow hhigh ⊢
  omega

theorem isPrimitive_number (n : Number) : IsPrimitive n.bytes := by
  constructor
  · -- The first byte is the sign or the first digit.
    have hfirst : ∃ c ∈ n.bytes.head?, c = 45 ∨ IsDigit c := by
      rw [Number.bytes]
      cases n.minus with
      | true => exact ⟨45, rfl, .inl rfl⟩
      | false =>
        rcases n.int_ok with hint | ⟨d, ds, hint, hd, hds⟩
        · rw [hint]
          exact ⟨48, rfl, .inr ⟨by decide, by decide⟩⟩
        · rw [hint]
          exact ⟨d, rfl, .inr ⟨UInt8.le_trans (by decide) hd.1, hd.2⟩⟩
    obtain ⟨c, hc, hcase⟩ := hfirst
    refine ⟨c, hc, ?_⟩
    rcases hcase with rfl | h
    · decide
    · rcases isDigit_cases h with rfl | rfl | rfl | rfl | rfl | rfl | rfl | rfl | rfl | rfl <;>
        decide
  · intro c hc
    rcases number_byte hc with h | rfl | rfl | rfl | rfl | rfl
    · rcases isDigit_cases h with rfl | rfl | rfl | rfl | rfl | rfl | rfl | rfl | rfl | rfl <;>
        decide
    all_goals decide

theorem isPrimitive_literal (l : Literal) : IsPrimitive l.bytes := by
  have hbytes : (l.bytes.all fun c =>
      decide (c ≠ 0 ∧ endsPrimitive c = false ∧ 32 ≤ c ∧ c < 127)) = true := by
    cases l <;> decide
  refine ⟨?_, fun c hc => of_decide_eq_true (List.all_eq_true.mp hbytes c hc)⟩
  cases l <;> exact ⟨_, rfl, by decide⟩

/-! ## The tree of a value -/

/-- The node of a value that starts at `pos`. -/
def nodeOf (v : Value) (pos : Nat) : JsonNode :=
  match v with
  | .object _ => ⟨.object, (pos : Nat), (pos + v.bytes.length : Nat)⟩
  | .array _ => ⟨.array, (pos : Nat), (pos + v.bytes.length : Nat)⟩
  | .string s => strNode s pos
  | .number n => primitiveNode n.bytes pos
  | .literal l => primitiveNode l.bytes pos

mutual

/-- The trees below the node of a value that starts at `pos`. -/
def childrenOf : Value → Nat → Forest JsonNode
  | .object members, pos => membersInto members .nil true (pos + 1)
  | .array elements, pos => elementsInto elements .nil true (pos + 1)
  | .string _, _ | .number _, _ | .literal _, _ => .nil

/-- The trees of members, added to those of the members before them. -/
def membersInto : Members → Forest JsonNode → Bool → Nat → Forest JsonNode
  | .nil _, f, _, _ => f
  | .cons lead key beforeColon afterColon value trail rest, f, first, pos =>
    let keyPos := keyPos first pos lead
    let valuePos := valuePos keyPos key beforeColon afterColon
    membersInto rest
      (snoc f (strNode key keyPos) (snoc nil (nodeOf value valuePos) (childrenOf value valuePos)))
      false (nextPos valuePos value trail)

def elementsInto : Elements → Forest JsonNode → Bool → Nat → Forest JsonNode
  | .nil _, f, _, _ => f
  | .cons lead value trail rest, f, first, pos =>
    let valuePos := keyPos first pos lead
    elementsInto rest (snoc f (nodeOf value valuePos) (childrenOf value valuePos))
      false (nextPos valuePos value trail)

end

/-! ## Reading values -/

theorem feed_opening (c : Container) {b : UInt8} (hb : jsmnCase b = .opening c) (h0 : b ≠ 0)
    (rest : Bytes) (pos : Nat) {z : TokenTree} (hz : z.refusesPrimitive = false) :
    feed (b :: rest) pos z = feed rest (pos + 1) (z.push ⟨c.type, (pos : Nat), -1⟩) := by
  have hstep : lexStep b rest pos = some (some (.opening c pos), 0) := by
    rw [lexStep]
    rw [hb]
  have hlabel : (z.label.any fun n => n.type == .object) = false := by
    rw [TokenTree.refusesPrimitive] at hz
    cases hl : z.label with
    | none => rfl
    | some n =>
      rw [hl, Option.any_some, Bool.or_eq_false_iff] at hz
      exact hz.1
  rw [feed_of_byte hstep h0]
  simp only [TokenTree.act]
  rw [hlabel]
  rfl

theorem feed_closing (c : Container) {b : UInt8} (hb : jsmnCase b = .closing c) (h0 : b ≠ 0)
    (rest : Bytes) (pos : Nat) (z : TokenTree) :
    feed (b :: rest) pos z = (z.close c.type pos).bind (feed rest (pos + 1)) := by
  have hstep : lexStep b rest pos = some (some (.closing c pos), 0) := by
    rw [lexStep]
    rw [hb]
  exact feed_of_byte hstep h0 z

theorem feed_colon (rest : Bytes) (pos : Nat) (z : TokenTree) :
    feed (58 :: rest) pos z = feed rest (pos + 1) z.last := by
  have hstep : lexStep 58 rest pos = some (some .colon, 0) := rfl
  exact feed_of_byte hstep (by decide) z

theorem feed_comma (rest : Bytes) (pos : Nat) (z : TokenTree) :
    feed (44 :: rest) pos z = feed rest (pos + 1) z.comma := by
  have hstep : lexStep 44 rest pos = some (some .comma, 0) := rfl
  exact feed_of_byte hstep (by decide) z

/-- The focus is the container of `z₀`, or still below one of its keys. -/
def Under (z z₀ : TokenTree) : Prop :=
  z = z₀ ∨ (z.label.any (fun n => !n.isContainer) = true ∧ z.rise JsonNode.isOpen = z₀)

/-- A comma takes the focus back to the container. -/
theorem Under.comma {z : TokenTree} {left : Forest JsonNode} {n : JsonNode}
    {path : List (Forest JsonNode × JsonNode)} {f : Forest JsonNode} (hn : n.isContainer = true)
    (h : Under z ⟨(left, n) :: path, f⟩) : z.comma = ⟨(left, n) :: path, f⟩ := by
  rw [TokenTree.comma]
  rcases h with rfl | ⟨hlabel, hrise⟩
  · have hlabel : (Zipper.label ⟨(left, n) :: path, f⟩).any (fun n => !n.isContainer) = false := by
      show (!n.isContainer) = false
      rw [hn]
      rfl
    rw [hlabel]
    rfl
  · rw [if_pos hlabel, hrise]
    rfl

theorem Under.rise {z : TokenTree} {left : Forest JsonNode} {n : JsonNode}
    {path : List (Forest JsonNode × JsonNode)} {f : Forest JsonNode} (hn : n.isOpen = true)
    (h : Under z ⟨(left, n) :: path, f⟩) :
    z.rise JsonNode.isOpen = ⟨(left, n) :: path, f⟩ := by
  rcases h with rfl | ⟨-, hrise⟩
  · exact Zipper.rise_of_pos hn path f
  · exact hrise

/-- A closing bracket closes the container and leaves the focus at the open node around it. -/
theorem Under.close {z : TokenTree} {left : Forest JsonNode} {n : JsonNode}
    {path : List (Forest JsonNode × JsonNode)} {f : Forest JsonNode} (hn : n.isOpen = true)
    (h : Under z ⟨(left, n) :: path, f⟩) (pos : Nat) :
    z.close n.type pos =
      some ((Zipper.graft ⟨path, left⟩ { n with stop := pos + 1 } f).rise JsonNode.isOpen) := by
  rw [TokenTree.close]
  rw [h.rise hn]
  dsimp only
  rw [if_neg (not_not.mpr rfl), Zipper.rise_of_neg TokenTree.isOpen_closed]
  rfl

theorem isOpen_opening (c : Container) (pos : Nat) :
    (⟨c.type, (pos : Nat), -1⟩ : JsonNode).isOpen = true := by
  have hne : ((pos : Int) != -1) = true := by
    rw [bne_iff_ne]
    omega
  simp [JsonNode.isOpen, hne]

theorem Delimited.ws {rest : Bytes} (h : Delimited rest) (ws : Ws) :
    Delimited (ws.bytes ++ rest) := by
  obtain ⟨bs, hspace⟩ := ws
  cases bs with
  | nil => exact h
  | cons c bs =>
    refine ⟨c, bs ++ rest, rfl, ?_⟩
    rcases hspace c List.mem_cons_self with rfl | rfl | rfl | rfl <;> decide

theorem Delimited.members {rest : Bytes} (h : Delimited rest) (ms : Members) :
    Delimited (ms.bytes false ++ rest) := by
  cases ms with
  | nil ws => exact h.ws ws
  | cons => exact ⟨44, _, rfl, by decide⟩

theorem Delimited.elements {rest : Bytes} (h : Delimited rest) (es : Elements) :
    Delimited (es.bytes false ++ rest) := by
  cases es with
  | nil ws => exact h.ws ws
  | cons => exact ⟨44, _, rfl, by decide⟩

theorem feed_separator {z : TokenTree} {left : Forest JsonNode} {n : JsonNode}
    {path : List (Forest JsonNode × JsonNode)} {f : Forest JsonNode} (hn : n.isContainer = true)
    (h : Under z ⟨(left, n) :: path, f⟩) {first : Bool}
    (hfirst : first = true → z = ⟨(left, n) :: path, f⟩) (rest : Bytes) (pos : Nat) :
    feed (separator first ++ rest) pos z =
      feed rest (pos + (separator first).length) ⟨(left, n) :: path, f⟩ := by
  cases first with
  | true =>
    rw [hfirst rfl]
    rfl
  | false =>
    show feed (44 :: rest) pos z = _
    rw [feed_comma, h.comma hn]
    rfl

theorem refusesPrimitive_of_array {left : Forest JsonNode} {n : JsonNode} (hn : n.type = .array)
    (path : List (Forest JsonNode × JsonNode)) (f : Forest JsonNode) :
    TokenTree.refusesPrimitive ⟨(left, n) :: path, f⟩ = false := by
  show (n.type == .object || (n.type == .string && f.width != 0)) = false
  rw [hn]
  rfl

theorem refusesPrimitive_of_key (left : Forest JsonNode) (key : Str) (pos : Nat)
    (path : List (Forest JsonNode × JsonNode)) :
    TokenTree.refusesPrimitive ⟨(left, strNode key pos) :: path, nil⟩ = false :=
  rfl

/-- After a value the focus is where it was, or at the nearest open node. -/
def After (z : TokenTree) (n : JsonNode) (children : Forest JsonNode) (z' : TokenTree) : Prop :=
  z' = z.graft n children ∨ z' = (z.graft n children).rise JsonNode.isOpen

/-- A value below a key, seen from the object around it. -/
theorem After.under {left : Forest JsonNode} {n : JsonNode}
    {path : List (Forest JsonNode × JsonNode)} {f : Forest JsonNode} {key : Str} {pos : Nat}
    (hn : n.isOpen = true) {v : JsonNode} {children : Forest JsonNode} {z' : TokenTree}
    (h : After ⟨(f, strNode key pos) :: (left, n) :: path, nil⟩ v children z') :
    Under z' ⟨(left, n) :: path, snoc f (strNode key pos) (snoc nil v children)⟩ := by
  have hkey : (strNode key pos).isOpen = false := TokenTree.isOpen_leaf
  have hrise : (Zipper.graft ⟨(f, strNode key pos) :: (left, n) :: path, nil⟩ v children).rise
      JsonNode.isOpen = ⟨(left, n) :: path, snoc f (strNode key pos) (snoc nil v children)⟩ := by
    rw [Zipper.graft, Zipper.rise_of_neg hkey, Zipper.rise_of_pos hn]
  rcases h with rfl | rfl
  · exact .inr ⟨rfl, hrise⟩
  · exact .inl hrise

/-- A value in an array leaves the focus at the array. -/
theorem After.element {left : Forest JsonNode} {n : JsonNode}
    {path : List (Forest JsonNode × JsonNode)} {f : Forest JsonNode} (hn : n.isOpen = true)
    {v : JsonNode} {children : Forest JsonNode} {z' : TokenTree}
    (h : After ⟨(left, n) :: path, f⟩ v children z') :
    z' = ⟨(left, n) :: path, snoc f v children⟩ := by
  rcases h with rfl | rfl
  · rfl
  · exact Zipper.rise_of_pos hn path _

/-- Reading a container whose inside leaves `children` under its node. -/
theorem feed_container (c : Container) {op cl : UInt8} (hop : jsmnCase op = .opening c)
    (hcl : jsmnCase cl = .closing c) (hne : op ≠ 0 ∧ cl ≠ 0) {inside rest : Bytes} {pos : Nat}
    {z z' : TokenTree} {children : Forest JsonNode} (hz : z.refusesPrimitive = false)
    (hfeed : feed (inside ++ cl :: rest) (pos + 1) (z.push ⟨c.type, (pos : Nat), -1⟩) =
      feed (cl :: rest) (pos + 1 + inside.length) z')
    (hunder : Under z' ⟨(z.current, ⟨c.type, (pos : Nat), -1⟩) :: z.path, children⟩) :
    feed (op :: (inside ++ [cl]) ++ rest) pos z =
      feed rest (pos + (op :: (inside ++ [cl])).length)
        ((z.graft ⟨c.type, (pos : Nat), (pos + (op :: (inside ++ [cl])).length : Nat)⟩
          children).rise JsonNode.isOpen) := by
  have hbytes : op :: (inside ++ [cl]) ++ rest = op :: (inside ++ cl :: rest) := by simp
  have hlen : pos + (op :: (inside ++ [cl])).length = pos + 1 + inside.length + 1 := by
    simp only [List.length_cons, List.length_append, List.length_nil]
    omega
  rw [hbytes, hlen, feed_opening c hop hne.1 _ _ hz, hfeed, feed_closing c hcl hne.2]
  show (z'.close c.type _).bind _ = _
  have hclose := hunder.close (isOpen_opening c pos) (pos + 1 + inside.length)
  rw [hclose, Option.bind_some]
  rfl

/-- A string, number or literal is grafted as a leaf. -/
theorem After.leaf (z : TokenTree) (n : JsonNode) : After z n nil (z.leaf n) := .inl rfl

mutual

/-- **Reading a value grafts its tree.** -/
theorem feed_value : ∀ (v : Value) (rest : Bytes) (pos : Nat) (z : TokenTree),
    z.refusesPrimitive = false → Delimited rest →
    ∃ z', feed (v.bytes ++ rest) pos z = feed rest (pos + v.bytes.length) z' ∧
      After z (nodeOf v pos) (childrenOf v pos) z'
  | .object members, rest, pos, z, hz, _ => by
    obtain ⟨z', hfeed, hunder⟩ := feed_members members true (125 :: rest) (pos + 1)
      (z.push ⟨.object, (pos : Nat), -1⟩) z.current ⟨.object, (pos : Nat), -1⟩ z.path nil
      (isOpen_opening .object pos) rfl (.inl rfl) (fun _ => rfl) ⟨125, rest, rfl, by decide⟩
    exact ⟨_, feed_container .object (by decide) (by decide) (by decide) hz hfeed hunder, .inr rfl⟩
  | .array elements, rest, pos, z, hz, _ => by
    have hfeed := feed_elements elements true (93 :: rest) (pos + 1) z.current
      ⟨.array, (pos : Nat), -1⟩ z.path nil (isOpen_opening .array pos) rfl
      ⟨93, rest, rfl, by decide⟩
    exact ⟨_, feed_container .array (by decide) (by decide) (by decide) hz hfeed (.inl rfl),
      .inr rfl⟩
  | .string s, rest, pos, z, _, _ => ⟨_, feed_quoted s rest pos z, .leaf z _⟩
  | .number n, rest, pos, z, hz, hrest =>
    ⟨_, feed_primitive (isPrimitive_number n) hrest pos hz, .leaf z _⟩
  | .literal l, rest, pos, z, hz, hrest =>
    ⟨_, feed_primitive (isPrimitive_literal l) hrest pos hz, .leaf z _⟩

/-- Reading the members of an object that is open. -/
theorem feed_members : ∀ (ms : Members) (first : Bool) (rest : Bytes) (pos : Nat) (z : TokenTree)
    (left : Forest JsonNode) (n : JsonNode) (path : List (Forest JsonNode × JsonNode))
    (f : Forest JsonNode), n.isOpen = true → n.isContainer = true →
    Under z ⟨(left, n) :: path, f⟩ → (first = true → z = ⟨(left, n) :: path, f⟩) →
    Delimited rest →
    ∃ z', feed (ms.bytes first ++ rest) pos z = feed rest (pos + (ms.bytes first).length) z' ∧
      Under z' ⟨(left, n) :: path, membersInto ms f first pos⟩
  | .nil ws, _, rest, pos, z, _, _, _, _, _, _, hz, _, _ => ⟨z, feed_ws ws rest pos z, hz⟩
  | .cons lead key beforeColon afterColon value trail tail, first, rest, pos, z, left, n, path, f,
      hopen, hcontainer, hz, hfirst, hrest => by
    have hdelim : Delimited (trail.bytes ++ (tail.bytes false ++ rest)) :=
      (hrest.members tail).ws trail
    obtain ⟨z₁, hvalue, hafter⟩ := feed_value value (trail.bytes ++ (tail.bytes false ++ rest))
      (valuePos (keyPos first pos lead) key beforeColon afterColon)
      ⟨(f, strNode key (keyPos first pos lead)) :: (left, n) :: path, nil⟩
      (refusesPrimitive_of_key _ _ _ _) hdelim
    obtain ⟨z₂, htail, hunder⟩ := feed_members tail false rest
      (nextPos (valuePos (keyPos first pos lead) key beforeColon afterColon) value trail)
      z₁ left n path _ hopen hcontainer (hafter.under hopen) nofun hrest
    refine ⟨z₂, ?_, hunder⟩
    have hbytes : (Members.cons lead key beforeColon afterColon value trail tail).bytes first ++
        rest = separator first ++ (lead.bytes ++ (quoted key ++ (beforeColon.bytes ++
          (58 :: (afterColon.bytes ++ (value.bytes ++ (trail.bytes ++
            (tail.bytes false ++ rest)))))))) := by
      simp [Members.bytes]
    have hlen : pos + ((Members.cons lead key beforeColon afterColon value trail tail).bytes
        first).length = nextPos (valuePos (keyPos first pos lead) key beforeColon afterColon)
          value trail + (tail.bytes false).length := by
      simp [Members.bytes, nextPos, valuePos, keyPos]
      omega
    rw [hbytes, hlen, feed_separator hcontainer hz hfirst, feed_ws, feed_quoted, feed_ws,
      feed_colon, feed_ws]
    -- The colon moves the focus from the object to the key.
    show feed _ (valuePos (keyPos first pos lead) key beforeColon afterColon)
      ⟨(f, strNode key (keyPos first pos lead)) :: (left, n) :: path, nil⟩ = _
    rw [hvalue, feed_ws]
    exact htail

/-- Reading the elements of an array that is open. -/
theorem feed_elements : ∀ (es : Elements) (first : Bool) (rest : Bytes) (pos : Nat)
    (left : Forest JsonNode) (n : JsonNode) (path : List (Forest JsonNode × JsonNode))
    (f : Forest JsonNode), n.isOpen = true → n.type = .array → Delimited rest →
    feed (es.bytes first ++ rest) pos ⟨(left, n) :: path, f⟩ =
      feed rest (pos + (es.bytes first).length) ⟨(left, n) :: path, elementsInto es f first pos⟩
  | .nil ws, _, rest, pos, _, _, _, _, _, _, _ => feed_ws ws rest pos _
  | .cons lead value trail tail, first, rest, pos, left, n, path, f, hopen, harray, hrest => by
    have hcontainer : n.isContainer = true := by
      simp [JsonNode.isContainer, harray]
    have hdelim : Delimited (trail.bytes ++ (tail.bytes false ++ rest)) :=
      (hrest.elements tail).ws trail
    obtain ⟨z₁, hvalue, hafter⟩ := feed_value value (trail.bytes ++ (tail.bytes false ++ rest))
      (keyPos first pos lead) ⟨(left, n) :: path, f⟩ (refusesPrimitive_of_array harray path f)
      hdelim
    have htail := feed_elements tail false rest (nextPos (keyPos first pos lead) value trail)
      left n path (snoc f (nodeOf value (keyPos first pos lead))
        (childrenOf value (keyPos first pos lead))) hopen harray hrest
    have hbytes : (Elements.cons lead value trail tail).bytes first ++ rest =
        separator first ++ (lead.bytes ++ (value.bytes ++ (trail.bytes ++
          (tail.bytes false ++ rest)))) := by
      simp [Elements.bytes]
    have hlen : pos + ((Elements.cons lead value trail tail).bytes first).length =
        nextPos (keyPos first pos lead) value trail + (tail.bytes false).length := by
      simp [Elements.bytes, nextPos, keyPos]
      omega
    rw [hbytes, hlen, feed_separator hcontainer (.inl rfl) (fun _ => rfl), feed_ws]
    show feed _ (keyPos first pos lead) _ = _
    rw [hvalue, hafter.element hopen, feed_ws]
    exact htail

end

end SoulCloud
