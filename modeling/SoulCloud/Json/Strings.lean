import SoulCloud.Json.Accepted
import SoulCloud.Json.Document

/-!
# What strings stand for

`str_at` decodes a string into a buffer that may be too small for it. `Spells` is what the
text of a string stands for, whatever the buffer.

- `Spells`: the decoded value of the text of a string, character by character.
- `unescape_eq_some_iff`: `str_at` succeeds when the value fits.
- `emitted`: what `str_at` has written by the time it returns; `emitted_of_spells`: the
  beginning of the value.
- `Decodes`: what JSON means by the text of a string; `Decodes.spells`: it is that value.
- `parse_decodes`: every string of an accepted text means something, so that nothing but the
  buffer can stop `str_at`.
- `parse_scanned`: the text of a token is what the tokenizer scanned for it.
-/

namespace SoulCloud

open Bytes Forest Json

namespace JsonReader

/-- The code that four hexadecimal digits stand for. -/
def hexCode (a b c d : Nat) : Nat := ((a <<< 4 ||| b) <<< 4 ||| c) <<< 4 ||| d

/-- The text of a string and the bytes it stands for. -/
inductive Spells : Bytes → Bytes → Prop
  | nil : Spells [] []
  | plain {c : UInt8} {text out : Bytes} (hc : c ≠ 92) (rest : Spells text out) :
      Spells (c :: text) (c :: out)
  | simple {esc : UInt8} {text out : Bytes} (hesc : esc ≠ 117) (rest : Spells text out) :
      Spells (92 :: esc :: text) (unescapeChar esc :: out)
  | unicode {a b c d : UInt8} {a' b' c' d' : Nat} {text out : Bytes}
      (hdigits : hexValue a = some a' ∧ hexValue b = some b' ∧ hexValue c = some c' ∧
        hexValue d = some d') (rest : Spells text out) :
      Spells (92 :: 117 :: a :: b :: c :: d :: text) (emitCode (hexCode a' b' c' d') ++ out)

theorem unescape_unicode {a b c d : UInt8} {a' b' c' d' : Nat}
    (hdigits : hexValue a = some a' ∧ hexValue b = some b' ∧ hexValue c = some c' ∧
      hexValue d = some d') (text : Bytes) (room : Nat) :
    unescape room (92 :: 117 :: a :: b :: c :: d :: text) =
      if (emitCode (hexCode a' b' c' d')).length ≤ room then
        (unescape (room - (emitCode (hexCode a' b' c' d')).length) text).map
          (emitCode (hexCode a' b' c' d') ++ ·)
      else none := by
  obtain ⟨ha, hb, hc, hd⟩ := hdigits
  rw [unescape, if_neg (by decide), if_pos rfl]
  simp only [ha, hb, hc, hd]
  rfl

/-- `str_at` emits what the text stands for, as far as there is room. -/
theorem Spells.unescape {text out : Bytes} (h : Spells text out) {room : Nat}
    (hroom : out.length ≤ room) : unescape room text = some out := by
  induction h generalizing room with
  | nil => rfl
  | @plain c text out hc _ ih =>
    rw [List.length_cons] at hroom
    rw [JsonReader.unescape.eq_def]
    dsimp only
    rw [if_pos hc, if_pos (by omega), ih (by omega)]
    rfl
  | @simple esc text out hesc _ ih =>
    rw [List.length_cons] at hroom
    rw [JsonReader.unescape.eq_def]
    dsimp only
    rw [if_neg (by decide), if_neg hesc, if_pos (by omega), ih (by omega)]
    rfl
  | unicode hdigits _ ih =>
    rw [List.length_append] at hroom
    rw [unescape_unicode hdigits, if_pos (by omega), ih (by omega)]
    rfl

theorem spells_of_unescape {room : Nat} {text out : Bytes} (h : unescape room text = some out) :
    Spells text out ∧ out.length ≤ room := by
  fun_induction JsonReader.unescape room text generalizing out with
  | case1 =>
    cases h
    exact ⟨.nil, Nat.zero_le _⟩
  | case2 room c rest hc hroom ih =>
    obtain ⟨tail, htail, rfl⟩ := Option.map_eq_some_iff.mp h
    obtain ⟨hspells, hle⟩ := ih htail
    refine ⟨.plain hc hspells, ?_⟩
    rw [List.length_cons]
    omega
  | case5 =>
    rename_i room c₀ hc a b c d text a' b' c' d' hd hc' hb ha _ hroom ih
    obtain ⟨tail, htail, rfl⟩ := Option.map_eq_some_iff.mp h
    obtain ⟨hspells, hle⟩ := ih htail
    obtain rfl := not_not.mp hc
    refine ⟨.unicode ⟨ha, hb, hc', hd⟩ hspells, ?_⟩
    have hfits : (emitCode (hexCode a' b' c' d')).length ≤ room := hroom
    have htail : tail.length ≤ room - (emitCode (hexCode a' b' c' d')).length := hle
    show (emitCode (hexCode a' b' c' d') ++ tail).length ≤ room
    rw [List.length_append]
    omega
  | case9 room c hc esc rest hesc hroom ih =>
    obtain ⟨tail, htail, rfl⟩ := Option.map_eq_some_iff.mp h
    obtain ⟨hspells, hle⟩ := ih htail
    obtain rfl := not_not.mp hc
    refine ⟨.simple hesc hspells, ?_⟩
    rw [List.length_cons]
    omega
  | case3 | case4 | case6 | case7 | case8 | case10 => cases h

/-- **`str_at` succeeds when the value fits**, and then emits all of it. -/
theorem unescape_eq_some_iff {room : Nat} {text out : Bytes} :
    unescape room text = some out ↔ Spells text out ∧ out.length ≤ room :=
  ⟨spells_of_unescape, fun h => h.1.unescape h.2⟩

/-- A text stands for one value. -/
theorem Spells.unique {text out out' : Bytes} (h : Spells text out) (h' : Spells text out') :
    out = out' := by
  have hout := h.unescape (Nat.le_max_left out.length out'.length)
  rw [h'.unescape (Nat.le_max_right out.length out'.length)] at hout
  exact (Option.some.inj hout).symm

theorem Spells.unescape_eq {text out : Bytes} (h : Spells text out) (room : Nat) :
    JsonReader.unescape room text = if out.length ≤ room then some out else none := by
  split_ifs with hroom
  · exact h.unescape hroom
  · cases hres : JsonReader.unescape room text with
    | none => rfl
    | some out' =>
      obtain ⟨hspells, hle⟩ := spells_of_unescape hres
      rw [h.unique hspells] at hroom
      exact absurd hle hroom

/-! ## What is in the buffer -/

/-- The loop of `str_at` with room for `room` more bytes: what is in the buffer when it
returns, whether it succeeds or not. -/
def emitted (room : Nat) : Bytes → Bytes
  | [] => []
  | c :: rest =>
    if c ≠ 92 then if 0 < room then c :: emitted (room - 1) rest else []
    else
      match rest with
      | [] => []
      | esc :: rest =>
        if esc = 117 then
          match rest with
          | a :: b :: c :: d :: rest =>
            match hexValue a, hexValue b, hexValue c, hexValue d with
            | some a, some b, some c, some d =>
              -- The bytes of one character go in one by one.
              let out := emitCode (hexCode a b c d)
              if out.length ≤ room then out ++ emitted (room - out.length) rest
              else out.take room
            | _, _, _, _ => []
          | _ => []
        else if 0 < room then unescapeChar esc :: emitted (room - 1) rest
        else []

theorem emitted_unicode {a b c d : UInt8} {a' b' c' d' : Nat}
    (hdigits : hexValue a = some a' ∧ hexValue b = some b' ∧ hexValue c = some c' ∧
      hexValue d = some d') (text : Bytes) (room : Nat) :
    emitted room (92 :: 117 :: a :: b :: c :: d :: text) =
      if (emitCode (hexCode a' b' c' d')).length ≤ room then
        emitCode (hexCode a' b' c' d') ++
          emitted (room - (emitCode (hexCode a' b' c' d')).length) text
      else (emitCode (hexCode a' b' c' d')).take room := by
  obtain ⟨ha, hb, hc, hd⟩ := hdigits
  rw [emitted, if_neg (by decide), if_pos rfl]
  simp only [ha, hb, hc, hd]

/-- **What is in the buffer is the beginning of the value.** -/
theorem emitted_of_spells {text out : Bytes} (h : Spells text out) (room : Nat) :
    emitted room text = out.take room := by
  induction h generalizing room with
  | nil => rw [emitted, List.take_nil]
  | @plain c text out hc _ ih =>
    rw [emitted.eq_def]
    dsimp only
    rw [if_pos hc]
    cases room with
    | zero => rfl
    | succ room =>
      rw [if_pos (Nat.succ_pos room), ih, Nat.add_sub_cancel, List.take_succ_cons]
  | @simple esc text out hesc _ ih =>
    rw [emitted.eq_def]
    dsimp only
    rw [if_neg (by decide), if_neg hesc]
    cases room with
    | zero => rfl
    | succ room =>
      rw [if_pos (Nat.succ_pos room), ih, Nat.add_sub_cancel, List.take_succ_cons]
  | unicode hdigits _ ih =>
    rw [emitted_unicode hdigits]
    split_ifs with hfits
    · rw [ih, List.take_append, List.take_of_length_le hfits]
    · rw [List.take_append_of_le_length (by omega)]

/-! ## What JSON says -/

/-- A hexadecimal digit and its value. -/
def HexDigit (c : UInt8) (v : Nat) : Prop :=
  (ascii "0123456789abcdef")[v]? = some c ∨ (ascii "0123456789ABCDEF")[v]? = some c

/-- The characters that may follow a backslash, `u` apart, and what they stand for. -/
def escapes : List (UInt8 × UInt8) :=
  [(34, 34), (92, 92), (47, 47), (98, 8), (102, 12), (110, 10), (114, 13), (116, 9)]

/-- The bytes for a `\\u` escape: UTF-8 of the code point, or '?' for a surrogate. -/
def codeBytes (code : Nat) : Bytes :=
  if 0xd800 ≤ code ∧ code ≤ 0xdfff then ascii "?" else String.utf8EncodeChar (Char.ofNat code)

/-- The text of a string and the bytes that JSON means by it, with '?' for each surrogate. -/
inductive Decodes : Bytes → Bytes → Prop
  | nil : Decodes [] []
  | plain {c : UInt8} {text out : Bytes} (hc : c ≠ 92) (rest : Decodes text out) :
      Decodes (c :: text) (c :: out)
  | simple {esc c : UInt8} {text out : Bytes} (hesc : (esc, c) ∈ escapes)
      (rest : Decodes text out) : Decodes (92 :: esc :: text) (c :: out)
  | unicode {a b c d : UInt8} {a' b' c' d' : Nat} {text out : Bytes}
      (hdigits : HexDigit a a' ∧ HexDigit b b' ∧ HexDigit c c' ∧ HexDigit d d')
      (rest : Decodes text out) :
      Decodes (92 :: 117 :: a :: b :: c :: d :: text)
        (codeBytes (4096 * a' + 256 * b' + 16 * c' + d') ++ out)

theorem HexDigit.lt {c : UInt8} {v : Nat} (h : HexDigit c v) : v < 16 := by
  rcases h with h | h
  · exact (List.getElem?_eq_some_iff.mp h).1
  · exact (List.getElem?_eq_some_iff.mp h).1

/-- `hex_value` knows the digits. -/
theorem HexDigit.hexValue {c : UInt8} {v : Nat} (h : HexDigit c v) : hexValue c = some v := by
  have hlt := h.lt
  rcases h with h | h
  · interval_cases v <;> (cases h; rfl)
  · interval_cases v <;> (cases h; rfl)

theorem exists_hexDigit {c : UInt8} (h : isHexDigit c = true) : ∃ v, HexDigit c v := by
  have hdigit : isHexDigit c = true → ∃ v < 16,
      (ascii "0123456789abcdef")[v]? = some c ∨ (ascii "0123456789ABCDEF")[v]? = some c := by
    refine of_forall_ofNat (p := fun c => isHexDigit c = true → ∃ v < 16,
      (ascii "0123456789abcdef")[v]? = some c ∨ (ascii "0123456789ABCDEF")[v]? = some c) ?_
      c.toNat_lt
    decide +kernel
  obtain ⟨v, -, hv⟩ := hdigit h
  exact ⟨v, hv⟩

/-- Four digits make the number they denote. -/
theorem hexCode_eq {a b c d : Nat} (hb : b < 16) (hc : c < 16) (hd : d < 16) :
    hexCode a b c d = 4096 * a + 256 * b + 16 * c + d := by
  rw [hexCode]
  rw [← Nat.shiftLeft_add_eq_or_of_lt (i := 4) hb, ← Nat.shiftLeft_add_eq_or_of_lt (i := 4) hc,
    ← Nat.shiftLeft_add_eq_or_of_lt (i := 4) hd]
  simp only [Nat.shiftLeft_eq]
  omega

/-- The bits of a byte of a UTF-8 form. -/
theorem lead_two {x : Nat} (h : x < 32) : (0xc0 ||| x).toUInt8 = UInt8.ofNat (x % 32 + 0xc0) := by
  revert x
  decide

theorem lead_three {x : Nat} (h : x < 16) :
    (0xe0 ||| x).toUInt8 = UInt8.ofNat (x % 16 + 0xe0) := by
  revert x
  decide

theorem continuation (x : Nat) :
    (0x80 ||| x &&& 0x3f).toUInt8 = UInt8.ofNat (x % 64 + 0x80) := by
  have hsmall : ∀ y < 64, (0x80 ||| y).toUInt8 = UInt8.ofNat (y + 0x80) := by decide
  have hmod : x &&& 0x3f = x % 64 := Nat.and_two_pow_sub_one_eq_mod x 6
  rw [hmod]
  exact hsmall _ (Nat.mod_lt _ (by decide))

/-- **What `str_at` emits for an escape is the UTF-8 form of its code point.** -/
theorem emitCode_eq {code : Nat} (h : code < 65536) : emitCode code = codeBytes code := by
  rw [emitCode, codeBytes]
  by_cases hsurrogate : 0xd800 ≤ code ∧ code ≤ 0xdfff
  · simp only [if_pos hsurrogate]
    rfl
  · simp only [if_neg hsurrogate]
    have hvalid : code.isValidChar := by
      rw [Nat.isValidChar]
      omega
    have hval : (Char.ofNat code).val.toNat = code := by
      rw [Char.ofNat, dif_pos hvalid]
      rfl
    have h12 : code >>> 12 = code / 4096 := Nat.shiftRight_eq_div_pow code 12
    have h6 : code >>> 6 = code / 64 := Nat.shiftRight_eq_div_pow code 6
    unfold String.utf8EncodeChar
    simp only [hval]
    -- The bounds of the code and those of the library's definition are the same.
    by_cases hone : code < 0x80
    · have hone' : code ≤ 0x7f := by omega
      rw [if_pos hone, if_pos hone']
    · have hone' : ¬ code ≤ 0x7f := by omega
      rw [if_neg hone, if_neg hone']
      by_cases htwo : code < 0x800
      · have htwo' : code ≤ 0x7ff := by omega
        rw [if_pos htwo, if_pos htwo', h6, lead_two (by omega), continuation]
      · have htwo' : ¬ code ≤ 0x7ff := by omega
        have hthree : code ≤ 0xffff := by omega
        rw [if_neg htwo, if_neg htwo', if_pos hthree, h12, h6, lead_three (by omega),
          continuation, continuation]

/-- What JSON means by a text is what `str_at` makes of it. -/
theorem Decodes.spells {text out : Bytes} (h : Decodes text out) : Spells text out := by
  induction h with
  | nil => exact .nil
  | plain hc _ ih => exact .plain hc ih
  | @simple esc c text out hesc _ ih =>
    have hchar : esc ≠ 117 ∧ c = unescapeChar esc := by
      simp only [escapes, List.mem_cons, Prod.mk.injEq, List.not_mem_nil, or_false] at hesc
      rcases hesc with h | h | h | h | h | h | h | h <;>
        (obtain ⟨rfl, rfl⟩ := h; decide)
    rw [hchar.2]
    exact .simple hchar.1 ih
  | @unicode a b c d a' b' c' d' text out hdigits _ ih =>
    obtain ⟨ha, hb, hc, hd⟩ := hdigits
    have hlt := ha.lt
    have hcode := hexCode_eq (a := a') hb.lt hc.lt hd.lt
    have := hb.lt
    have := hc.lt
    have := hd.lt
    rw [← hcode, ← emitCode_eq (by omega)]
    exact .unicode ⟨ha.hexValue, hb.hexValue, hc.hexValue, hd.hexValue⟩ ih

/-- A text means one thing. -/
theorem Decodes.unique {text out out' : Bytes} (h : Decodes text out) (h' : Decodes text out') :
    out = out' := h.spells.unique h'.spells

/-! ## The strings of an accepted text -/

theorem scan_hex {j : Nat} {bs : Bytes} {n k : Nat} (h : scanString (.hex j) bs n = .ok k) :
    ∃ d rest, bs = d :: rest ∧ isHexDigit d = true ∧
      scanString (match j with
        | 0 => .plain
        | j + 1 => .hex j) rest (n + 1) = .ok k := by
  cases bs with
  | nil => cases h
  | cons d rest =>
    unfold scanString at h
    split_ifs at h with _ hdigit
    cases j <;> exact ⟨d, rest, rfl, hdigit, h⟩

theorem scan_escape {bs : Bytes} {n k : Nat} (h : scanString .escape bs n = .ok k) :
    ∃ esc rest, bs = esc :: rest ∧
      (esc = 117 ∧ scanString (.hex 3) rest (n + 1) = .ok k ∨
        esc ∈ simpleEscapes ∧ scanString .plain rest (n + 1) = .ok k) := by
  cases bs with
  | nil => cases h
  | cons esc rest =>
    rw [scanString] at h
    split_ifs at h with hu hmem
    · exact ⟨esc, rest, rfl, .inl ⟨hu, h⟩⟩
    · exact ⟨esc, rest, rfl, .inr ⟨hmem, h⟩⟩

/-- **What the tokenizer takes for the text of a string means something.** -/
theorem decodes_of_scan {bs : Bytes} {n k : Nat} (h : scanString .plain bs n = .ok k) :
    ∃ out, Decodes (bs.take (k - n)) out := by
  induction hlen : bs.length using Nat.strong_induction_on generalizing bs n with
  | _ len ih =>
    cases bs with
    | nil => cases h
    | cons c rest =>
      rw [List.length_cons] at hlen
      rw [scanString] at h
      split_ifs at h with h0 hquote hback
      · cases h
        rw [Nat.sub_self]
        exact ⟨[], .nil⟩
      · subst hback
        obtain ⟨esc, rest, rfl, ⟨rfl, h⟩ | ⟨hesc, h⟩⟩ := scan_escape h
        · -- A backslash, an `u` and four digits.
          obtain ⟨a, rest, rfl, ha, h⟩ := scan_hex h
          obtain ⟨b, rest, rfl, hb, h⟩ := scan_hex h
          obtain ⟨c, rest, rfl, hc, h⟩ := scan_hex h
          obtain ⟨d, rest, rfl, hd, h⟩ := scan_hex h
          obtain ⟨a', ha⟩ := exists_hexDigit ha
          obtain ⟨b', hb⟩ := exists_hexDigit hb
          obtain ⟨c', hc⟩ := exists_hexDigit hc
          obtain ⟨d', hd⟩ := exists_hexDigit hd
          simp only [List.length_cons] at hlen
          obtain ⟨out, hout⟩ := ih rest.length (by omega) h rfl
          obtain ⟨hle, -⟩ := scanString_lt h
          have hsix : k - n = k - (n + 1 + 1 + 1 + 1 + 1 + 1) + 6 := by omega
          rw [hsix]
          exact ⟨_, .unicode ⟨ha, hb, hc, hd⟩ hout⟩
        · -- The tokenizer allows the escapes that JSON has.
          have hmeans : (esc, unescapeChar esc) ∈ escapes := by
            simp only [simpleEscapes, List.mem_cons, List.not_mem_nil, or_false] at hesc
            rcases hesc with rfl | rfl | rfl | rfl | rfl | rfl | rfl | rfl <;>
              simp [escapes, unescapeChar]
          rw [List.length_cons] at hlen
          obtain ⟨out, hout⟩ := ih rest.length (by omega) h rfl
          obtain ⟨hle, -⟩ := scanString_lt h
          have htwo : k - n = k - (n + 1 + 1) + 2 := by omega
          rw [htwo]
          exact ⟨_, .simple hmeans hout⟩
      · obtain ⟨out, hout⟩ := ih rest.length (by omega) h rfl
        obtain ⟨hle, -⟩ := scanString_lt h
        have hone : k - n = k - (n + 1) + 1 := by omega
        rw [hone]
        exact ⟨_, .plain hback hout⟩

/-- A well-formed string has a value. -/
theorem exists_spells (s : Str) : ∃ out, Spells (spelled s) out := by
  have hscan := scanString_spelled s [] 0
  obtain ⟨out, hout⟩ := decodes_of_scan hscan
  rw [Nat.zero_add, Nat.sub_zero, List.take_left] at hout
  exact ⟨out, hout.spells⟩

/-- What the tokenizer scans for a token with a text of `n` bytes that starts with `bs`. -/
def Scanned (type : JsmnType) (bs : Bytes) (n : Nat) : Prop :=
  (type = .string → scanString .plain bs 0 = .ok n) ∧
    (type = .primitive → (∃ c ∈ bs.head?, jsmnCase c = .primitive) ∧ scanPrimitive bs 0 = .ok n)

/-- The lexeme of a token with a text. -/
def textLexeme (type : JsmnType) (a b : Nat) : Lexeme :=
  if type = .string then .string a b else .primitive a b

/-- A string starts behind its quote, and a primitive with its first character. -/
theorem scanned_of_lexStep {c : UInt8} {rest : Bytes} {pos a b skip : Nat} {type : JsmnType}
    (h : lexStep c rest pos = some (some (textLexeme type a b), skip)) :
    pos ≤ a ∧ Scanned type ((c :: rest).drop (a - pos)) (b - a) := by
  generalize hl : some (textLexeme type a b) = l at h
  rw [textLexeme] at hl
  cases lexStep_cases h with
  | string hscan =>
    split_ifs at hl with htype
    · cases hl
      subst htype
      refine ⟨Nat.le_succ pos, fun _ => ?_, nofun⟩
      rw [Nat.add_sub_cancel_left, Nat.add_sub_cancel_left, ← hscan]
      rfl
    · cases hl
  | primitive hcase hscan =>
    split_ifs at hl with htype
    · cases hl
    · cases hl
      refine ⟨Nat.le_refl pos, fun hstring => absurd hstring htype, fun _ => ?_⟩
      rw [Nat.sub_self, Nat.add_sub_cancel_left]
      exact ⟨⟨c, rfl, hcase⟩, hscan⟩
  | opening | closing | space | colon | comma => split_ifs at hl <;> cases hl

/-- Every lexeme with a text was scanned where it stands. -/
theorem scanned_of_lex {js : Bytes} {pos skip : Nat} {ls : List Lexeme}
    (h : lex js pos skip = some ls) {type : JsmnType} {a b : Nat}
    (hmem : textLexeme type a b ∈ ls) : pos ≤ a ∧ Scanned type (js.drop (a - pos)) (b - a) := by
  induction js generalizing pos skip ls with
  | nil =>
    cases h
    cases hmem
  | cons c rest ih =>
    -- A lexeme of what follows is found at the same place of the whole.
    have hlater : ∀ {skip ls}, lex rest (pos + 1) skip = some ls → textLexeme type a b ∈ ls →
        pos ≤ a ∧ Scanned type ((c :: rest).drop (a - pos)) (b - a) := by
      intro skip ls hls hmem
      obtain ⟨hle, hscanned⟩ := ih hls hmem
      have hdrop : a - pos = a - (pos + 1) + 1 := by omega
      rw [hdrop, List.drop_succ_cons]
      exact ⟨by omega, hscanned⟩
    cases skip with
    | succ skip => exact hlater h hmem
    | zero =>
      obtain ⟨-, rfl⟩ | ⟨-, l, skip, ls', hstep, hls', rfl⟩ := lex_cons_cases h
      · cases hmem
      · rcases List.mem_append.mp hmem with hhead | htail
        · obtain rfl : l = some (textLexeme type a b) := Option.mem_toList.mp hhead
          exact scanned_of_lexStep hstep
        · exact hlater hls' htail

end JsonReader

namespace TokenTree

variable {z z' : TokenTree}

/-- The string nodes of a tree come from these lexemes. -/
def StringsOf (ls : List Lexeme) (n : JsonNode) : Prop :=
  n.type = .string → ∃ a b : Nat, .string a b ∈ ls ∧ n.start = a ∧ n.stop = b

/-- The primitive nodes of a tree come from these lexemes. -/
def PrimitivesOf (ls : List Lexeme) (n : JsonNode) : Prop :=
  n.type = .primitive → ∃ a b : Nat, .primitive a b ∈ ls ∧ n.start = a ∧ n.stop = b

/-- The nodes with a text come from these lexemes. -/
def LeavesOf (ls : List Lexeme) (n : JsonNode) : Prop := StringsOf ls n ∧ PrimitivesOf ls n

theorem LeavesOf.mono {ls ls' : List Lexeme} {n : JsonNode} (h : LeavesOf ls n)
    (hsub : ls ⊆ ls') : LeavesOf ls' n := by
  constructor
  · intro htype
    obtain ⟨a, b, hmem, hplace⟩ := h.1 htype
    exact ⟨a, b, hsub hmem, hplace⟩
  · intro htype
    obtain ⟨a, b, hmem, hplace⟩ := h.2 htype
    exact ⟨a, b, hsub hmem, hplace⟩

/-- The node of an object or array has no text. -/
theorem leavesOf_container {ls : List Lexeme} {n : JsonNode} {c : Container}
    (h : n.type = c.type) : LeavesOf ls n := by
  constructor
  · intro htype
    rw [h] at htype
    cases c <;> cases htype
  · intro htype
    rw [h] at htype
    cases c <;> cases htype

/-- **Step lemma**: only a lexeme with a text brings a node with a text. -/
theorem leavesOf_act {ls : List Lexeme} {l : Lexeme}
    (hz : ∀ n ∈ z.forest.labels, LeavesOf ls n) (h : z.act l = some z') :
    ∀ n ∈ z'.forest.labels, LeavesOf (ls ++ [l]) n := by
  have hmono : ∀ n ∈ z.forest.labels, LeavesOf (ls ++ [l]) n := fun n hn =>
    (hz n hn).mono (List.subset_append_left _ _)
  cases l with
  | opening c pos =>
    simp only [act] at h
    split_ifs at h
    cases h
    intro n hn
    rw [Zipper.forest_push] at hn
    rcases mem_labels_leaf hn with hn | rfl
    · exact hmono n hn
    · exact leavesOf_container rfl
  | closing c pos =>
    intro n hn
    rcases mem_labels_close h hn with hn | ⟨m, hm, htype, rfl⟩
    · exact hmono n hn
    · exact leavesOf_container htype
  | string start stop =>
    cases h
    intro n hn
    rcases mem_labels_leaf hn with hn | rfl
    · exact hmono n hn
    · refine ⟨fun _ => ⟨start, stop, by simp, rfl, rfl⟩, ?_⟩
      rintro ⟨⟩
  | primitive start stop =>
    simp only [act] at h
    split_ifs at h
    cases h
    intro n hn
    rcases mem_labels_leaf hn with hn | rfl
    · exact hmono n hn
    · refine ⟨?_, fun _ => ⟨start, stop, by simp, rfl, rfl⟩⟩
      rintro ⟨⟩
  | colon =>
    cases h
    rw [Zipper.forest_last]
    exact hmono
  | comma =>
    cases h
    rw [forest_comma]
    exact hmono

/-- **Run lemma**. -/
theorem leavesOf_run {ls ls' : List Lexeme} (hz : ∀ n ∈ z.forest.labels, LeavesOf ls n)
    (h : z.run ls' = some z') : ∀ n ∈ z'.forest.labels, LeavesOf (ls ++ ls') n := by
  induction ls' generalizing z ls with
  | nil =>
    cases h
    rwa [List.append_nil]
  | cons l ls' ih =>
    obtain ⟨z₁, hact, hrun⟩ := Option.bind_eq_some_iff.mp h
    have hrest := ih (leavesOf_act hz hact) hrun
    rwa [List.append_assoc] at hrest

theorem LeavesOf.textLexeme {ls : List Lexeme} {n : JsonNode} (h : LeavesOf ls n)
    (htype : n.type = .string ∨ n.type = .primitive) :
    ∃ a b : Nat, JsonReader.textLexeme n.type a b ∈ ls ∧ n.start = a ∧ n.stop = b := by
  rcases htype with htype | htype
  · obtain ⟨a, b, hmem, hplace⟩ := h.1 htype
    exact ⟨a, b, by rwa [htype], hplace⟩
  · obtain ⟨a, b, hmem, hplace⟩ := h.2 htype
    exact ⟨a, b, by rwa [htype], hplace⟩

end TokenTree

namespace JsonReader

/-- The text of a token of an accepted text is what the tokenizer scanned. -/
theorem parse_scanned {r : JsonReader} {json : Bytes} (hok : (r.parse json).1 = .ok)
    {tok : Option Nat} {t : JsmnToken} (ht : (r.parse json).2.token? tok = some t)
    (htype : t.type = .string ∨ t.type = .primitive) :
    ∃ bs n, (r.parse json).2.slice t.start t.stop = bs.take n ∧ Scanned t.type bs n := by
  obtain ⟨z, hz, -, -, -, hlists, hjson⟩ := parse_lists hok
  obtain ⟨i, n, kids, -, -, hat, rfl⟩ := hlists.at?_of_token? ht
  obtain ⟨ls, hlex, hrun⟩ := Option.bind_eq_some_iff.mp hz
  have hleaves : ∀ m ∈ z.forest.labels, TokenTree.LeavesOf ([] ++ ls) m := by
    refine TokenTree.leavesOf_run ?_ hrun
    intro m hm
    exact absurd hm List.not_mem_nil
  obtain ⟨a, b, hmem, hstart, hstop⟩ :=
    (hleaves n (mem_labels_of_at? hat)).textLexeme htype
  obtain ⟨-, hscanned⟩ := scanned_of_lex hlex hmem
  refine ⟨json.drop a, b - a, ?_, hscanned⟩
  show (r.parse json).2.slice n.start n.stop = (json.drop a).take (b - a)
  rw [slice]
  rw [hjson, hstart, hstop, Int.toNat_natCast, Int.toNat_natCast, List.drop_take]

/-- **Every string of an accepted text means something.** -/
theorem parse_decodes {r : JsonReader} {json : Bytes} (hok : (r.parse json).1 = .ok)
    {tok : Option Nat} {t : JsmnToken} (ht : (r.parse json).2.token? tok = some t)
    (htype : t.type = .string) :
    ∃ out, Decodes ((r.parse json).2.slice t.start t.stop) out := by
  obtain ⟨bs, n, hslice, hscanned⟩ := parse_scanned hok ht (.inl htype)
  rw [hslice]
  exact decodes_of_scan (hscanned.1 htype)

/-- **Every string of an accepted text has a value**, so that `str_at` fails on one only for lack
of room. -/
theorem parse_spells {r : JsonReader} {json : Bytes} (hok : (r.parse json).1 = .ok)
    {tok : Option Nat} {t : JsmnToken} (ht : (r.parse json).2.token? tok = some t)
    (htype : t.type = .string) : ∃ out, Spells ((r.parse json).2.slice t.start t.stop) out := by
  obtain ⟨out, hout⟩ := parse_decodes hok ht htype
  exact ⟨out, hout.spells⟩

/-! ## String members -/

/-- The first member of the document with this key, if it is a string. -/
def stringMember (r : JsonReader) (key : Bytes) : Option JsmnToken :=
  (r.token? (r.find (some 0) key)).filter fun t => t.type == .string

/-- The document has a string member with this key, and all of it stands for `value`. -/
def HasString (r : JsonReader) (key value : Bytes) : Prop :=
  ∃ t, r.stringMember key = some t ∧ Spells (r.slice t.start t.stop) value

theorem HasString.unique {r : JsonReader} {key value value' : Bytes} (h : r.HasString key value)
    (h' : r.HasString key value') : value = value' := by
  obtain ⟨t, ht, hspells⟩ := h
  obtain ⟨t', ht', hspells'⟩ := h'
  cases ht.symm.trans ht'
  exact hspells.unique hspells'

/-- A string member of an accepted document stands for something. -/
theorem hasString_of_member {r : JsonReader} {json key : Bytes} {t : JsmnToken}
    (hok : (r.parse json).1 = .ok) (ht : (r.parse json).2.stringMember key = some t) :
    ∃ value, (r.parse json).2.HasString key value := by
  obtain ⟨htok, htype⟩ := Option.filter_eq_some_iff.mp ht
  obtain ⟨value, hvalue⟩ := parse_spells hok htok (beq_iff_eq.mp htype)
  exact ⟨value, t, ht, hvalue⟩

/-- `get_str` of a string member gives its value if there is room for it. -/
theorem HasString.getStr {r : JsonReader} {key value : Bytes} (h : r.HasString key value)
    {cap : Nat} (hroom : value.length < cap) : r.getStr (some 0) key cap = some value := by
  obtain ⟨t, ht, hspells⟩ := h
  obtain ⟨htok, htype⟩ := Option.filter_eq_some_iff.mp ht
  rw [JsonReader.getStr, strAt, htok]
  dsimp only
  rw [if_neg, hspells.unescape_eq, if_pos (by omega)]
  rintro (hne | hcap)
  · exact hne (beq_iff_eq.mp htype)
  · omega

end JsonReader

end SoulCloud
