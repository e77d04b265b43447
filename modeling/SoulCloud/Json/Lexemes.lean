import SoulCloud.Json.Jsmn

/-!
# The tokenizer as a lexer and a tree builder

The main loop of `jsmn_parse` does two things for every byte: it recognises a lexeme and it
changes the tokens. Here they are apart. `lex` reads the bytes and knows no token; the
actions of `JsmnParser.act` change the tokens and know no byte.

- `Lexeme`, `lex`: what the bytes say, or `none` when some byte can't be read.
- `JsmnParser.run`: what a list of lexemes does to the tokens.
- `loop_of_lex`, `loop_of_lex_none`: the loop is one after the other, and never ends well
  on bytes that can't be read.
-/

namespace SoulCloud

/-- A lexeme with where it stands in the text. -/
inductive Lexeme where
  /-- The bracket of an object or array. -/
  | opening (c : Container) (pos : Nat)
  | closing (c : Container) (pos : Nat)
  /-- A string, without its quotes. -/
  | string (start stop : Nat)
  | primitive (start stop : Nat)
  | colon
  | comma
  deriving DecidableEq, Repr

/-- The lexeme that starts with `c`, before `rest`, and how many bytes of `rest` belong to
it. White space is no lexeme. -/
def lexStep (c : UInt8) (rest : Bytes) (pos : Nat) : Option (Option Lexeme × Nat) :=
  match jsmnCase c with
  | .opening c => some (some (.opening c pos), 0)
  | .closing c => some (some (.closing c pos), 0)
  | .quote =>
    match scanString .plain rest 0 with
    | .error _ => none
    | .ok n => some (some (.string (pos + 1) (pos + 1 + n)), n + 1)
  | .space => some (none, 0)
  | .colon => some (some .colon, 0)
  | .comma => some (some .comma, 0)
  | .primitive =>
    match scanPrimitive (c :: rest) 0 with
    | .error _ => none
    | .ok n => some (some (.primitive pos (pos + n)), n - 1)
  | .other => none

/-- The lexemes of a text up to its end or its first NUL. -/
def lex : Bytes → Nat → Nat → Option (List Lexeme)
  | [], _, _ => some []
  | _ :: rest, pos, skip + 1 => lex rest (pos + 1) skip
  | c :: rest, pos, 0 =>
    if c = 0 then some []
    else
      match lexStep c rest pos with
      | none => none
      | some (l, skip) => (lex rest (pos + 1) skip).map (l.toList ++ ·)

/-- What can stand at a character: nothing of its own, a lexeme of one character, or one that the
scanners find. -/
inductive LexStep (c : UInt8) (rest : Bytes) (pos : Nat) : Option Lexeme → Nat → Prop
  | opening (b) : LexStep c rest pos (some (.opening b pos)) 0
  | closing (b) : LexStep c rest pos (some (.closing b pos)) 0
  | string {n : Nat} (hscan : scanString .plain rest 0 = .ok n) :
      LexStep c rest pos (some (.string (pos + 1) (pos + 1 + n))) (n + 1)
  | primitive {n : Nat} (hcase : jsmnCase c = .primitive)
      (hscan : scanPrimitive (c :: rest) 0 = .ok n) :
      LexStep c rest pos (some (.primitive pos (pos + n))) (n - 1)
  | space : LexStep c rest pos none 0
  | colon : LexStep c rest pos (some .colon) 0
  | comma : LexStep c rest pos (some .comma) 0

theorem lexStep_cases {c : UInt8} {rest : Bytes} {pos skip : Nat} {l : Option Lexeme}
    (h : lexStep c rest pos = some (l, skip)) : LexStep c rest pos l skip := by
  rw [lexStep] at h
  cases hcase : jsmnCase c with
  | quote =>
    rw [hcase] at h
    cases hscan : scanString .plain rest 0 with
    | error e =>
      rw [hscan] at h
      cases h
    | ok n =>
      rw [hscan] at h
      cases h
      exact .string hscan
  | primitive =>
    rw [hcase] at h
    cases hscan : scanPrimitive (c :: rest) 0 with
    | error e =>
      rw [hscan] at h
      cases h
    | ok n =>
      rw [hscan] at h
      cases h
      exact .primitive hcase hscan
  | opening b | closing b | space | colon | comma =>
    rw [hcase] at h
    cases h
    constructor
  | other =>
    rw [hcase] at h
    cases h

/-- The text ends at a NUL, or its first lexeme is followed by others. -/
theorem lex_cons_cases {c : UInt8} {rest : Bytes} {pos : Nat} {ls : List Lexeme}
    (h : lex (c :: rest) pos 0 = some ls) :
    c = 0 ∧ ls = [] ∨ c ≠ 0 ∧ ∃ l skip ls', lexStep c rest pos = some (l, skip) ∧
      lex rest (pos + 1) skip = some ls' ∧ ls = l.toList ++ ls' := by
  rw [lex] at h
  split_ifs at h with hc
  · cases h
    exact .inl ⟨hc, rfl⟩
  · cases hstep : lexStep c rest pos with
    | none =>
      rw [hstep] at h
      cases h
    | some found =>
      obtain ⟨l, skip⟩ := found
      rw [hstep] at h
      obtain ⟨ls', hls', rfl⟩ := Option.map_eq_some_iff.mp h
      exact .inr ⟨hc, l, skip, ls', rfl, hls', rfl⟩

namespace JsmnParser

/-- What one lexeme does to the tokens. -/
def act (cap : Nat) (s : JsmnParser) : Lexeme → Except JsmnError JsmnParser
  | .opening c pos => s.beginContainer cap c.type pos
  | .closing c pos => s.endContainer c.type pos
  | .string start stop => s.addLeaf cap .string start stop
  | .primitive start stop =>
    if s.refusesPrimitive then .error .inval else s.addLeaf cap .primitive start stop
  | .colon => .ok s.colon
  | .comma => .ok s.comma

/-- What a list of lexemes does to the tokens. -/
def run (cap : Nat) (s : JsmnParser) : List Lexeme → Except JsmnError JsmnParser
  | [] => .ok s
  | l :: ls =>
    match s.act cap l with
    | .error e => .error e
    | .ok s => s.run cap ls

variable {cap pos : Nat} {s : JsmnParser}

/-- What one byte does: what its lexeme does, or nothing, or it ends the loop. -/
theorem step_of_lexStep (cap : Nat) (c : UInt8) (rest : Bytes) (pos : Nat) (s : JsmnParser) :
    match lexStep c rest pos with
    | none => ∃ e, step cap c rest pos s = .error e
    | some (none, skip) => step cap c rest pos s = .ok (s, skip)
    | some (some l, skip) => step cap c rest pos s = (s.act cap l).map (·, skip) := by
  unfold lexStep step
  cases jsmnCase c with
  | quote =>
    dsimp only
    cases scanString .plain rest 0 with
    | error e => exact ⟨e, rfl⟩
    | ok n => rfl
  | primitive =>
    dsimp only
    cases scanPrimitive (c :: rest) 0 with
    | error e =>
      dsimp only
      split
      · exact ⟨_, rfl⟩
      · exact ⟨e, rfl⟩
    | ok n =>
      simp only [act]
      split <;> rfl
  | other => exact ⟨_, rfl⟩
  | _ => rfl

/-- **The loop runs the lexemes** of bytes that can be read. -/
theorem loop_of_lex {js : Bytes} {skip : Nat} {ls : List Lexeme} (h : lex js pos skip = some ls) :
    loop cap js pos skip s = s.run cap ls := by
  induction js generalizing pos skip s ls with
  | nil =>
    cases h
    rfl
  | cons c rest ih =>
    cases skip with
    | succ skip => exact ih h
    | zero =>
      unfold loop
      obtain ⟨rfl, rfl⟩ | ⟨hc, l, skip, ls', hstep, hls', rfl⟩ := lex_cons_cases h
      · rfl
      · have hact := step_of_lexStep cap c rest pos s
        rw [hstep] at hact
        rw [if_neg hc]
        cases l with
        | none =>
          rw [hact]
          exact ih hls'
        | some l =>
          rw [hact]
          show _ = run cap s (l :: ls')
          unfold run
          cases s.act cap l with
          | error e => rfl
          | ok s => exact ih hls'

/-- Bytes that can't be read end the loop with an error, there or before. -/
theorem loop_of_lex_none {js : Bytes} {skip : Nat} (h : lex js pos skip = none) :
    ∃ e, loop cap js pos skip s = .error e := by
  induction js generalizing pos skip s with
  | nil => cases h
  | cons c rest ih =>
    cases skip with
    | succ skip => exact ih h
    | zero =>
      unfold lex at h
      unfold loop
      split_ifs at h ⊢
      have hact := step_of_lexStep cap c rest pos s
      cases hstep : lexStep c rest pos with
      | none =>
        rw [hstep] at hact
        obtain ⟨e, he⟩ := hact
        rw [he]
        exact ⟨e, rfl⟩
      | some found =>
        obtain ⟨l, skip⟩ := found
        rw [hstep] at h hact
        have htail := Option.map_eq_none_iff.mp h
        cases l with
        | none =>
          rw [hact]
          exact ih htail
        | some l =>
          rw [hact]
          cases s.act cap l with
          | error e => exact ⟨e, rfl⟩
          | ok s => exact ih htail

end JsmnParser

end SoulCloud
