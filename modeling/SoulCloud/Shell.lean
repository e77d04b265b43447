import SoulCloud.Lib.Bytes

/-!
# The debug shell (`sc_shell`)

A command line is cut into words, and the command with the longest name among those that the
words begin with runs. Its output goes into a buffer that is truncated when it is full.

- `ShellOut`, `ShellCall`: `sc_shell_out` and the calls on it.
- `shown_run`: after any calls the buffer holds the beginning of all their texts, and the flag
  says whether that is all.
- `ShellCommand`, `runLine`: the commands and `sc_shell::run`.
-/

namespace SoulCloud

open Bytes

/-! ## Output -/

/-- `sc_shell_out` on a buffer of `cap` bytes. -/
structure ShellOut (cap : Nat) where
  buf : Buf cap
  pos : Nat
  pos_lt : 0 < cap → pos < cap
  full : Bool

/-- A call on `sc_shell_out`. -/
inductive ShellCall where
  | write (str : Bytes)
  /-- The whole formatted text, or `none` when formatting fails. -/
  | printf (text : Option Bytes)

/-- The text that a call asks to be shown. -/
def ShellCall.shown : ShellCall → Bytes
  | .write str => str
  | .printf text => text.getD []

namespace ShellOut

variable {cap : Nat}

/-- The constructor, on a buffer that holds earlier output. -/
def new (buf : Buf cap) : ShellOut cap where
  buf := if h : 0 < cap then buf.set ⟨0, h⟩ 0 else buf
  pos := 0
  pos_lt h := h
  full := false

/-- The first `len` bytes of the buffer. -/
def text (o : ShellOut cap) : Bytes := o.buf.text o.pos

/-- Store a text that leaves room for the NUL, and the NUL. -/
def store (o : ShellOut cap) (str : Bytes) (h : o.pos + str.length < cap) : ShellOut cap :=
  { o with
    buf := (o.buf.write o.pos str h.le).set ⟨o.pos + str.length, h⟩ 0
    pos := o.pos + str.length
    pos_lt := fun _ => h }

/-- The position of an output that is not full is in the buffer. -/
theorem pos_lt_of_open {o : ShellOut cap} (h : ¬ (cap = 0 ∨ o.full = true)) : o.pos < cap :=
  o.pos_lt (Nat.pos_of_ne_zero fun hzero => h (.inl hzero))

theorem room_of_open {o : ShellOut cap} (h : ¬ (cap = 0 ∨ o.full = true)) (str : Bytes) :
    o.pos + (str.take (cap - 1 - o.pos)).length < cap := by
  have hpos := pos_lt_of_open h
  have hlen := List.length_take_le (cap - 1 - o.pos) str
  omega

/-- A text that is shorter than the room leaves some for the NUL. -/
theorem lt_of_room {o : ShellOut cap} {text : Bytes} (h : ¬ cap - o.pos ≤ text.length) :
    o.pos + text.length < cap := by
  omega

/-- `write`. -/
def write (o : ShellOut cap) (str : Bytes) : ShellOut cap :=
  if h : cap = 0 ∨ o.full = true then o
  else
    { o.store (str.take (cap - 1 - o.pos)) (room_of_open h str) with
      full := decide (cap - 1 - o.pos < str.length) }

/-- `printf`, which has `vsnprintf` write behind what is there. -/
def printf (o : ShellOut cap) (text : Option Bytes) : ShellOut cap :=
  if h : cap = 0 ∨ o.full = true then o
  else
    match text with
    | none => { o with buf := o.buf.set ⟨o.pos, pos_lt_of_open h⟩ 0 }
    | some text =>
      if hlen : cap - o.pos ≤ text.length then
        { o.store (text.take (cap - 1 - o.pos)) (room_of_open h text) with full := true }
      else o.store text (lt_of_room hlen)

/-- One call. -/
def apply (o : ShellOut cap) : ShellCall → ShellOut cap
  | .write str => o.write str
  | .printf text => o.printf text

/-- Any calls, one after another. -/
def run (o : ShellOut cap) (calls : List ShellCall) : ShellOut cap := calls.foldl apply o

/-- Of `total` the output shows as much as there is room for, and says if that is not all. -/
structure Shows (o : ShellOut cap) (total : Bytes) : Prop where
  text : o.text = total.take (cap - 1)
  pos : o.pos = min total.length (cap - 1)
  full : o.full = decide (cap - 1 < total.length)

theorem text_store (o : ShellOut cap) {str : Bytes} (h : o.pos + str.length < cap) :
    (o.store str h).text = o.text ++ str := by
  show ((o.buf.write o.pos str h.le).set ⟨o.pos + str.length, h⟩ 0).text (o.pos + str.length) = _
  rw [Buf.text_set_of_le _ _ (Nat.le_refl _)]
  exact o.buf.text_write h.le

/-- Nothing is added to a full output. -/
theorem Shows.of_full {o : ShellOut cap} {total : Bytes} (h : o.Shows total)
    (hfull : o.full = true) (str : Bytes) : o.Shows (total ++ str) := by
  have hlong : cap - 1 < total.length := of_decide_eq_true (h.full.symm.trans hfull)
  constructor
  · rw [h.text, List.take_append_of_le_length hlong.le]
  · rw [h.pos, List.length_append]
    omega
  · rw [hfull, List.length_append]
    exact (decide_eq_true (by omega)).symm

/-- As much of a text as there is room for is stored. -/
theorem Shows.store {o : ShellOut cap} {total : Bytes} (h : o.Shows total) (hcap : 0 < cap)
    (hopen : o.full = false) (str : Bytes)
    (hroom : o.pos + (str.take (cap - 1 - o.pos)).length < cap) (full : Bool)
    (hfull : full = decide (cap - 1 - o.pos < str.length)) :
    ({ o.store (str.take (cap - 1 - o.pos)) hroom with full } : ShellOut cap).Shows
      (total ++ str) := by
  have hshort : ¬ cap - 1 < total.length := of_decide_eq_false (h.full.symm.trans hopen)
  have hpos : o.pos = total.length := by
    rw [h.pos]
    omega
  have htotal : o.text = total := by
    rw [h.text, List.take_of_length_le (by omega)]
  constructor
  · show (o.store (str.take (cap - 1 - o.pos)) hroom).text = _
    rw [o.text_store, htotal, List.take_append, hpos, ← htotal, h.text, List.take_take,
      Nat.min_self]
  · show o.pos + (str.take (cap - 1 - o.pos)).length = _
    rw [List.length_take, List.length_append]
    omega
  · show full = _
    rw [hfull, List.length_append, decide_eq_decide]
    omega

/-- **Step lemma**: a call shows its text behind what is there. -/
theorem Shows.apply {o : ShellOut cap} {total : Bytes} (h : o.Shows total) (hcap : 0 < cap)
    (c : ShellCall) : (o.apply c).Shows (total ++ c.shown) := by
  by_cases hfull : o.full = true
  · have hsame : o.apply c = o := by
      cases c with
      | write str => exact dif_pos (.inr hfull)
      | printf text => exact dif_pos (.inr hfull)
    rw [hsame]
    exact h.of_full hfull _
  · have hopen : ¬ (cap = 0 ∨ o.full = true) := by
      rintro (hzero | hf)
      · omega
      · exact hfull hf
    rw [Bool.not_eq_true] at hfull
    have hpos := o.pos_lt hcap
    cases c with
    | write str =>
      rw [ShellOut.apply, write, dif_neg hopen]
      exact h.store hcap hfull str _ _ rfl
    | printf text =>
      rw [ShellOut.apply, printf, dif_neg hopen]
      cases text with
      | none =>
        show ShellOut.Shows _ (total ++ [])
        rw [List.append_nil]
        refine ⟨?_, h.pos, h.full⟩
        exact (Buf.text_set_of_le _ _ (Nat.le_refl _)).trans h.text
      | some text =>
        dsimp only [ShellCall.shown, Option.getD_some]
        split_ifs with hlen
        · exact h.store hcap hfull text _ _ (decide_eq_true (by omega)).symm
        · have htake : text.take (cap - 1 - o.pos) = text := List.take_of_length_le (by omega)
          have hstored := h.store hcap hfull text (room_of_open hopen text) false
            (decide_eq_false (by omega)).symm
          simp only [htake] at hstored
          rw [← hfull] at hstored
          exact hstored

/-- **Run lemma**: the output shows the texts of all calls, as far as there is room. -/
theorem shown_run (buf : Buf cap) (hcap : 0 < cap) (calls : List ShellCall) :
    ((new buf).run calls).Shows (calls.flatMap ShellCall.shown) := by
  induction calls using List.reverseRecOn with
  | nil => exact ⟨List.take_nil.symm, (Nat.zero_min _).symm, rfl⟩
  | append_singleton calls c ih =>
    rw [run, List.foldl_append, List.flatMap_append, List.flatMap_singleton]
    exact ih.apply hcap c

end ShellOut

/-! ## Commands -/

/-- The delimiters of `strtok_r`. -/
def isBlank (c : UInt8) : Bool := c == 32 || c == 9 || c == 13 || c == 10

/-- The words that `strtok_r` finds, where `word` is the beginning of the present one. -/
def strtok (word : Bytes) : Bytes → List Bytes
  | [] => if word = [] then [] else [word]
  | c :: rest =>
    if isBlank c then if word = [] then strtok [] rest else word :: strtok [] rest
    else strtok (word ++ [c]) rest

/-- `MAX_ARGS`. -/
def maxArgs : Nat := 16

/-- What a command does: its calls on the output and its exit code. -/
structure ShellRun where
  calls : List ShellCall
  code : Int

/-- `sc_shell_handler`: a command sees its arguments and a state outside of the shell. -/
abbrev ShellHandler (σ : Type) := List Bytes → σ → ShellRun × σ

/-- An entry of `cmds` whose name is not null. -/
structure ShellCommand (σ : Type) where
  name : Bytes
  help : Option Bytes
  handler : ShellHandler σ

/-- `count_words`, in a `uint8_t`. -/
def countWords (name : Bytes) : Nat := (1 + name.count 32) % 256

/-- The words of a command's name, where `word` is the beginning of the present one. -/
def nameWords (word : Bytes) : Bytes → List Bytes
  | [] => [word]
  | c :: rest => if c = 32 then word :: nameWords [] rest else nameWords (word ++ [c]) rest

/-- `name_matches`. -/
def nameMatches (name : Bytes) (argv : List Bytes) : Bool := (nameWords [] name).isPrefixOf argv

variable {σ : Type}

/-- The body of the loop of `run` over the commands. -/
def betterCommand (argv : List Bytes) (best : Option (ShellCommand σ)) :
    Option (ShellCommand σ) → Option (ShellCommand σ)
  | none => best
  | some cmd =>
    let longer := match best with
      | none => true
      | some best => decide (countWords best.name < countWords cmd.name)
    if longer && nameMatches cmd.name argv then some cmd else best

/-- `sc_shell::run` on a C string. -/
def runLine (cmds : List (Option (ShellCommand σ))) (line : Bytes) (s : σ) : ShellRun × σ :=
  match (strtok [] line).take maxArgs with
  | [] => (⟨[], 0⟩, s)
  | word :: words =>
    match cmds.foldl (betterCommand (word :: words)) none with
    | none =>
      let text := ascii "Unknown command \"" ++ word ++ ascii "\"; try \"help\"\n"
      (⟨[.printf (some text)], 127⟩, s)
    | some best => best.handler ((word :: words).drop (countWords best.name)) s

end SoulCloud
