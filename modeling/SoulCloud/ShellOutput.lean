import SoulCloud.Shell
import SoulCloud.Lib.Word

/-!
# The output of the shell, byte by byte

`ShellOut` has its position inside the buffer by its type. `OutBuf` is the class as it is written:
three fields of which nothing is promised, `size_t` arithmetic, and writes that can miss the
buffer. `write` counts the room without the NUL and puts the NUL itself; `printf` hands the whole
room to `vsnprintf` and goes by what that returns.

- `OutBuf`, `vsnprintf`: the class, where `none` is a write past the buffer.
- `ofOut_apply`: on a `ShellOut` both calls do what that model says, so no write misses.
- `run_ofOut`: so do any calls, in any order.
- `shell_output_exact`: what the buffer holds after them, with its NUL.
-/

namespace SoulCloud

open Bytes Word

/-! ## The class -/

/-- The fields of `sc_shell_out`, on a buffer of `cap` bytes. -/
structure OutBuf (cap : Nat) where
  buf : Buf cap
  pos : Nat
  full : Bool

/-- `vsnprintf` into `size` bytes behind `off`: nothing if there is no room, else what leaves room
for the NUL, and the NUL. It returns the length of the whole text, or a negative number. -/
def vsnprintf {cap : Nat} (buf : Buf cap) (off size : Nat) :
    Option Bytes → Option (Buf cap × Int)
  | none => some (buf, -1)
  | some text =>
    if size = 0 then some (buf, toInt32 text.length)
    else do
      let shown := text.take (size - 1)
      let buf ← buf.memcpy off shown
      let buf ← buf.memcpy (off + shown.length) [0]
      some (buf, toInt32 text.length)

namespace OutBuf

variable {cap : Nat}

/-- The constructor. -/
def new (buf : Buf cap) : Option (OutBuf cap) :=
  if 0 < cap then (buf.memcpy 0 [0]).map fun buf => ⟨buf, 0, false⟩
  else some ⟨buf, 0, false⟩

/-- `write`. -/
def write (o : OutBuf cap) (str : Bytes) : Option (OutBuf cap) :=
  if cap = 0 ∨ o.full = true then some o
  else do
    let room := toSizeT ((cap : Int) - 1 - o.pos)
    let len := if room < str.length then room else str.length
    let full := if room < str.length then true else o.full
    let buf ← o.buf.memcpy o.pos (str.take len)
    let pos := toSizeT (o.pos + len)
    let buf ← buf.memcpy pos [0]
    some { buf, pos, full }

/-- `printf`. -/
def printf (o : OutBuf cap) (text : Option Bytes) : Option (OutBuf cap) :=
  if cap = 0 ∨ o.full = true then some o
  else do
    let (buf, len) ← vsnprintf o.buf o.pos (toSizeT ((cap : Int) - o.pos)) text
    if len < 0 then
      let buf ← buf.memcpy o.pos [0]
      some { o with buf }
    else if toSizeT ((cap : Int) - o.pos) ≤ toSizeT len then
      some { buf, pos := toSizeT ((cap : Int) - 1), full := true }
    else some { o with buf, pos := toSizeT (o.pos + len) }

/-- One call. -/
def apply (o : OutBuf cap) : ShellCall → Option (OutBuf cap)
  | .write str => o.write str
  | .printf text => o.printf text

/-- Any calls, one after another. -/
def run (o : OutBuf cap) : List ShellCall → Option (OutBuf cap)
  | [] => some o
  | c :: calls => (o.apply c).bind fun o => o.run calls

/-- `c_str`. -/
def cStr (o : OutBuf cap) : Buf cap := o.buf

/-- `len`. -/
def len (o : OutBuf cap) : Nat := o.pos

/-- `truncated`. -/
def truncated (o : OutBuf cap) : Bool := o.full

/-- Of `total` the buffer holds as much as leaves room for a NUL, and the NUL; the other two
answers go with that. -/
structure Holds (o : OutBuf cap) (total : Bytes) : Prop where
  text : o.cStr.text (o.len + 1) = total.take (cap - 1) ++ [0]
  /-- A reader of the C string sees that text, up to a NUL of its own. -/
  cstr : o.cStr.cstr = cstr (total.take (cap - 1))
  len : o.len = min total.length (cap - 1)
  truncated : o.truncated = true ↔ cap - 1 < total.length

end OutBuf

/-- Formatting succeeds: the length of the text is an `int`. -/
def ShellCall.Formats : ShellCall → Prop
  | .write _ => True
  | .printf text => ∃ t, text = some t ∧ t.length < 2 ^ 31

/-! ## Both calls stay in the buffer -/

namespace OutBuf

variable {cap : Nat}

/-- The fields of an output whose position is in the buffer. -/
def ofOut (o : ShellOut cap) : OutBuf cap := ⟨o.buf, o.pos, o.full⟩

/-- A text and its NUL, one copy after the other. -/
theorem memcpy_store (o : ShellOut cap) {str : Bytes} (h : o.pos + str.length < cap) :
    ∃ buf, o.buf.memcpy o.pos str = some buf ∧
      buf.memcpy (o.pos + str.length) [0] = some (o.store str h).buf :=
  ⟨_, o.buf.memcpy_eq_write h.le, Buf.memcpy_singleton _ ⟨o.pos + str.length, h⟩ 0⟩

theorem new_eq (buf : Buf cap) (hcap : 0 < cap) : new buf = some (ofOut (.new buf)) := by
  have hnul : buf.memcpy 0 [0] = some (buf.set ⟨0, hcap⟩ 0) := buf.memcpy_singleton ⟨0, hcap⟩ 0
  rw [new, if_pos hcap, hnul, ShellOut.new, dif_pos hcap]
  rfl

/-- The room without the NUL, as `write` counts it. -/
theorem toSizeT_room (o : ShellOut cap) (hcap : 0 < cap) (hsize : cap < 2 ^ 32) :
    toSizeT ((cap : Int) - 1 - o.pos) = cap - 1 - o.pos := by
  have hpos := o.pos_lt hcap
  unfold toSizeT
  omega

/-- The room with the NUL, which `printf` passes on. -/
theorem toSizeT_size (o : ShellOut cap) (hcap : 0 < cap) (hsize : cap < 2 ^ 32) :
    toSizeT ((cap : Int) - o.pos) = cap - o.pos := by
  have hpos := o.pos_lt hcap
  unfold toSizeT
  omega

/-- An output that is not full has room for the NUL. -/
theorem not_full {o : ShellOut cap} (hopen : ¬ (cap = 0 ∨ o.full = true)) : o.full = false := by
  rw [← Bool.not_eq_true]
  exact fun hfull => hopen (.inr hfull)

theorem write_ofOut (o : ShellOut cap) (hcap : 0 < cap) (hsize : cap < 2 ^ 32) (str : Bytes) :
    (ofOut o).write str = some (ofOut (o.write str)) := by
  by_cases hopen : cap = 0 ∨ o.full = true
  · have hsame : o.write str = o := dif_pos hopen
    rw [hsame]
    exact if_pos hopen
  · have hfits := ShellOut.room_of_open hopen str
    have hlen : (if cap - 1 - o.pos < str.length then cap - 1 - o.pos else str.length) =
        (str.take (cap - 1 - o.pos)).length := by
      rw [List.length_take]
      split_ifs <;> omega
    have htake : str.take (str.take (cap - 1 - o.pos)).length = str.take (cap - 1 - o.pos) := by
      rw [List.length_take, ← List.take_eq_take_min]
    have hfull : (if cap - 1 - o.pos < str.length then true else o.full) =
        decide (cap - 1 - o.pos < str.length) := by
      rw [not_full hopen, Bool.if_true_left, Bool.or_false]
    have hend := toSizeT_of_lt (hfits.trans hsize)
    push_cast at hend
    obtain ⟨buf, htext, hnul⟩ := memcpy_store o hfits
    rw [ShellOut.write, dif_neg hopen]
    refine (if_neg hopen).trans ?_
    simp only [ofOut, toSizeT_room o hcap hsize, hlen, htake, htext, hend, hnul, hfull,
      Option.bind_eq_bind, Option.bind_some]
    rfl

/-- `vsnprintf` at the position stores what leaves room for the NUL. -/
theorem vsnprintf_eq (o : ShellOut cap) (text : Bytes) (hcap : 0 < cap)
    (hfits : o.pos + (text.take (cap - 1 - o.pos)).length < cap) :
    vsnprintf o.buf o.pos (cap - o.pos) (some text) =
      some ((o.store (text.take (cap - 1 - o.pos)) hfits).buf, toInt32 text.length) := by
  have hpos := o.pos_lt hcap
  have hroom : cap - o.pos - 1 = cap - 1 - o.pos := by omega
  obtain ⟨buf, htext, hnul⟩ := memcpy_store o hfits
  rw [vsnprintf, if_neg (by omega), hroom]
  simp only [htext, hnul, Option.bind_eq_bind, Option.bind_some]

theorem printf_ofOut (o : ShellOut cap) (hcap : 0 < cap) (hsize : cap < 2 ^ 32) {text : Bytes}
    (hformat : text.length < 2 ^ 31) :
    (ofOut o).printf (some text) = some (ofOut (o.printf (some text))) := by
  by_cases hopen : cap = 0 ∨ o.full = true
  · have hsame : o.printf (some text) = o := dif_pos hopen
    rw [hsame]
    exact if_pos hopen
  · have hfits := ShellOut.room_of_open hopen text
    have hint : toInt32 text.length = text.length := toInt32_of_lt hformat
    have hlen : toSizeT text.length = text.length := toSizeT_of_lt (by omega)
    have hpositive : ¬ (text.length : Int) < 0 := by omega
    rw [ShellOut.printf, dif_neg hopen]
    refine (if_neg hopen).trans ?_
    simp only [ofOut, toSizeT_size o hcap hsize, vsnprintf_eq o text hcap hfits, hint, hlen,
      hpositive, if_false, Option.bind_eq_bind, Option.bind_some]
    split_ifs with hlong
    · -- the text does not fit: `vsnprintf` has filled the buffer
      have hend : toSizeT ((cap : Int) - 1) = o.pos + (text.take (cap - 1 - o.pos)).length := by
        rw [List.length_take]
        unfold toSizeT
        omega
      rw [hend]
      rfl
    · have htake : text.take (cap - 1 - o.pos) = text := List.take_of_length_le (by omega)
      have hend : toSizeT ((o.pos : Int) + text.length) = o.pos + text.length := by
        unfold toSizeT
        omega
      simp only [htake, hend]
      rfl

/-- **Step lemma**: on an output with its position inside the buffer a call does what `ShellOut`
says, with no write past the buffer. -/
theorem ofOut_apply (o : ShellOut cap) (hcap : 0 < cap) (hsize : cap < 2 ^ 32) {c : ShellCall}
    (hformat : c.Formats) : (ofOut o).apply c = some (ofOut (o.apply c)) := by
  cases c with
  | write str => exact write_ofOut o hcap hsize str
  | printf text =>
    obtain ⟨text, rfl, hlen⟩ := hformat
    exact printf_ofOut o hcap hsize hlen

/-- **Run lemma**: any calls do. -/
theorem run_ofOut (hcap : 0 < cap) (hsize : cap < 2 ^ 32) {calls : List ShellCall}
    (hformat : ∀ c ∈ calls, c.Formats) (o : ShellOut cap) :
    (ofOut o).run calls = some (ofOut (o.run calls)) := by
  induction calls generalizing o with
  | nil => rfl
  | cons c calls ih =>
    rw [run, ofOut_apply o hcap hsize (hformat c List.mem_cons_self), Option.bind_some]
    exact ih (fun d hd => hformat d (List.mem_cons_of_mem c hd)) (o.apply c)

end OutBuf

/-! ## The NUL -/

namespace ShellOut

variable {cap : Nat}

/-- There is a NUL behind the text. -/
def Terminated (o : ShellOut cap) : Prop := o.buf.bytes[o.pos]? = some 0

theorem terminated_new (buf : Buf cap) (hcap : 0 < cap) : (new buf).Terminated := by
  rw [new, dif_pos hcap]
  exact buf.getElem?_set_self ⟨0, hcap⟩ 0

theorem terminated_store (o : ShellOut cap) {str : Bytes} (h : o.pos + str.length < cap) :
    (o.store str h).Terminated :=
  Buf.getElem?_set_self _ ⟨o.pos + str.length, h⟩ 0

/-- **Step lemma**: both calls put a NUL behind what they have added. -/
theorem Terminated.apply {o : ShellOut cap} (h : o.Terminated) (c : ShellCall) :
    (o.apply c).Terminated := by
  by_cases hopen : cap = 0 ∨ o.full = true
  · have hsame : o.apply c = o := by
      cases c with
      | write str => exact dif_pos hopen
      | printf text => exact dif_pos hopen
    rwa [hsame]
  · cases c with
    | write str =>
      rw [ShellOut.apply, write, dif_neg hopen]
      exact o.terminated_store (room_of_open hopen str)
    | printf text =>
      rw [ShellOut.apply, printf, dif_neg hopen]
      cases text with
      | none => exact Buf.getElem?_set_self _ _ 0
      | some text =>
        dsimp only
        split_ifs with hlong
        · exact o.terminated_store (room_of_open hopen text)
        · exact o.terminated_store _

/-- **Run lemma**: there is a NUL behind the text after any calls. -/
theorem Terminated.run {o : ShellOut cap} (h : o.Terminated) (calls : List ShellCall) :
    (o.run calls).Terminated := by
  induction calls generalizing o with
  | nil => exact h
  | cons c calls ih => exact ih (h.apply c)

end ShellOut

/-! ## What the buffer holds -/

namespace OutBuf

variable {cap : Nat}

/-- What `ShellOut` shows of a text, with the NUL, is what the buffer holds. -/
theorem holds_ofOut {o : ShellOut cap} {total : Bytes} (hshows : o.Shows total)
    (hnul : o.Terminated) : (ofOut o).Holds total := by
  have htext : o.buf.text (o.pos + 1) = total.take (cap - 1) ++ [0] := by
    rw [← hshows.text, Buf.text, List.take_add_one, hnul]
    rfl
  constructor
  · exact htext
  · exact Buf.cstr_of_text_nul htext
  · exact hshows.pos
  · show o.full = true ↔ _
    rw [hshows.full, decide_eq_true_iff]

end OutBuf

/-- **The whole class**: after any calls on a fresh output, the buffer holds as much of their texts
as there is room for, and no write has missed it. -/
theorem shell_output_exact {cap : Nat} (hcap : 1 ≤ cap) (hsize : cap < 2 ^ 32) (buf : Buf cap)
    (calls : List ShellCall) (hformat : ∀ c ∈ calls, c.Formats) :
    ∃ o, (OutBuf.new buf).bind (fun o => o.run calls) = some o ∧
      o.Holds (calls.flatMap ShellCall.shown) := by
  refine ⟨OutBuf.ofOut ((ShellOut.new buf).run calls), ?_, ?_⟩
  · rw [OutBuf.new_eq buf hcap, Option.bind_some]
    exact OutBuf.run_ofOut hcap hsize hformat _
  · exact OutBuf.holds_ofOut (ShellOut.shown_run buf hcap calls)
      ((ShellOut.terminated_new buf hcap).run calls)

/-- Both ways of appending meet a full buffer: `printf` fills it exactly, and the last `write` has
no room left. -/
theorem shell_output_exact_sample :
    ∃ o, (OutBuf.new (Buf.zero 4)).bind (fun o => o.run
        [.write (ascii "a"), .printf (some (ascii "bc")), .write (ascii "d")]) = some o ∧
      o.Holds (ascii "abcd") := by
  refine shell_output_exact (by decide) (by decide) (Buf.zero 4) _ ?_
  intro c hc
  simp only [List.mem_cons, List.not_mem_nil, or_false] at hc
  obtain rfl | rfl | rfl := hc
  · trivial
  · exact ⟨ascii "bc", rfl, by decide⟩
  · trivial

end SoulCloud
