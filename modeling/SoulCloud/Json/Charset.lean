import Mathlib.Data.List.DropRight
import SoulCloud.Json.Text
import SoulCloud.Lib.Utf8

/-!
# UTF-8 through the writer

The writer escapes the ASCII characters that a JSON string must not hold and copies every other
byte as it is. So it makes valid text of valid strings, unless it cuts one: `add_fmt` does, at
127 bytes, and so does a buffer that is full, at any byte.

- `WriterCall.strings`, `WriterCall.formatted`: the strings of a call, and the one it may cut.
- `valid_run`: the text of any calls with valid strings is valid exactly if no formatted value
  is cut inside a character.
- `fitting`: how many bytes of a string get into a buffer.
- `valid_putEscaped`: a string that is cut off by the end of the buffer.
-/

namespace SoulCloud

open Bytes Utf8

/-! ## Strings -/

/-- Escaping leaves everything but ASCII characters alone. -/
theorem valid_escaped {s : Bytes} : Valid (s.flatMap JsonText.escape) ↔ Valid s := by
  refine valid_flatMap_iff ?_ ?_
  · have hall : ∀ n < 128, JsonText.escape (UInt8.ofNat n) ≠ [] ∧
        Ascii (JsonText.escape (UInt8.ofNat n)) := by decide
    intro c hc
    exact of_forall_ofNat (p := fun c => JsonText.escape c ≠ [] ∧ Ascii (JsonText.escape c)) hall hc
  · intro c hc
    have hne : ∀ d : UInt8, d < 128 → c ≠ d := by
      rintro d hd rfl
      exact hc hd
    have hctl : ¬ c < 32 := fun h => hc (UInt8.lt_trans h (by decide))
    rw [JsonText.escape]
    rw [if_neg (hne 34 (by decide)), if_neg (hne 92 (by decide)), if_neg (hne 10 (by decide)),
      if_neg (hne 13 (by decide)), if_neg (hne 9 (by decide)), if_neg hctl]

/-- A JSON string behind a text. -/
theorem valid_append_quoted {a s : Bytes} :
    Valid (a ++ JsonText.quoted s) ↔ Valid a ∧ Valid s := by
  have hsplit : a ++ JsonText.quoted s = (a ++ 34 :: s.flatMap JsonText.escape) ++ [34] := by
    rw [JsonText.quoted]
    simp
  rw [hsplit, valid_append_ascii (by decide), valid_append_cons (by decide), valid_escaped]

theorem ascii_decimal (n : Nat) : Ascii (decimal n) :=
  fun _ hc => Nat.lt_of_le_of_lt (decimal_digit hc).2 (by decide)

theorem ascii_decimalInt (i : Int) : Ascii (decimalInt i) := by
  rw [decimalInt]
  split_ifs
  · intro c hc
    rcases List.mem_cons.mp hc with rfl | hc
    · decide
    · exact ascii_decimal _ c hc
  · exact ascii_decimal _

theorem ascii_hexLower (b : Bytes) : Ascii (hexLower b) := by
  have hdigit : ∀ d : UInt8, d.toNat < 16 → hexDigit d < 128 := by
    intro d hd
    refine of_forall_ofNat (p := fun d => hexDigit d < 128) ?_ hd
    decide
  intro c hc
  obtain ⟨x, -, hx⟩ := List.mem_flatMap.mp hc
  rcases List.mem_pair.mp hx with rfl | rfl
  · exact hdigit _ (high_lt x)
  · exact hdigit _ (low_lt x)

/-! ## The strings of a call -/

namespace WriterCall

/-- The strings that the caller gives: the key, and the whole text of a value. -/
def strings : WriterCall → List Bytes
  | .beginObject key | .beginArray key | .addInt key _ | .addUint key _ | .addBool key _
  | .addNull key | .addHex key _ => key.toList
  | .endObject | .endArray | .reset => []
  | .addStr key value => key.toList ++ value.toList
  | .addStrLen key value => key.toList ++ [value]
  | .addFmt key text => key.toList ++ text.toList

/-- The text that `add_fmt` formats into its `char[128]`. -/
def formatted : WriterCall → Option Bytes
  | .addFmt _ text => text
  | _ => none

def isReset : WriterCall → Bool
  | .reset => true
  | _ => false

end WriterCall

/-- The calls whose text is not wiped by a later `reset`. -/
def sinceReset (calls : List WriterCall) : List WriterCall :=
  calls.rtakeWhile fun c => !c.isReset

namespace JsonText

variable {i : JsonText} {key : Option Bytes}

theorem valid_beginValue (hkey : ∀ k ∈ key, Valid k) :
    Valid (i.beginValue key).text ↔ Valid i.text := by
  have hcomma : Valid (if 0 < i.depth then (if i.filled i.depth then i.append [44] else i).mark
      else i).text ↔ Valid i.text := by
    split_ifs
    · exact valid_append_ascii (by decide)
    · exact Iff.rfl
    · exact Iff.rfl
  cases key with
  | none => exact hcomma
  | some k =>
    rw [beginValue]
    rw [append, append]
    rw [valid_append_ascii (by decide), valid_append_quoted, hcomma]
    exact and_iff_left (hkey k rfl)

/-- A value in ASCII. -/
theorem valid_addRaw {t : Bytes} (hkey : ∀ k ∈ key, Valid k) (ht : Ascii t) :
    Valid (i.addRaw key t).text ↔ Valid i.text := by
  rw [addRaw, append]
  rw [valid_append_ascii ht, valid_beginValue hkey]

/-- A value that is a string. -/
theorem valid_addQuoted {s : Bytes} (hkey : ∀ k ∈ key, Valid k) :
    Valid (i.addRaw key (quoted s)).text ↔ Valid i.text ∧ Valid s := by
  rw [addRaw, append]
  rw [valid_append_quoted, valid_beginValue hkey]

theorem valid_beginContainer {bracket : UInt8} (hkey : ∀ k ∈ key, Valid k)
    (hbracket : bracket < 128) : Valid (i.beginContainer bracket key).text ↔ Valid i.text := by
  show Valid ((i.beginValue key).text ++ [bracket]) ↔ _
  rw [valid_append_cons hbracket, valid_beginValue hkey]
  exact and_iff_left valid_nil

/-- **Step lemma**: one call with valid strings keeps a text valid, unless it cuts a formatted
value inside a character. -/
theorem valid_apply {c : WriterCall} (hc : c.isReset = false) (hs : ∀ t ∈ c.strings, Valid t) :
    Valid (i.apply c).text ↔ Valid i.text ∧ ∀ t ∈ c.formatted, Boundary 127 t := by
  -- Only `add_fmt` cuts a string.
  have hplain : ∀ {j : JsonText}, (Valid j.text ↔ Valid i.text) →
      (Valid j.text ↔ Valid i.text ∧ ∀ t ∈ (none : Option Bytes), Boundary 127 t) :=
    fun hj => hj.trans (and_iff_left nofun).symm
  have hkeys : ∀ {key : Option Bytes}, key.toList ⊆ c.strings → ∀ k ∈ key, Valid k :=
    fun hsub k hk => hs k (hsub (Option.mem_toList.mpr hk))
  cases c with
  | beginObject key | beginArray key =>
    exact hplain (valid_beginContainer (hkeys fun _ h => h) (by decide))
  | endObject | endArray => exact hplain (valid_append_ascii (by decide))
  | addStr key value =>
    have hkey := hkeys (List.subset_append_left key.toList value.toList)
    cases value with
    | none => exact hplain (valid_addRaw hkey (by decide))
    | some value =>
      have hvalue : Valid value := hs value (List.mem_append_right _ List.mem_cons_self)
      exact hplain ((valid_addQuoted hkey).trans (and_iff_left hvalue))
  | addStrLen key value =>
    have hvalue : Valid value := hs value (List.mem_append_right _ List.mem_cons_self)
    exact hplain ((valid_addQuoted (hkeys (List.subset_append_left _ _))).trans
      (and_iff_left hvalue))
  | addFmt key text =>
    have hkey := hkeys (List.subset_append_left key.toList text.toList)
    cases text with
    | none => exact hplain Iff.rfl
    | some text =>
      have htext : Valid text := hs text (List.mem_append_right _ List.mem_cons_self)
      refine (valid_addQuoted hkey).trans (and_congr_right fun _ => ?_)
      rw [snprintf, valid_take_iff htext]
      exact ⟨fun h t ht => Option.some.inj ht ▸ h, fun h => h text rfl⟩
  | addInt key value => exact hplain (valid_addRaw (hkeys fun _ h => h) (ascii_decimalInt value))
  | addUint key value => exact hplain (valid_addRaw (hkeys fun _ h => h) (ascii_decimal value))
  | addBool key value =>
    exact hplain (valid_addRaw (hkeys fun _ h => h) (by cases value <;> decide))
  | addNull key => exact hplain (valid_addRaw (hkeys fun _ h => h) (by decide))
  | addHex key bytes =>
    have hhex : Ascii ([34] ++ hexLower bytes ++ [34]) :=
      Ascii.append (Ascii.append (by decide) (ascii_hexLower bytes)) (by decide)
    exact hplain (valid_addRaw (hkeys fun _ h => h) hhex)
  | reset => cases hc

/-- **Run lemma**: the text of any calls with valid strings is valid exactly if none of the
formatted values that are left in it is cut inside a character. -/
theorem valid_run {calls : List WriterCall} (hi : Valid i.text)
    (hs : ∀ c ∈ calls, ∀ t ∈ c.strings, Valid t) :
    Valid (i.run calls).text ↔
      ∀ c ∈ sinceReset calls, ∀ t ∈ c.formatted, Boundary 127 t := by
  induction calls using List.reverseRecOn with
  | nil => exact ⟨fun _ => nofun, fun _ => hi⟩
  | append_singleton calls c ih =>
    have hsplit : i.run (calls ++ [c]) = (i.run calls).apply c := by
      rw [run, run]
      rw [List.foldl_append]
      rfl
    rw [hsplit, sinceReset, List.rtakeWhile_concat]
    cases hc : c.isReset with
    | true =>
      cases c <;> cases hc
      exact ⟨fun _ => nofun, fun _ => valid_nil⟩
    | false =>
      have hbefore := ih fun d hd => hs d (List.mem_append_left _ hd)
      have hlast : ∀ t ∈ c.strings, Valid t := hs c (List.mem_append_right _ List.mem_cons_self)
      rw [valid_apply hc hlast, hbefore, Bool.not_false, if_pos rfl, List.forall_mem_append]
      simp only [List.forall_mem_singleton]
      rfl

end JsonText

/-! ## A full buffer -/

/-- How many bytes of a string `put_escaped` gets into `room` bytes. -/
def fitting : Nat → Bytes → Nat
  | _, [] => 0
  | room, c :: rest =>
    if (JsonText.escape c).length ≤ room then
      fitting (room - (JsonText.escape c).length) rest + 1
    else 0

theorem fitting_le (room : Nat) (s : Bytes) : fitting room s ≤ s.length := by
  induction s generalizing room with
  | nil => exact Nat.le_refl 0
  | cons c rest ih =>
    rw [fitting]
    split_ifs
    · exact Nat.succ_le_succ (ih _)
    · exact Nat.zero_le _

namespace JsonWriter

variable {cap : Nat} {w w' : JsonWriter cap}

/-- Putting ASCII does not change whether a text is valid. -/
theorem Puts.valid {t : Bytes} (h : Puts w t w') (ht : Ascii t) :
    Valid w'.text ↔ Valid w.text := by
  by_cases hstop : w.overflow = true ∨ cap ≤ w.pos + t.length
  · rw [h.full hstop]
    rfl
  · rw [not_or, Bool.not_eq_true, Nat.not_le] at hstop
    obtain ⟨htext, -⟩ := h.fits hstop.1 hstop.2
    rw [htext, valid_append_ascii ht]

/-- The loop of `put_escaped` puts as many bytes as fit. -/
theorem putEscapedLoop_text (hcap : 0 < cap) (hok : w.overflow = false) (s : Bytes) :
    (w.putEscapedLoop s).text =
      w.text ++ (s.take (fitting (cap - 1 - w.pos) s)).flatMap JsonText.escape := by
  induction s generalizing w with
  | nil => exact (List.append_nil _).symm
  | cons c rest ih =>
    have hpos := w.pos_lt hcap
    have hputs := puts_putEscapedByte w c
    rw [putEscapedLoop, fitting, if_neg (by rw [hok]; nofun)]
    by_cases hfit : (JsonText.escape c).length ≤ cap - 1 - w.pos
    · obtain ⟨htext, -, hok', -⟩ := hputs.fits hok (by omega)
      have hpos' : (w.putEscapedByte c).pos = w.pos + (JsonText.escape c).length := by
        rw [← text_length _ hcap, htext, List.length_append, text_length _ hcap]
      rw [ih hok', htext, hpos', if_pos hfit, List.take_succ_cons, List.flatMap_cons,
        List.append_assoc, ← Nat.sub_sub]
    · -- The byte does not fit, and what follows is not looked at.
      have hfull : w.putEscapedByte c = w.fail := hputs.full (.inr (by omega))
      have hloop : w.fail.putEscapedLoop rest = w.fail := by
        cases rest with
        | nil => rfl
        | cons d rest => exact if_pos rfl
      rw [hfull, hloop, if_neg hfit]
      exact (List.append_nil _).symm

/-- A string that may be cut off by the end of the buffer. -/
theorem valid_putEscaped (hok : w.overflow = false) (hroom : w.pos + 1 < cap) (s : Bytes) :
    Valid (w.putEscaped s).text ↔
      Valid w.text ∧ Valid (s.take (fitting (cap - 2 - w.pos) s)) := by
  have hcap : 0 < cap := by omega
  obtain ⟨htext, -, hok', -⟩ := (puts_put w 34).fits hok hroom
  have hpos' : (w.put 34).pos = w.pos + 1 := by
    rw [← text_length _ hcap, htext, List.length_append, text_length _ hcap]
    rfl
  have hrest : cap - 1 - (w.pos + 1) = cap - 2 - w.pos := by omega
  rw [putEscaped, (puts_put _ 34).valid (by decide), putEscapedLoop_text hcap hok', hpos', hrest,
    htext, List.append_assoc, List.singleton_append, valid_append_cons (by decide), valid_escaped]

end JsonWriter

end SoulCloud
