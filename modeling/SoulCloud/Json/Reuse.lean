import SoulCloud.Json.Buffer

/-!
# A writer on a buffer that was used before

`resp_buf` is written answer after answer and never cleared. Two writers that agree on the
bytes written so far and on their own fields go on writing the same bytes, whatever else their
buffers hold.

- `JsonWriter.Alike`: agreement of two writers, of which `run` is the run lemma.
- `run_new_alike`: a sequence of calls writes the same text into any buffer.
-/

namespace SoulCloud

namespace JsonWriter

variable {cap : Nat} {w v w' v' : JsonWriter cap}

/-- Two writers that cannot be told apart by what is written. -/
structure Alike (w v : JsonWriter cap) : Prop where
  text : w.text = v.text
  overflow : w.overflow = v.overflow
  depth : w.depth = v.depth
  hasItems : w.hasItems = v.hasItems

theorem Alike.pos (h : Alike w v) (hcap : 0 < cap) : w.pos = v.pos := by
  rw [← w.text_length hcap, ← v.text_length hcap, h.text]

theorem Alike.fail (h : Alike w v) : Alike w.fail v.fail := ⟨h.text, rfl, h.depth, h.hasItems⟩

/-- **Step lemma**: putting the same text. -/
theorem Alike.puts (h : Alike w v) (hcap : 0 < cap) {t : Bytes} (hw : Puts w t w')
    (hv : Puts v t v') : Alike w' v' := by
  have hpos := h.pos hcap
  by_cases hfull : w.overflow = true ∨ cap ≤ w.pos + t.length
  · have hfull' : v.overflow = true ∨ cap ≤ v.pos + t.length := by
      rw [← h.overflow, ← hpos]
      exact hfull
    rw [hw.full hfull, hv.full hfull']
    exact h.fail
  · obtain ⟨hok, hroom⟩ := not_or.mp hfull
    have hok : w.overflow = false := Bool.eq_false_iff.mpr hok
    have hroom : w.pos + t.length < cap := Nat.lt_of_not_le hroom
    obtain ⟨htext, -, hover, hdepth, hitems⟩ := hw.fits hok hroom
    obtain ⟨htext', -, hover', hdepth', hitems'⟩ :=
      hv.fits (h.overflow ▸ hok) (hpos ▸ hroom)
    refine ⟨?_, hover.trans hover'.symm, ?_, ?_⟩
    · rw [htext, htext', h.text]
    · rw [hdepth, hdepth', h.depth]
    · rw [hitems, hitems', h.hasItems]

theorem Alike.put (h : Alike w v) (hcap : 0 < cap) (c : UInt8) : Alike (w.put c) (v.put c) :=
  h.puts hcap (w.puts_put c) (v.puts_put c)

theorem Alike.putEscapedLoop (h : Alike w v) (hcap : 0 < cap) (str : Bytes) :
    Alike (w.putEscapedLoop str) (v.putEscapedLoop str) := by
  induction str generalizing w v with
  | nil => exact h
  | cons c rest ih =>
    rw [JsonWriter.putEscapedLoop, JsonWriter.putEscapedLoop, ← h.overflow]
    split
    · exact h
    · exact ih (h.puts hcap (w.puts_putEscapedByte c) (v.puts_putEscapedByte c))

theorem Alike.putEscaped (h : Alike w v) (hcap : 0 < cap) (str : Bytes) :
    Alike (w.putEscaped str) (v.putEscaped str) :=
  ((h.put hcap 34).putEscapedLoop hcap str).put hcap 34

theorem Alike.putHexLoop (h : Alike w v) (hcap : 0 < cap) (bytes : Bytes) :
    Alike (w.putHexLoop bytes) (v.putHexLoop bytes) := by
  induction bytes generalizing w v with
  | nil => exact h
  | cons c rest ih =>
    rw [JsonWriter.putHexLoop, JsonWriter.putHexLoop, ← h.overflow]
    split
    · exact h
    · exact ih ((h.put hcap _).put hcap _)

theorem Alike.beginValue (h : Alike w v) (hcap : 0 < cap) (key : Option Bytes) :
    Alike (w.beginValue key) (v.beginValue key) := by
  have hbit : w.depthBit = v.depthBit := by
    rw [depthBit, depthBit, h.depth]
  have hcomma : Alike (if w.hasItems &&& w.depthBit ≠ 0 then w.put 44 else w)
      (if v.hasItems &&& v.depthBit ≠ 0 then v.put 44 else v) := by
    rw [← hbit, ← h.hasItems]
    split
    · exact h.put hcap 44
    · exact h
  have hsep : Alike
      (if 0 < w.depth then
        { (if w.hasItems &&& w.depthBit ≠ 0 then w.put 44 else w) with
          hasItems := w.hasItems ||| w.depthBit }
      else w)
      (if 0 < v.depth then
        { (if v.hasItems &&& v.depthBit ≠ 0 then v.put 44 else v) with
          hasItems := v.hasItems ||| v.depthBit }
      else v) := by
    by_cases hdepth : 0 < w.depth
    · have hdepth' : 0 < v.depth := h.depth ▸ hdepth
      rw [if_pos hdepth, if_pos hdepth']
      refine ⟨hcomma.text, hcomma.overflow, hcomma.depth, ?_⟩
      show w.hasItems ||| w.depthBit = v.hasItems ||| v.depthBit
      rw [hbit, h.hasItems]
    · have hdepth' : ¬ 0 < v.depth := h.depth ▸ hdepth
      rw [if_neg hdepth, if_neg hdepth']
      exact h
  cases key with
  | none => exact hsep
  | some key => exact (hsep.putEscaped hcap key).put hcap 58

theorem Alike.beginContainer (h : Alike w v) (hcap : 0 < cap) (bracket : UInt8)
    (key : Option Bytes) :
    Alike (w.beginContainer bracket key) (v.beginContainer bracket key) := by
  have hput := (h.beginValue hcap key).put hcap bracket
  unfold JsonWriter.beginContainer
  generalize (w.beginValue key).put bracket = w₁ at hput ⊢
  generalize (v.beginValue key).put bracket = v₁ at hput ⊢
  dsimp only
  rw [← hput.depth, ← hput.hasItems]
  split
  · exact hput.fail
  · exact ⟨hput.text, hput.overflow, rfl, rfl⟩

theorem Alike.endContainer (h : Alike w v) (hcap : 0 < cap) (bracket : UInt8) :
    Alike (w.endContainer bracket) (v.endContainer bracket) := by
  have hput := h.put hcap bracket
  exact ⟨hput.text, hput.overflow, congrArg (· - 1) hput.depth, hput.hasItems⟩

theorem Alike.addRaw (h : Alike w v) (hcap : 0 < cap) (key : Option Bytes) (text : Bytes) :
    Alike (w.addRaw key text) (v.addRaw key text) :=
  (h.beginValue hcap key).puts hcap (puts_putText _ text) (puts_putText _ text)

theorem Alike.addStrLen (h : Alike w v) (hcap : 0 < cap) (key : Option Bytes) (value : Bytes) :
    Alike (w.addStrLen key value) (v.addStrLen key value) :=
  (h.beginValue hcap key).putEscaped hcap value

/-- Resetting leaves nothing of what was written. -/
theorem alike_reset (w v : JsonWriter cap) : Alike w.reset v.reset := ⟨rfl, rfl, rfl, rfl⟩

/-- **Step lemma**: any call. -/
theorem Alike.apply (h : Alike w v) (hcap : 0 < cap) (c : WriterCall) :
    Alike (w.apply c) (v.apply c) := by
  cases c with
  | beginObject key | beginArray key => exact h.beginContainer hcap _ key
  | endObject | endArray => exact h.endContainer hcap _
  | addStr key value =>
    cases value with
    | none => exact h.addRaw hcap key _
    | some value => exact h.addStrLen hcap key value
  | addStrLen key value => exact h.addStrLen hcap key value
  | addFmt key text =>
    cases text with
    | none => exact h.fail
    | some text => exact h.addStrLen hcap key _
  | addInt key value | addUint key value | addBool key value | addNull key =>
    exact h.addRaw hcap key _
  | addHex key bytes =>
    exact (((h.beginValue hcap key).put hcap 34).putHexLoop hcap bytes).put hcap 34
  | reset => exact w.alike_reset v

/-- **Run lemma**: any sequence of calls. -/
theorem Alike.run (h : Alike w v) (hcap : 0 < cap) (calls : List WriterCall) :
    Alike (w.run calls) (v.run calls) := by
  induction calls generalizing w v with
  | nil => exact h
  | cons c calls ih => exact ih (h.apply hcap c)

/-- **A buffer can be used again**: the same calls write the same text, and stop at the same
one, whatever the buffer held. -/
theorem run_new_alike (hcap : 0 < cap) (buf buf' : Buf cap) (calls : List WriterCall) :
    Alike ((new buf).run calls) ((new buf').run calls) :=
  (alike_reset _ _).run hcap calls

end JsonWriter

end SoulCloud
