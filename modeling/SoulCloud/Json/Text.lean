import SoulCloud.Json.Writer

/-!
# What a writer's calls stand for

`JsonText` is the writer without limits: it appends to a text of any length and
nests to any depth. `Renders w i` relates the two after the same calls:

- the buffer holds a prefix of the ideal text, NUL-terminated at `len()`;
- the writer is ok exactly while the ideal text is shorter than the buffer and no
  call was refused, and then it holds the whole text.

`renders_run` proves it for every sequence of calls, by one lemma for each `put` and
one for each change of the nesting (`JsonWriter.mark`, `beginContainer`,
`endContainer`).
-/

namespace SoulCloud

open Bytes

/-- The writer without limits. -/
structure JsonText where
  text : Bytes
  depth : Nat
  /-- The container at this depth already holds a value. -/
  filled : Nat → Bool
  /-- A container was begun at the largest depth, or a formatting failed. -/
  refused : Bool

namespace JsonText

def empty : JsonText := ⟨[], 0, fun _ => false, false⟩

def append (i : JsonText) (t : Bytes) : JsonText := { i with text := i.text ++ t }

theorem append_nil (i : JsonText) : i.append [] = i := by
  rw [append]
  rw [List.append_nil]

theorem append_append (i : JsonText) (t u : Bytes) :
    (i.append t).append u = i.append (t ++ u) := by
  unfold append
  rw [List.append_assoc]

/-- A byte inside a JSON string. -/
def escape (c : UInt8) : Bytes :=
  if c = 34 then [92, 34]
  else if c = 92 then [92, 92]
  else if c = 10 then ascii "\\n"
  else if c = 13 then ascii "\\r"
  else if c = 9 then ascii "\\t"
  else if c < 32 then ascii "\\u00" ++ [hexDigit (c >>> 4), hexDigit (c &&& 15)]
  else [c]

/-- A JSON string. -/
def quoted (str : Bytes) : Bytes := [34] ++ str.flatMap escape ++ [34]

/-- The container at the present depth holds a value from now on. -/
def mark (i : JsonText) : JsonText :=
  { i with filled := Function.update i.filled i.depth true }

/-- What precedes a value: a comma after the first one, and the key. -/
def beginValue (i : JsonText) (key : Option Bytes) : JsonText :=
  let i :=
    if 0 < i.depth then (if i.filled i.depth then i.append [44] else i).mark
    else i
  match key with
  | some key => (i.append (quoted key)).append [58]
  | none => i

def beginContainer (i : JsonText) (bracket : UInt8) (key : Option Bytes) : JsonText :=
  let i := (i.beginValue key).append [bracket]
  { i with
    depth := i.depth + 1
    filled := Function.update i.filled (i.depth + 1) false
    refused := i.refused || decide (maxDepth ≤ i.depth) }

def endContainer (i : JsonText) (bracket : UInt8) : JsonText :=
  { i.append [bracket] with depth := i.depth - 1 }

def addRaw (i : JsonText) (key : Option Bytes) (text : Bytes) : JsonText :=
  (i.beginValue key).append text

/-- One call. -/
def apply (i : JsonText) : WriterCall → JsonText
  | .beginObject key => i.beginContainer 123 key
  | .endObject => i.endContainer 125
  | .beginArray key => i.beginContainer 91 key
  | .endArray => i.endContainer 93
  | .addStr key none => i.addRaw key (ascii "null")
  | .addStr key (some value) => i.addRaw key (quoted value)
  | .addStrLen key value => i.addRaw key (quoted value)
  | .addFmt _ none => { i with refused := true }
  | .addFmt key (some text) => i.addRaw key (quoted (snprintf 128 text))
  | .addInt key value => i.addRaw key (decimalInt value)
  | .addUint key value => i.addRaw key (decimal value)
  | .addBool key value => i.addRaw key (if value then ascii "true" else ascii "false")
  | .addNull key => i.addRaw key (ascii "null")
  | .addHex key bytes => i.addRaw key ([34] ++ hexLower bytes ++ [34])
  | .reset => empty

/-- A sequence of calls. -/
def run (i : JsonText) (calls : List WriterCall) : JsonText := calls.foldl apply i

end JsonText

namespace JsonWriter

variable {cap : Nat} {w w' : JsonWriter cap} {i i' : JsonText}

/-- The writer `w` is what a buffer of `cap` bytes leaves of `i`. -/
structure Renders (w : JsonWriter cap) (i : JsonText) : Prop where
  nul : w.buf.bytes[w.pos]? = some 0
  text : w.text <+: i.text
  ok : w.overflow = false ↔ i.text.length < cap ∧ i.refused = false
  whole : w.overflow = false → w.text = i.text
  depth : w.overflow = false → w.depth = i.depth ∧ i.depth ≤ maxDepth
  items : w.overflow = false → ∀ n, 1 ≤ n → n ≤ maxDepth → w.hasItems.getLsbD n = i.filled n

/-! ## Putting text -/

/-- What a `put` of `t` does: nothing but stop when the writer has stopped or `t` and the
NUL do not fit, and else append `t`. -/
structure Puts (w : JsonWriter cap) (t : Bytes) (w' : JsonWriter cap) : Prop where
  full : w.overflow = true ∨ cap ≤ w.pos + t.length → w' = w.fail
  fits : w.overflow = false → w.pos + t.length < cap →
    w'.text = w.text ++ t ∧ w'.buf.bytes[w'.pos]? = some 0 ∧ w'.overflow = false ∧
      w'.depth = w.depth ∧ w'.hasItems = w.hasItems

theorem puts_putText (w : JsonWriter cap) (t : Bytes) : Puts w t (w.putText t) := by
  rw [putText]
  constructor
  · intro h
    rw [dif_pos h]
  · intro hok hlt
    have h : ¬ (w.overflow = true ∨ cap ≤ w.pos + t.length) := by
      rw [hok]
      simp
      omega
    rw [dif_neg h]
    refine ⟨?_, Buf.getElem?_set_self _ _ _, hok, rfl, rfl⟩
    show (Buf.set _ _ _).text (w.pos + t.length) = _
    rw [Buf.text_set_of_le _ _ (Nat.le_refl _), Buf.text_write]
    rfl

theorem puts_put (w : JsonWriter cap) (c : UInt8) : Puts w [c] (w.put c) := by
  rw [put]
  constructor
  · intro h
    exact dif_pos h
  · intro hok hlt
    have hlt : w.pos + 1 < cap := hlt
    have h : ¬ (w.overflow = true ∨ cap ≤ w.pos + 1) := by
      rw [hok]
      simp
      omega
    rw [dif_neg h]
    refine ⟨?_, Buf.getElem?_set_self _ _ _, hok, rfl, rfl⟩
    show (Buf.set _ _ _).text (w.pos + 1) = _
    rw [Buf.text_set_of_le _ _ (Nat.le_refl _)]
    exact w.buf.text_set_self ⟨w.pos, by omega⟩ c

theorem puts_putEscapedByte (w : JsonWriter cap) (c : UInt8) :
    Puts w (JsonText.escape c) (w.putEscapedByte c) := by
  rw [putEscapedByte, JsonText.escape]
  repeat' split
  all_goals first
    | exact w.puts_putText _
    | exact w.puts_put c

theorem text_length (w : JsonWriter cap) (hcap : 0 < cap) : w.text.length = w.pos := by
  have := w.pos_lt hcap
  rw [text, Buf.text]
  rw [List.length_take, w.buf.size]
  omega

/-- A writer that has stopped stays stopped, whatever the text it should have written. -/
theorem Renders.of_stopped (h : Renders w i) (hstop : w.overflow = true) (hbuf : w'.buf = w.buf)
    (hpos : w'.pos = w.pos) (hstop' : w'.overflow = true) (htext : i.text <+: i'.text)
    (href : i'.refused = false → i.refused = false) : Renders w' i' := by
  have htext' : w'.text = w.text := by
    unfold JsonWriter.text
    rw [hbuf, hpos]
  have hno : ¬ (i'.text.length < cap ∧ i'.refused = false) := by
    rintro ⟨hlen, hr⟩
    have hok := h.ok.mpr ⟨Nat.lt_of_le_of_lt htext.length_le hlen, href hr⟩
    rw [hstop] at hok
    cases hok
  refine ⟨?_, ?_, ?_, ?_, ?_, ?_⟩
  · rw [hbuf, hpos]
    exact h.nul
  · rw [htext']
    exact h.text.trans htext
  · rw [hstop']
    exact ⟨nofun, fun hok => absurd hok hno⟩
  all_goals
    intro hok
    rw [hstop'] at hok
    cases hok

/-- A `put` follows the ideal text. -/
theorem Renders.puts (h : Renders w i) (hcap : 0 < cap) {t : Bytes} (hput : Puts w t w') :
    Renders w' (i.append t) := by
  have hlen := w.text_length hcap
  cases hok : w.overflow with
  | true =>
    obtain rfl := hput.full (.inl hok)
    exact h.of_stopped hok rfl rfl rfl (List.prefix_append _ _) id
  | false =>
    have hwhole := h.whole hok
    have hrefused := (h.ok.mp hok).2
    have htextlen : (i.append t).text.length = w.pos + t.length := by
      show (i.text ++ t).length = _
      rw [List.length_append, ← hwhole, hlen]
    by_cases hfit : w.pos + t.length < cap
    · obtain ⟨htext, hnul, hok', hdepth, hitems⟩ := hput.fits hok hfit
      have heq : w'.text = (i.append t).text := by
        rw [htext, hwhole]
        rfl
      refine ⟨hnul, ?_, ?_, fun _ => heq, ?_, ?_⟩
      · rw [heq]
      · rw [htextlen]
        exact ⟨fun _ => ⟨hfit, hrefused⟩, fun _ => hok'⟩
      · intro _
        rw [hdepth]
        exact h.depth hok
      · intro _
        rw [hitems]
        exact h.items hok
    · -- The writer stops here with what it has, a prefix of the ideal text.
      obtain rfl := hput.full (.inr (by omega))
      refine ⟨h.nul, ?_, ?_, nofun, nofun, nofun⟩
      · exact h.text.trans (List.prefix_append _ _)
      · rw [htextlen]
        refine ⟨nofun, ?_⟩
        rintro ⟨hlt, -⟩
        exact absurd hlt hfit

/-- A loop that puts one piece for each byte and ends early once the writer has stopped. -/
theorem Renders.loop {loop : JsonWriter cap → Bytes → JsonWriter cap}
    {piece : UInt8 → Bytes} (hnil : ∀ w, loop w [] = w)
    (hcons : ∀ w i c rest, Renders w i → ∃ w', Renders w' (i.append (piece c)) ∧
      loop w (c :: rest) = if w.overflow then w else loop w' rest)
    {str : Bytes} (h : Renders w i) : Renders (loop w str) (i.append (str.flatMap piece)) := by
  induction str generalizing w i with
  | nil =>
    rw [hnil, List.flatMap_nil, JsonText.append_nil]
    exact h
  | cons c rest ih =>
    obtain ⟨w', hw', heq⟩ := hcons w i c rest h
    rw [heq, List.flatMap_cons, ← JsonText.append_append]
    cases hok : w.overflow with
    | true =>
      -- The loop ends here; the rest of the string is in the ideal text only.
      rw [if_pos rfl]
      refine h.of_stopped hok rfl rfl hok ?_ id
      exact (List.prefix_append _ _).trans (List.prefix_append _ _)
    | false => exact ih hw'

theorem Renders.putEscaped (h : Renders w i) (hcap : 0 < cap) (str : Bytes) :
    Renders (w.putEscaped str) (i.append (JsonText.quoted str)) := by
  have hopen := h.puts hcap (w.puts_put 34)
  have hbody : Renders ((w.put 34).putEscapedLoop str)
      ((i.append [34]).append (str.flatMap JsonText.escape)) := hopen.loop (fun _ => rfl)
    (fun w i c rest hw => ⟨w.putEscapedByte c, hw.puts hcap (w.puts_putEscapedByte c), rfl⟩)
  rw [JsonText.quoted, ← JsonText.append_append, ← JsonText.append_append]
  exact hbody.puts hcap (puts_put _ 34)

theorem Renders.putHex (h : Renders w i) (hcap : 0 < cap) (bytes : Bytes) :
    Renders (((w.put 34).putHexLoop bytes).put 34) (i.append ([34] ++ hexLower bytes ++ [34])) := by
  have hopen := h.puts hcap (w.puts_put 34)
  have hbody : Renders ((w.put 34).putHexLoop bytes)
      ((i.append [34]).append (hexLower bytes)) := by
    refine hopen.loop (fun _ => rfl) ?_
    intro w i c rest hw
    refine ⟨(w.put (hexDigit (c >>> 4))).put (hexDigit (c &&& 15)), ?_, rfl⟩
    have hhigh := hw.puts hcap (w.puts_put (hexDigit (c >>> 4)))
    have hboth := hhigh.puts hcap (puts_put _ (hexDigit (c &&& 15)))
    rw [JsonText.append_append] at hboth
    exact hboth
  rw [← JsonText.append_append, ← JsonText.append_append]
  exact hbody.puts hcap (puts_put _ 34)

/-! ## Nesting -/

theorem getLsbD_bit {d : Nat} (hd : d ≤ maxDepth) (n : Nat) :
    (1#32 <<< d).getLsbD n = decide (n = d) := by
  rw [maxDepth] at hd
  rw [BitVec.getLsbD_shiftLeft, BitVec.getLsbD_one]
  by_cases h : n = d
  · simp [h]
    omega
  · simp [h]
    omega

/-- Testing one bit. -/
theorem and_bit_ne_zero {x : BitVec 32} {d : Nat} (hd : d ≤ maxDepth) :
    x &&& (1#32 <<< d) ≠ 0 ↔ x.getLsbD d = true := by
  rw [← not_iff_not, not_not, Bool.not_eq_true]
  constructor
  · intro h
    have hbit := congrArg (BitVec.getLsbD · d) h
    simpa [getLsbD_bit hd] using hbit
  · intro h
    refine BitVec.eq_of_getLsbD_eq ?_
    intro n _
    rw [BitVec.getLsbD_and, getLsbD_bit hd]
    by_cases hnd : n = d
    · simp [hnd, h]
    · simp [hnd]

/-- Marking the present container as holding a value. -/
theorem Renders.mark (h : Renders w i) :
    Renders { w with hasItems := w.hasItems ||| w.depthBit } i.mark := by
  refine ⟨h.nul, h.text, h.ok, h.whole, h.depth, ?_⟩
  intro hok n hn hle
  obtain ⟨hd, hmax⟩ := h.depth hok
  show (w.hasItems ||| w.depthBit).getLsbD n = Function.update i.filled i.depth true n
  rw [BitVec.getLsbD_or, h.items hok n hn hle]
  rw [depthBit]
  rw [hd, getLsbD_bit hmax]
  by_cases hnd : n = i.depth
  · rw [hnd, Function.update_self]
    simp
  · rw [Function.update_of_ne hnd]
    simp [hnd]

@[simp] theorem put_depth (w : JsonWriter cap) (c : UInt8) : (w.put c).depth = w.depth := by
  rw [put]
  split <;> rfl

@[simp] theorem put_hasItems (w : JsonWriter cap) (c : UInt8) :
    (w.put c).hasItems = w.hasItems := by
  rw [put]
  split <;> rfl

theorem put_of_stopped (h : w.overflow = true) (c : UInt8) : w.put c = w.fail :=
  (w.puts_put c).full (.inl h)

/-- The comma before a value that is not the first of its container. -/
theorem Renders.comma (h : Renders w i) (hcap : 0 < cap) (hok : w.overflow = false)
    (hpos : 0 < i.depth) :
    Renders { (if w.hasItems &&& w.depthBit ≠ 0 then w.put 44 else w) with
      hasItems := w.hasItems ||| w.depthBit }
      (if i.filled i.depth then i.append [44] else i).mark := by
  obtain ⟨hd, hmax⟩ := h.depth hok
  have hbit : w.hasItems &&& w.depthBit ≠ 0 ↔ i.filled i.depth = true := by
    rw [depthBit]
    rw [hd, and_bit_ne_zero hmax, h.items hok _ hpos hmax]
  by_cases hfilled : i.filled i.depth = true
  · rw [if_pos (hbit.mpr hfilled), if_pos hfilled]
    have hmark := (h.puts hcap (w.puts_put 44)).mark
    have hbits : (w.put 44).hasItems ||| (w.put 44).depthBit = w.hasItems ||| w.depthBit := by
      rw [depthBit, depthBit, put_hasItems, put_depth]
    rw [hbits] at hmark
    exact hmark
  · rw [if_neg (mt hbit.mp hfilled), if_neg hfilled]
    exact h.mark

/-- What separates a value from the one before it. -/
theorem Renders.separator (h : Renders w i) (hcap : 0 < cap) :
    Renders
      (if 0 < w.depth then
        { (if w.hasItems &&& w.depthBit ≠ 0 then w.put 44 else w) with
          hasItems := w.hasItems ||| w.depthBit }
      else w)
      (if 0 < i.depth then (if i.filled i.depth then i.append [44] else i).mark else i) := by
  cases hok : w.overflow with
  | true =>
    -- The depths may differ by now: a stopped writer writes nothing at any depth.
    have htext : i.text <+:
        (if 0 < i.depth then (if i.filled i.depth then i.append [44] else i).mark else i).text := by
      split
      · show i.text <+: (if i.filled i.depth then i.append [44] else i).text
        split
        · exact List.prefix_append _ _
        · exact List.prefix_refl _
      · exact List.prefix_refl _
    refine h.of_stopped hok ?_ ?_ ?_ htext ?_
    iterate 3
      · rw [put_of_stopped hok]
        split
        · dsimp only
          split <;> first | rfl | exact hok
        · first | rfl | exact hok
    · intro href
      split at href
      · have : (if i.filled i.depth then i.append [44] else i).refused = false := href
        split at this <;> exact this
      · exact href
  | false =>
    obtain ⟨hd, -⟩ := h.depth hok
    by_cases hpos : 0 < i.depth
    · rw [if_pos (hd ▸ hpos), if_pos hpos]
      exact h.comma hcap hok hpos
    · rw [if_neg (hd ▸ hpos), if_neg hpos]
      exact h

theorem Renders.beginValue (h : Renders w i) (hcap : 0 < cap) (key : Option Bytes) :
    Renders (w.beginValue key) (i.beginValue key) := by
  have hsep := h.separator hcap
  cases key with
  | none => exact hsep
  | some key => exact (hsep.putEscaped hcap key).puts hcap (puts_put _ 58)

/-- A container is begun one level deeper, or refused at the largest depth. -/
theorem Renders.beginContainer (h : Renders w i) (hcap : 0 < cap) (bracket : UInt8)
    (key : Option Bytes) :
    Renders (w.beginContainer bracket key) (i.beginContainer bracket key) := by
  have hput : Renders ((w.beginValue key).put bracket) ((i.beginValue key).append [bracket]) :=
    (h.beginValue hcap key).puts hcap (puts_put _ bracket)
  unfold JsonWriter.beginContainer JsonText.beginContainer
  generalize (w.beginValue key).put bracket = w₁ at hput ⊢
  generalize (i.beginValue key).append [bracket] = i₁ at hput ⊢
  dsimp only
  by_cases hok : w₁.overflow = true
  · have href : (i₁.refused || decide (maxDepth ≤ i₁.depth)) = false → i₁.refused = false := by
      intro hr
      exact (Bool.or_eq_false_iff.mp hr).1
    split
    · exact hput.of_stopped hok rfl rfl rfl (List.prefix_refl _) href
    · exact hput.of_stopped hok rfl rfl hok (List.prefix_refl _) href
  · rw [Bool.not_eq_true] at hok
    obtain ⟨hd, hmax⟩ := hput.depth hok
    by_cases hdeep : maxDepth ≤ i₁.depth
    · -- Both sides refuse: the depths agree while the writer is ok.
      rw [if_pos (hd ▸ hdeep)]
      refine ⟨hput.nul, hput.text, ⟨nofun, ?_⟩, nofun, nofun, nofun⟩
      rintro ⟨-, hr⟩
      simp [hdeep] at hr
    · rw [if_neg (hd ▸ hdeep)]
      refine ⟨hput.nul, hput.text, ?_, hput.whole, ?_, ?_⟩
      · simpa [hdeep] using hput.ok
      · intro _
        refine ⟨congrArg (· + 1) hd, ?_⟩
        show i₁.depth + 1 ≤ maxDepth
        omega
      · intro _ n hn hle
        show (w₁.hasItems &&& ~~~(1#32 <<< (w₁.depth + 1))).getLsbD n =
          Function.update i₁.filled (i₁.depth + 1) false n
        have hn32 : n < 32 := by
          rw [maxDepth] at hle
          omega
        -- The new level starts empty; the bits of the others stay.
        rw [BitVec.getLsbD_and, BitVec.getLsbD_not, hput.items hok n hn hle, hd,
          getLsbD_bit (by omega)]
        by_cases hnd : n = i₁.depth + 1
        · rw [hnd, Function.update_self]
          simp
        · rw [Function.update_of_ne hnd]
          simp [hnd, hn32]

theorem Renders.endContainer (h : Renders w i) (hcap : 0 < cap) (bracket : UInt8) :
    Renders (w.endContainer bracket) (i.endContainer bracket) := by
  have hput : Renders (w.put bracket) (i.append [bracket]) := h.puts hcap (w.puts_put bracket)
  refine ⟨hput.nul, hput.text, hput.ok, hput.whole, ?_, hput.items⟩
  intro hok
  obtain ⟨hd, hmax⟩ := hput.depth hok
  refine ⟨congrArg (· - 1) hd, ?_⟩
  exact (Nat.sub_le _ _).trans hmax

/-! ## Calls -/

theorem Renders.addRaw (h : Renders w i) (hcap : 0 < cap) (key : Option Bytes) (text : Bytes) :
    Renders (w.addRaw key text) (i.addRaw key text) :=
  (h.beginValue hcap key).puts hcap (puts_putText _ text)

theorem Renders.addStrLen (h : Renders w i) (hcap : 0 < cap) (key : Option Bytes)
    (value : Bytes) : Renders (w.addStrLen key value) (i.addRaw key (JsonText.quoted value)) :=
  (h.beginValue hcap key).putEscaped hcap value

theorem renders_reset (w : JsonWriter cap) (hcap : 0 < cap) : Renders w.reset .empty := by
  have hok : w.reset.overflow = false := by
    show decide (cap < 1) = false
    simp
    omega
  have hbuf : w.reset.buf = w.buf.set ⟨0, hcap⟩ 0 := dif_pos hcap
  refine ⟨?_, List.nil_prefix, ?_, fun _ => rfl, fun _ => ⟨rfl, Nat.zero_le _⟩, ?_⟩
  · rw [hbuf]
    exact w.buf.getElem?_set_self ⟨0, hcap⟩ 0
  · rw [hok]
    exact ⟨fun _ => ⟨hcap, rfl⟩, fun _ => rfl⟩
  · intro _ n _ _
    exact BitVec.getLsbD_zero

/-- **Step lemma**: any call. -/
theorem Renders.apply (h : Renders w i) (hcap : 0 < cap) (c : WriterCall) :
    Renders (w.apply c) (i.apply c) := by
  cases c with
  | beginObject key | beginArray key => exact h.beginContainer hcap _ key
  | endObject | endArray => exact h.endContainer hcap _
  | addStr key value =>
    cases value with
    | none => exact h.addRaw hcap key _
    | some value => exact h.addStrLen hcap key value
  | addStrLen key value => exact h.addStrLen hcap key value
  | addFmt key text =>
    cases text with
    | none =>
      refine ⟨h.nul, h.text, ⟨nofun, ?_⟩, nofun, nofun, nofun⟩
      rintro ⟨-, hr⟩
      cases hr
    | some text => exact h.addStrLen hcap key _
  | addInt key value | addUint key value | addBool key value | addNull key =>
    exact h.addRaw hcap key _
  | addHex key bytes => exact (h.beginValue hcap key).putHex hcap bytes
  | reset => exact w.renders_reset hcap

/-- **Run lemma**: any sequence of calls. -/
theorem Renders.run (h : Renders w i) (hcap : 0 < cap) (calls : List WriterCall) :
    Renders (w.run calls) (i.run calls) := by
  induction calls generalizing w i with
  | nil => exact h
  | cons c calls ih => exact ih (h.apply hcap c)

/-- **The writer follows the ideal text** through every sequence of calls. -/
theorem renders_run (hcap : 0 < cap) (calls : List WriterCall) :
    Renders ((JsonWriter.init cap).run calls) (JsonText.empty.run calls) :=
  (renders_reset _ hcap).run hcap calls

/-- A text fits a writer when it is shorter than the buffer and no call is refused. -/
theorem run_ok_iff (hcap : 0 < cap) (calls : List WriterCall) :
    ((JsonWriter.init cap).run calls).ok = true ↔
      (JsonText.empty.run calls).text.length < cap ∧
        (JsonText.empty.run calls).refused = false := by
  rw [← (renders_run hcap calls).ok]
  rw [ok]
  rw [Bool.not_eq_true']

end JsonWriter

end SoulCloud
