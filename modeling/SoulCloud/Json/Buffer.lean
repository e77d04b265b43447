import SoulCloud.Json.Text

/-!
# What the writer's buffer holds at every point

`renders_run` relates a writer to the writer without limits. This module draws the
consequences a caller sees, for any sequence of calls on any buffer:

- `JsonText.refused_iff`: when the text without limits counts as refused.
- `JsonWriter.Stopped`: a writer that is not ok stays as it is until `reset`.
- `buffer_holds`: the whole contract of `sc_json_writer`.
-/

namespace SoulCloud

open Bytes

/-- The calls that begin a container. -/
def WriterCall.begins : WriterCall → Bool
  | .beginObject _ | .beginArray _ => true
  | _ => false

namespace JsonText

/-- Since the last `reset` a container was begun at the largest depth. -/
def BegunTooDeep (calls : List WriterCall) : Prop :=
  ∃ before c after, calls = before ++ c :: after ∧ c.begins = true ∧
    (empty.run before).depth = maxDepth ∧ WriterCall.reset ∉ after

theorem run_concat (i : JsonText) (calls : List WriterCall) (c : WriterCall) :
    i.run (calls ++ [c]) = (i.run calls).apply c := by
  unfold run
  rw [List.foldl_append]
  rfl

@[simp] theorem beginValue_depth (i : JsonText) (key : Option Bytes) :
    (i.beginValue key).depth = i.depth := by
  unfold beginValue mark append
  cases key <;> dsimp only <;> split_ifs <;> rfl

@[simp] theorem beginValue_refused (i : JsonText) (key : Option Bytes) :
    (i.beginValue key).refused = i.refused := by
  unfold beginValue mark append
  cases key <;> dsimp only <;> split_ifs <;> rfl

theorem apply_refused_of_begins {c : WriterCall} (hc : c.begins = true) (i : JsonText) :
    (i.apply c).refused = (i.refused || decide (maxDepth ≤ i.depth)) ∧
      (i.apply c).depth = i.depth + 1 := by
  cases c <;> cases hc <;> simp [apply, beginContainer, append]

/-- A call that begins no container refuses nothing and goes no deeper. -/
theorem apply_refused_of_not_begins {c : WriterCall} (hc : c.begins = false) (hr : c ≠ .reset)
    (hfmt : ∀ key, c ≠ .addFmt key none) (i : JsonText) :
    (i.apply c).refused = i.refused ∧ (i.apply c).depth ≤ i.depth := by
  cases c with
  | beginObject key | beginArray key => cases hc
  | reset => exact absurd rfl hr
  | addFmt key text =>
    cases text with
    | none => exact absurd rfl (hfmt key)
    | some text => simp [apply, addRaw, append]
  | addStr key value => cases value <;> simp [apply, addRaw, append]
  | _ => simp [apply, addRaw, append, endContainer]

/-- Being deeper than the largest depth comes from having begun a container there. -/
theorem refused_of_deep {calls : List WriterCall} (hfmt : ∀ key, .addFmt key none ∉ calls)
    (hdeep : maxDepth < (empty.run calls).depth) : (empty.run calls).refused = true := by
  induction calls using List.reverseRecOn with
  | nil => cases hdeep
  | append_singleton calls c ih =>
    have ih := ih fun key h => hfmt key (by simp [h])
    rw [run_concat] at hdeep ⊢
    by_cases hb : c.begins = true
    · obtain ⟨href, hdepth⟩ := apply_refused_of_begins hb (empty.run calls)
      rw [href, Bool.or_eq_true, decide_eq_true_eq]
      right
      omega
    · by_cases hr : c = .reset
      · subst hr
        cases hdeep
      · have hc : ∀ key, c ≠ .addFmt key none := fun key h => hfmt key (by simp [h])
        obtain ⟨href, hdepth⟩ :=
          apply_refused_of_not_begins (Bool.not_eq_true _ ▸ hb) hr hc (empty.run calls)
        rw [href]
        exact ih (by omega)

/-- The text without limits counts as refused exactly after a container begun too deep. -/
theorem refused_iff {calls : List WriterCall} (hfmt : ∀ key, .addFmt key none ∉ calls) :
    (empty.run calls).refused = true ↔ BegunTooDeep calls := by
  induction calls using List.reverseRecOn with
  | nil =>
    constructor
    · nofun
    · rintro ⟨before, c, after, h, -⟩
      simp at h
  | append_singleton calls c ih =>
    have hfmt' : ∀ key, .addFmt key none ∉ calls := fun key h => hfmt key (by simp [h])
    have ih := ih hfmt'
    have hlast : BegunTooDeep (calls ++ [c]) ↔
        (c.begins = true ∧ (empty.run calls).depth = maxDepth) ∨
          (c ≠ .reset ∧ BegunTooDeep calls) := by
      constructor
      · rintro ⟨before, d, after, heq, hd, hdepth, hno⟩
        rcases List.eq_nil_or_concat after with rfl | ⟨after', e, rfl⟩
        · obtain ⟨rfl, hcd⟩ := List.append_inj' heq rfl
          cases hcd
          exact .inl ⟨hd, hdepth⟩
        · rw [List.concat_eq_append] at heq hno
          obtain ⟨rfl, hce⟩ := List.append_inj' (heq.trans (List.append_assoc before (d :: after')
            [e]).symm) rfl
          cases hce
          refine .inr ⟨?_, before, d, after', rfl, hd, hdepth, ?_⟩
          · rintro rfl
            simp at hno
          · intro h
            simp [h] at hno
      · rintro (⟨hb, hdepth⟩ | ⟨hc, before, d, after, rfl, hd, hdepth, hno⟩)
        · exact ⟨calls, c, [], rfl, hb, hdepth, List.not_mem_nil⟩
        · refine ⟨before, d, after ++ [c], by simp, hd, hdepth, ?_⟩
          intro h
          rcases List.mem_append.mp h with h | h
          · exact hno h
          · exact hc (List.mem_singleton.mp h).symm
    rw [run_concat, hlast]
    by_cases hb : c.begins = true
    · have hc : c ≠ .reset := by
        rintro rfl
        cases hb
      rw [(apply_refused_of_begins hb _).1, Bool.or_eq_true, decide_eq_true_eq, ih]
      constructor
      · rintro (h | h)
        · exact .inr ⟨hc, h⟩
        · rcases Nat.lt_or_eq_of_le h with hlt | heq
          · exact .inr ⟨hc, ih.mp (refused_of_deep hfmt' hlt)⟩
          · exact .inl ⟨hb, heq.symm⟩
      · rintro (⟨-, h⟩ | ⟨-, h⟩)
        · exact .inr h.ge
        · exact .inl h
    · by_cases hr : c = .reset
      · subst hr
        simp [apply, empty, WriterCall.begins]
      · have hc : ∀ key, c ≠ .addFmt key none := fun key h => hfmt key (by simp [h])
        rw [(apply_refused_of_not_begins (Bool.not_eq_true _ ▸ hb) hr hc _).1, ih]
        simp [hb, hr]

end JsonText

namespace JsonWriter

variable {cap : Nat} {w w' : JsonWriter cap}

/-- The constructor `sc_json_writer(buf, cap)`. -/
def new (buf : Buf cap) : JsonWriter cap := reset ⟨buf, 0, fun h => h, false, 0, 0⟩

/-- `w'` is `w`, which has stopped, as far as its caller can see. -/
structure Stopped (w w' : JsonWriter cap) : Prop where
  buf : w'.buf = w.buf
  pos : w'.pos = w.pos
  overflow : w'.overflow = true

theorem Stopped.refl (h : w.overflow = true) : Stopped w w := ⟨rfl, rfl, h⟩

theorem Stopped.trans {w'' : JsonWriter cap} (h : Stopped w w') (h' : Stopped w' w'') :
    Stopped w w'' :=
  ⟨h'.buf.trans h.buf, h'.pos.trans h.pos, h'.overflow⟩

/-! ## A writer that has stopped -/

theorem Stopped.puts {t : Bytes} (h : Stopped w w') {w'' : JsonWriter cap}
    (hput : Puts w' t w'') : Stopped w w'' := by
  obtain rfl := hput.full (.inl h.overflow)
  exact ⟨h.buf, h.pos, rfl⟩

theorem Stopped.putEscaped (h : Stopped w w') (str : Bytes) : Stopped w (w'.putEscaped str) := by
  have hopen := h.puts (w'.puts_put 34)
  have hloop : (w'.put 34).putEscapedLoop str = w'.put 34 := by
    cases str with
    | nil => rfl
    | cons c rest => exact if_pos hopen.overflow
  unfold JsonWriter.putEscaped
  rw [hloop]
  exact hopen.puts (puts_put _ 34)

theorem Stopped.beginValue (h : Stopped w w') (key : Option Bytes) :
    Stopped w (w'.beginValue key) := by
  have hcomma : Stopped w (if w'.hasItems &&& w'.depthBit ≠ 0 then w'.put 44 else w') := by
    split
    · exact h.puts (w'.puts_put 44)
    · exact h
  have hsep : Stopped w
      (if 0 < w'.depth then
        { (if w'.hasItems &&& w'.depthBit ≠ 0 then w'.put 44 else w') with
          hasItems := w'.hasItems ||| w'.depthBit }
      else w') := by
    split
    · exact ⟨hcomma.buf, hcomma.pos, hcomma.overflow⟩
    · exact h
  cases key with
  | none => exact hsep
  | some key => exact (hsep.putEscaped key).puts (puts_put _ 58)

theorem Stopped.beginContainer (h : Stopped w w') (bracket : UInt8) (key : Option Bytes) :
    Stopped w (w'.beginContainer bracket key) := by
  have hput := (h.beginValue key).puts (puts_put _ bracket)
  unfold JsonWriter.beginContainer
  dsimp only
  split
  · exact ⟨hput.buf, hput.pos, rfl⟩
  · exact ⟨hput.buf, hput.pos, hput.overflow⟩

theorem Stopped.addRaw (h : Stopped w w') (key : Option Bytes) (text : Bytes) :
    Stopped w (w'.addRaw key text) :=
  (h.beginValue key).puts (puts_putText _ text)

theorem Stopped.addHex (h : Stopped w w') (key : Option Bytes) (bytes : Bytes) :
    Stopped w (w'.addHex key bytes) := by
  have hopen := (h.beginValue key).puts (puts_put _ 34)
  have hloop : ((w'.beginValue key).put 34).putHexLoop bytes = (w'.beginValue key).put 34 := by
    cases bytes with
    | nil => rfl
    | cons c rest => exact if_pos hopen.overflow
  unfold JsonWriter.addHex
  rw [hloop]
  exact hopen.puts (puts_put _ 34)

/-- Nothing but `reset` reaches the buffer of a writer that has stopped. -/
theorem Stopped.apply (h : Stopped w w') {c : WriterCall} (hc : c ≠ .reset) :
    Stopped w (w'.apply c) := by
  cases c with
  | beginObject key | beginArray key => exact h.beginContainer _ key
  | endObject =>
    have hput := h.puts (w'.puts_put 125)
    exact ⟨hput.buf, hput.pos, hput.overflow⟩
  | endArray =>
    have hput := h.puts (w'.puts_put 93)
    exact ⟨hput.buf, hput.pos, hput.overflow⟩
  | addStr key value =>
    cases value with
    | none => exact h.addRaw key _
    | some value => exact (h.beginValue key).putEscaped value
  | addStrLen key value => exact (h.beginValue key).putEscaped value
  | addFmt key text =>
    cases text with
    | none => exact ⟨h.buf, h.pos, rfl⟩
    | some text => exact (h.beginValue key).putEscaped _
  | addInt key value | addUint key value | addBool key value | addNull key =>
    exact h.addRaw key _
  | addHex key bytes => exact h.addHex key bytes
  | reset => exact absurd rfl hc

theorem Stopped.run (h : Stopped w w') {calls : List WriterCall} (hno : .reset ∉ calls) :
    Stopped w (w'.run calls) := by
  induction calls generalizing w' with
  | nil => exact h
  | cons c calls ih =>
    have hc : c ≠ .reset := fun hc => hno (by simp [hc])
    exact ih (h.apply hc) fun hmem => hno (List.mem_cons_of_mem c hmem)

/-- **The writer's contract.** After any calls on a buffer of at least one byte: the text
is a prefix of the one without limits, ended by a NUL inside the buffer; the writer is ok
exactly while that text fits and no container was begun too deep, and then holds all of it;
and once it is not ok only `reset` changes anything. -/
theorem buffer_holds (buf : Buf cap) (calls : List WriterCall) (hcap : 0 < cap)
    (hfmt : ∀ key, .addFmt key none ∉ calls) :
    let w := (new buf).run calls
    let ideal := JsonText.empty.run calls
    w.pos < cap ∧ w.buf.bytes[w.pos]? = some 0 ∧ w.text <+: ideal.text ∧
      (w.ok = true ↔ ideal.text.length < cap ∧ ¬ JsonText.BegunTooDeep calls) ∧
      (w.ok = true → w.text = ideal.text) ∧
      (w.ok = false → ∀ later, .reset ∉ later →
        (w.run later).ok = false ∧ (w.run later).buf = w.buf ∧ (w.run later).pos = w.pos) := by
  intro w ideal
  have h : Renders w ideal := (renders_reset _ hcap).run hcap calls
  have hoverflow : w.ok = true ↔ w.overflow = false := by
    unfold ok
    rw [Bool.not_eq_true']
  refine ⟨w.pos_lt hcap, h.nul, h.text, ?_, ?_, ?_⟩
  · rw [hoverflow, h.ok, ← JsonText.refused_iff hfmt, Bool.not_eq_true]
  · intro hok
    exact h.whole (hoverflow.mp hok)
  · intro hstop later hno
    have hstop : w.overflow = true := by
      unfold ok at hstop
      rwa [Bool.not_eq_false'] at hstop
    have hrun := (Stopped.refl hstop).run hno
    refine ⟨?_, hrun.buf, hrun.pos⟩
    unfold ok
    rw [hrun.overflow]
    rfl

/-- A writer that overflowed in the middle of a member. -/
theorem buffer_holds_overflow :
    let calls : List WriterCall := [.beginObject none, .addBool (some (ascii "ok")) true]
    let w := (new (.zero 8)).run calls
    w.text = ascii "\x7b\"ok\":" ∧ w.pos < 8 ∧ w.buf.bytes[w.pos]? = some 0 :=
  ⟨by decide, (buffer_holds (.zero 8) _ (by decide) (by simp)).1,
    (buffer_holds (.zero 8) _ (by decide) (by simp)).2.1⟩

end JsonWriter

end SoulCloud
