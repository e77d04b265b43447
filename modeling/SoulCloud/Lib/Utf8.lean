import Mathlib.Data.List.TakeWhile

/-!
# UTF-8 text that is cut and joined

Byte strings that spell Unicode scalar values, and what cutting them at a byte does. The encoding
itself is the one of the core library.

- `Valid`: the bytes are the UTF-8 encoding of some characters.
- `Boundary`: a character begins at this byte, or the text ends there.
- `valid_take_iff`: the beginning of a valid text is valid exactly when it ends on a boundary.
- `valid_flatMap_iff`: respelling the ASCII characters in ASCII changes nothing.
-/

namespace Utf8

/-- The UTF-8 encoding of some characters. -/
def Valid (b : List UInt8) : Prop := b.toByteArray.IsValidUTF8

/-- A character begins at byte `n`, or the text ends there or before. -/
def Boundary (n : Nat) (b : List UInt8) : Prop := ∀ c ∈ b[n]?, c.IsUTF8FirstByte

/-- No byte has its highest bit set. -/
def Ascii (b : List UInt8) : Prop := ∀ c ∈ b, c < 128

theorem boundary_nil (n : Nat) : Boundary n [] := by
  rintro c ⟨⟩

instance (n : Nat) (b : List UInt8) : Decidable (Boundary n b) :=
  inferInstanceAs (Decidable (∀ c ∈ b[n]?, _))

instance (b : List UInt8) : Decidable (Ascii b) := List.decidableBAll _ b

variable {a b : List UInt8} {c : UInt8} {n : Nat}

/-! ## Characters -/

theorem valid_iff_chars :
    Valid b ↔ ∃ chars : List Char, b = chars.flatMap String.utf8EncodeChar := by
  constructor
  · rintro ⟨chars, h⟩
    refine ⟨chars, ?_⟩
    have htext := congrArg (fun bytes => bytes.data.toList) h
    simpa [List.utf8Encode] using htext
  · rintro ⟨chars, rfl⟩
    exact ⟨chars, rfl⟩

theorem valid_nil : Valid [] := valid_iff_chars.mpr ⟨[], rfl⟩

theorem Valid.append (ha : Valid a) (hb : Valid b) : Valid (a ++ b) := by
  unfold Valid at *
  rw [List.toByteArray_append]
  exact ha.append hb

/-- A character in front of a text. -/
theorem valid_char_append (ch : Char) : Valid (String.utf8EncodeChar ch ++ b) ↔ Valid b := by
  rw [Valid, List.toByteArray_append, ← List.utf8Encode_singleton,
    ByteArray.isValidUTF8_utf8Encode_singleton_append_iff]
  rfl

/-- A valid text in front of another one. -/
theorem valid_append_iff_of_left (ha : Valid a) : Valid (a ++ b) ↔ Valid b := by
  obtain ⟨chars, rfl⟩ := valid_iff_chars.mp ha
  clear ha
  induction chars with
  | nil => rfl
  | cons ch chars ih => rw [List.flatMap_cons, List.append_assoc, valid_char_append, ih]

/-- A valid text begins with the first byte of a character. -/
theorem Valid.first (h : Valid (c :: b)) : c.IsUTF8FirstByte := by
  have hfirst := ByteArray.IsValidUTF8.isUTF8FirstByte_getElem_zero h (by simp)
  simpa using hfirst

/-- Within a character no other one begins. -/
theorem not_first_of_char {ch : Char} (h : String.utf8EncodeChar ch = a ++ c :: b) (hne : a ≠ []) :
    ¬ c.IsUTF8FirstByte := by
  have hlt : a.length < (String.utf8EncodeChar ch).length := by
    rw [h]
    simp
  have hget : (String.utf8EncodeChar ch)[a.length] = c := by
    simp [h]
  rw [← hget, UInt8.isUTF8FirstByte_getElem_utf8EncodeChar]
  exact fun hzero => hne (List.eq_nil_of_length_eq_zero hzero)

/-! ## Cutting and joining -/

/-- A text is valid up to where a character begins. -/
theorem valid_of_append (h : Valid (a ++ b)) (hb : ∀ c ∈ b.head?, c.IsUTF8FirstByte) :
    Valid a := by
  rw [valid_iff_chars] at h
  obtain ⟨chars, h⟩ := h
  induction chars generalizing a with
  | nil =>
    rw [(List.append_eq_nil_iff.mp h).1]
    exact valid_nil
  | cons ch chars ih =>
    rw [List.flatMap_cons] at h
    rcases List.append_eq_append_iff.mp h with ⟨rest, hch, hrest⟩ | ⟨rest, ha, hrest⟩
    · cases rest with
      | nil =>
        rw [List.append_nil] at hch
        rw [← hch]
        exact valid_iff_chars.mpr ⟨[ch], by simp⟩
      | cons c rest =>
        -- The character would go on behind `a`.
        by_cases ha : a = []
        · rw [ha]
          exact valid_nil
        · refine absurd (hb c ?_) (not_first_of_char hch ha)
          rw [hrest]
          rfl
    · rw [ha, valid_char_append]
      exact ih hrest.symm

/-- Two texts joined where a character begins. -/
theorem valid_append_iff (hb : ∀ c ∈ b.head?, c.IsUTF8FirstByte) :
    Valid (a ++ b) ↔ Valid a ∧ Valid b := by
  constructor
  · intro h
    have ha := valid_of_append h hb
    exact ⟨ha, (valid_append_iff_of_left ha).mp h⟩
  · rintro ⟨ha, hb⟩
    exact ha.append hb

/-- **The beginning of a valid text** is valid exactly when it ends between two characters. -/
theorem valid_take_iff (h : Valid b) : Valid (b.take n) ↔ Boundary n b := by
  have hhead : (b.drop n).head? = b[n]? := List.head?_drop
  constructor
  · intro htake c hc
    rw [← List.take_append_drop n b, valid_append_iff_of_left htake] at h
    rw [← hhead] at hc
    obtain ⟨rest, hrest⟩ := List.head?_eq_some_iff.mp hc
    rw [hrest] at h
    exact h.first
  · intro hboundary
    rw [← List.take_append_drop n b] at h
    refine valid_of_append h ?_
    rw [hhead]
    exact hboundary

/-! ## ASCII -/

theorem first_of_ascii (h : c < 128) : c.IsUTF8FirstByte := by
  have hall : ∀ n : Fin 128, (UInt8.ofNat n.val).IsUTF8FirstByte := by decide
  have hc := hall ⟨c.toNat, h⟩
  rwa [UInt8.ofNat_toNat] at hc

theorem valid_singleton (h : c < 128) : Valid [c] := by
  refine valid_iff_chars.mpr ⟨[Char.ofUInt8 c], ?_⟩
  have hsize : (Char.ofUInt8 c).utf8Size = 1 := by
    rw [Char.utf8Size_eq_one_iff]
    exact Nat.le_of_lt_succ h
  have hbyte : (Char.ofUInt8 c).val.toUInt8 = c := UInt8.toUInt8_toUInt32 c
  rw [List.flatMap_singleton, String.utf8EncodeChar_eq_singleton hsize, hbyte]

theorem valid_cons_iff (h : c < 128) : Valid (c :: b) ↔ Valid b :=
  valid_append_iff_of_left (a := [c]) (valid_singleton h)

theorem Ascii.valid (h : Ascii b) : Valid b := by
  induction b with
  | nil => exact valid_nil
  | cons c b ih =>
    rw [valid_cons_iff (h c List.mem_cons_self)]
    exact ih fun d hd => h d (List.mem_cons_of_mem c hd)

theorem Ascii.append (ha : Ascii a) (hb : Ascii b) : Ascii (a ++ b) := by
  intro c hc
  rcases List.mem_append.mp hc with hc | hc
  · exact ha c hc
  · exact hb c hc

theorem Ascii.take (h : Ascii b) (n : Nat) : Ascii (b.take n) :=
  fun c hc => h c (List.mem_of_mem_take hc)

theorem Ascii.head (h : Ascii b) : ∀ c ∈ b.head?, c.IsUTF8FirstByte :=
  fun c hc => first_of_ascii (h c (List.mem_of_mem_head? hc))

/-- ASCII behind a text. -/
theorem valid_append_ascii (hb : Ascii b) : Valid (a ++ b) ↔ Valid a := by
  rw [valid_append_iff hb.head]
  exact and_iff_left hb.valid

/-- A text behind an ASCII character. -/
theorem valid_append_cons (h : c < 128) : Valid (a ++ c :: b) ↔ Valid a ∧ Valid b := by
  rw [valid_append_iff, valid_cons_iff h]
  rintro d ⟨⟩
  exact first_of_ascii h

/-- **Respelling** the ASCII characters in ASCII, and nothing else, changes nothing. -/
theorem valid_flatMap_iff {f : UInt8 → List UInt8} (hlow : ∀ c < 128, f c ≠ [] ∧ Ascii (f c))
    (hhigh : ∀ c, ¬ c < 128 → f c = [c]) : Valid (b.flatMap f) ↔ Valid b := by
  -- `a` is what precedes `b` since the last ASCII character.
  suffices h : ∀ a, Valid (a ++ b.flatMap f) ↔ Valid (a ++ b) from h []
  induction b with
  | nil => exact fun _ => Iff.rfl
  | cons c b ih =>
    intro a
    by_cases hc : c < 128
    · obtain ⟨hne, hascii⟩ := hlow c hc
      have hhead : ∀ d ∈ (f c ++ b.flatMap f).head?, d.IsUTF8FirstByte := by
        cases hf : f c with
        | nil => exact absurd hf hne
        | cons d t =>
          rw [hf] at hascii
          exact hascii.head
      rw [List.flatMap_cons, valid_append_iff hhead, valid_append_iff_of_left hascii.valid,
        valid_append_cons hc]
      exact and_congr_right fun _ => ih []
    · have hall := ih (a ++ [c])
      rw [List.append_assoc, List.append_assoc] at hall
      rw [List.flatMap_cons, hhigh c hc]
      exact hall

end Utf8
