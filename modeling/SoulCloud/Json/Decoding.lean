import SoulCloud.Json.Strings

/-!
# Decoding a string into a buffer

`str_at` byte by byte, with the caller's array and every store into it. A store past the end
of the array is `none`, so that a run that has a result never made one.

- `StrOut`: the array and `out_len`; `emit`: the lambda of that name.
- `StrOut.decode`: the loop of `str_at`. `strAtInto`: the function.
- `StrOut.Holds`: what the array holds so far; `decode_holds`: what the loop adds to it.
- `str_at_decodes`: **`str_at` decodes a string if there is room for it.**
-/

namespace SoulCloud

open Bytes

/-- `out`, an array of `cap` bytes, and `out_len`. -/
structure StrOut (cap : Nat) where
  out : Buf cap
  len : Nat

namespace StrOut

variable {cap : Nat}

/-- What a step returns: `none` after a store past the end of the array, and otherwise
whether the decoder goes on. -/
abbrev Result (cap : Nat) := Option (Bool × StrOut cap)

/-- `if (!emit(...)) return false;` -/
def Result.andThen (r : Result cap) (next : StrOut cap → Result cap) : Result cap :=
  match r with
  | none => none
  | some (false, s) => some (false, s)
  | some (true, s) => next s

/-- The lambda `emit`, which leaves room for the NUL. -/
def emit (s : StrOut cap) (c : UInt8) : Result cap :=
  if cap ≤ s.len + 1 then some (false, s)
  else (s.out.memcpy s.len [c]).map fun out => (true, ⟨out, s.len + 1⟩)

/-- `emit(a) && emit(b) && ...` -/
def emitAll (s : StrOut cap) : Bytes → Result cap
  | [] => some (true, s)
  | c :: rest => (s.emit c).andThen fun s => s.emitAll rest

/-- The loop of `str_at` over the bytes from `in` to `in_end`. -/
def decode (s : StrOut cap) : Bytes → Result cap
  | [] => some (true, s)
  | c :: rest =>
    if c ≠ 92 then (s.emit c).andThen fun s => s.decode rest
    else
      match rest with
      | [] => some (false, s)
      | esc :: rest =>
        if esc = 117 then
          match rest with
          | a :: b :: c :: d :: rest =>
            match JsonReader.hexValue a, JsonReader.hexValue b, JsonReader.hexValue c,
              JsonReader.hexValue d with
            | some a, some b, some c, some d =>
              (s.emitAll (JsonReader.emitCode (JsonReader.hexCode a b c d))).andThen fun s =>
                s.decode rest
            | _, _, _, _ => some (false, s)
          | _ => some (false, s)
        else (s.emit (JsonReader.unescapeChar esc)).andThen fun s => s.decode rest

end StrOut

/-- `str_at` with its array: `none` after a store past the end of it, and otherwise what it
returns and leaves there. -/
def JsonReader.strAtInto (r : JsonReader) (tok : Option Nat) {cap : Nat} (out : Buf cap) :
    Option (Bool × Buf cap) :=
  match r.token? tok with
  | none => some (false, out)
  | some t =>
    if t.type ≠ .string ∨ cap < 1 then some (false, out)
    else
      match StrOut.decode ⟨out, 0⟩ (r.slice t.start t.stop) with
      | none => none
      | some (false, s) => some (false, s.out)
      | some (true, s) => (s.out.memcpy s.len [0]).map fun out => (true, out)

namespace StrOut

variable {cap : Nat} {s : StrOut cap} {d : Bytes}

/-- The array holds `d`, and there is room for a NUL behind it. -/
structure Holds (s : StrOut cap) (d : Bytes) : Prop where
  len : s.len = d.length
  lt : s.len < cap
  text : s.out.text s.len = d

/-- `emit` stores the byte if that leaves room for the NUL. -/
theorem Holds.emit_of_lt (h : Holds s d) (c : UInt8) (hroom : d.length + 1 < cap) :
    ∃ s', s.emit c = some (true, s') ∧ Holds s' (d ++ [c]) := by
  have hlen := h.len
  have hstore : s.len + [c].length ≤ cap := by
    rw [List.length_singleton]
    omega
  obtain ⟨out, hout, -⟩ := s.out.memcpy_of_le s.len [c] hstore
  have htext := Buf.text_memcpy hout
  refine ⟨⟨out, s.len + 1⟩, ?_, ?_⟩
  · rw [emit, if_neg (by omega), hout]
    rfl
  · constructor
    · show s.len + 1 = (d ++ [c]).length
      rw [List.length_append, List.length_singleton, h.len]
    · show s.len + 1 < cap
      omega
    · show out.text (s.len + 1) = d ++ [c]
      rw [← h.text]
      exact htext

theorem Holds.emit_of_le (h : Holds s d) (c : UInt8) (hfull : cap ≤ d.length + 1) :
    s.emit c = some (false, s) := by
  have hlen := h.len
  rw [emit, if_pos (by omega)]

/-- What a step comes to that adds `v` if there is room for it: the array holds what there
was room for. -/
def Adds (d v : Bytes) (r : Result cap) : Prop :=
  ∃ s', r = some (decide (d.length + v.length < cap), s') ∧
    Holds s' (d ++ v.take (cap - 1 - d.length))

/-- Nothing is added to what is there. -/
theorem Holds.adds_nil (h : Holds s d) : Adds d [] (some (true, s)) := by
  have hlen := h.len
  have hlt := h.lt
  refine ⟨s, ?_, ?_⟩
  · rw [List.length_nil, Nat.add_zero, decide_eq_true (by omega)]
  · rwa [List.take_nil, List.append_nil]

/-- One byte and then the others. -/
theorem Holds.adds_cons (h : Holds s d) (c : UInt8) {v : Bytes} {next : StrOut cap → Result cap}
    (hnext : ∀ s', Holds s' (d ++ [c]) → Adds (d ++ [c]) v (next s')) :
    Adds d (c :: v) ((s.emit c).andThen next) := by
  by_cases hroom : d.length + 1 < cap
  · obtain ⟨s₁, hemit, hholds⟩ := h.emit_of_lt c hroom
    obtain ⟨s', hs', hheld⟩ := hnext s₁ hholds
    have htake : (c :: v).take (cap - 1 - d.length) =
        c :: v.take (cap - 1 - (d ++ [c]).length) := by
      rw [List.length_append, List.length_singleton,
        show cap - 1 - d.length = cap - 1 - (d.length + 1) + 1 by omega, List.take_succ_cons]
    refine ⟨s', ?_, ?_⟩
    · rw [hemit]
      show next s₁ = _
      rw [hs', List.length_append, List.length_singleton, List.length_cons, Nat.add_assoc,
        Nat.add_comm 1]
    · rw [htake]
      rwa [List.append_assoc, List.singleton_append] at hheld
  · have hfull : cap ≤ d.length + 1 := Nat.not_lt.mp hroom
    refine ⟨s, ?_, ?_⟩
    · rw [h.emit_of_le c hfull, List.length_cons, decide_eq_false (by omega)]
      rfl
    · rw [show cap - 1 - d.length = 0 by omega, List.take_zero, List.append_nil]
      exact h

/-- The bytes of one character and then the others. -/
theorem Holds.adds_append (h : Holds s d) (u : Bytes) {v : Bytes}
    {next : StrOut cap → Result cap}
    (hnext : ∀ s', Holds s' (d ++ u) → Adds (d ++ u) v (next s')) :
    Adds d (u ++ v) ((s.emitAll u).andThen next) := by
  induction u generalizing s d with
  | nil =>
    rw [List.append_nil] at hnext
    exact hnext s h
  | cons c u ih =>
    have hassoc : ∀ s' : StrOut cap, (s'.emitAll (c :: u)).andThen next =
        (s'.emit c).andThen fun s => (s.emitAll u).andThen next := by
      intro s'
      rw [emitAll]
      cases s'.emit c with
      | none => rfl
      | some p =>
        obtain ⟨fits, s₁⟩ := p
        cases fits <;> rfl
    rw [hassoc, List.cons_append]
    refine h.adds_cons c fun s₁ h₁ => ih h₁ fun s' h' => ?_
    rw [List.append_assoc, List.singleton_append] at h' ⊢
    exact hnext s' h'

/-- **The loop adds the value of the text**, as far as there is room. By induction on how the
text is read. -/
theorem decode_holds {text value : Bytes} (hspells : JsonReader.Spells text value)
    (h : Holds s d) : Adds d value (s.decode text) := by
  induction hspells generalizing s d with
  | nil => exact h.adds_nil
  | @plain c text out hc _ ih =>
    rw [decode.eq_def]
    dsimp only
    rw [if_pos hc]
    exact h.adds_cons c fun s' h' => ih h'
  | @simple esc text out hesc _ ih =>
    rw [decode.eq_def]
    dsimp only
    rw [if_neg (by decide), if_neg hesc]
    exact h.adds_cons _ fun s' h' => ih h'
  | @unicode a b c d' a' b' c' e' text out hdigits _ ih =>
    obtain ⟨ha, hb, hc, hd⟩ := hdigits
    have hstep : s.decode (92 :: 117 :: a :: b :: c :: d' :: text) =
        (s.emitAll (JsonReader.emitCode (JsonReader.hexCode a' b' c' e'))).andThen fun s =>
          s.decode text := by
      rw [decode, if_neg (by decide), if_pos rfl]
      simp only [ha, hb, hc, hd]
    rw [hstep]
    exact h.adds_append _ fun s' h' => ih h'

end StrOut

namespace JsonReader

variable {r : JsonReader} {json : Bytes} {tok : Option Nat} {t : JsmnToken} {cap : Nat}

/-- A string with a value is decoded if the value and a NUL fit. -/
theorem strAtInto_spells {value : Bytes} (ht : r.token? tok = some t) (htype : t.type = .string)
    (hcap : 1 ≤ cap) (hspells : Spells (r.slice t.start t.stop) value) (out : Buf cap) :
    ∃ out', r.strAtInto tok out = some (decide (value.length < cap), out') ∧
      (value.length < cap → out'.text (value.length + 1) = value ++ [0]) := by
  have hstart : StrOut.Holds (⟨out, 0⟩ : StrOut cap) [] := ⟨rfl, hcap, rfl⟩
  obtain ⟨s, hs, hheld⟩ := StrOut.decode_holds hspells hstart
  rw [List.length_nil, Nat.zero_add] at hs
  rw [strAtInto]
  rw [ht]
  dsimp only
  rw [if_neg (by rintro (hne | hlt); exacts [hne htype, by omega]), hs]
  by_cases hfits : value.length < cap
  · -- All of the value is there, and the NUL goes behind it.
    have htake : value.take (cap - 1 - ([] : Bytes).length) = value :=
      List.take_of_length_le (by rw [List.length_nil]; omega)
    rw [htake, List.nil_append] at hheld
    have hstore : s.len + ([0] : Bytes).length ≤ cap := by
      have := hheld.lt
      rw [List.length_singleton]
      omega
    obtain ⟨out', hout', -⟩ := s.out.memcpy_of_le s.len [0] hstore
    have htext := Buf.text_memcpy hout'
    rw [decide_eq_true hfits]
    dsimp only
    rw [hout']
    refine ⟨out', rfl, fun _ => ?_⟩
    rw [← hheld.len, ← hheld.text]
    exact htext
  · rw [decide_eq_false hfits]
    exact ⟨s.out, rfl, fun hlt => absurd hlt hfits⟩

/-- `str_at` returns true exactly when `strAt` has a value, and that is what it stores. -/
theorem strAtInto_eq_strAt (hok : (r.parse json).1 = .ok) (tok : Option Nat) (out : Buf cap) :
    ∃ out', (r.parse json).2.strAtInto tok out =
        some (((r.parse json).2.strAt tok cap).isSome, out') ∧
      ∀ value ∈ (r.parse json).2.strAt tok cap, out'.text (value.length + 1) = value ++ [0] := by
  cases htok : (r.parse json).2.token? tok with
  | none =>
    rw [strAtInto, strAt]
    rw [htok]
    refine ⟨out, rfl, ?_⟩
    rintro value ⟨⟩
  | some t =>
    by_cases hno : t.type ≠ .string ∨ cap < 1
    · rw [strAtInto, strAt]
      rw [htok]
      dsimp only
      rw [if_pos hno, if_pos hno]
      refine ⟨out, rfl, ?_⟩
      rintro value ⟨⟩
    · obtain ⟨htype, hcap⟩ := not_or.mp hno
      have htype : t.type = .string := not_not.mp htype
      obtain ⟨value, hvalue⟩ := parse_spells hok htok htype
      obtain ⟨out', hinto, hstored⟩ := strAtInto_spells htok htype (by omega) hvalue out
      refine ⟨out', ?_, ?_⟩
      · rw [hinto, strAt, htok]
        dsimp only
        rw [if_neg hno, hvalue.unescape_eq]
        by_cases hfits : value.length < cap
        · rw [decide_eq_true hfits, if_pos (by omega)]
          rfl
        · rw [decide_eq_false hfits, if_neg (by omega)]
          rfl
      · intro value' hvalue'
        rw [strAt, htok] at hvalue'
        dsimp only at hvalue'
        rw [if_neg hno, hvalue.unescape_eq] at hvalue'
        split_ifs at hvalue' with hle
        · cases hvalue'
          exact hstored (by omega)
        · cases hvalue'

/-- **`str_at` decodes a string if there is room for it.** Every string token of an accepted text
means some bytes; `str_at` returns true exactly if they and a NUL fit into the array, and then
they are what it holds. Whatever it returns, no store was past the end of the array. -/
theorem str_at_decodes (hok : (r.parse json).1 = .ok)
    (ht : (r.parse json).2.token? tok = some t) (htype : t.type = .string) (hcap : 1 ≤ cap)
    (out : Buf cap) :
    ∃ value, Decodes ((r.parse json).2.slice t.start t.stop) value ∧
      ∃ fits out', (r.parse json).2.strAtInto tok out = some (fits, out') ∧
        (fits = true ↔ value.length < cap) ∧
        (fits = true → out'.text (value.length + 1) = value ++ [0]) := by
  obtain ⟨value, hvalue⟩ := parse_decodes hok ht htype
  obtain ⟨out', hinto, hstored⟩ := strAtInto_spells ht htype hcap hvalue.spells out
  refine ⟨value, hvalue, _, out', hinto, decide_eq_true_iff, fun hfits => ?_⟩
  exact hstored (of_decide_eq_true hfits)

/-- A string with an escaped slash, a two-byte character and half of a surrogate pair. -/
theorem str_at_decodes_sample :
    ∃ value, Decodes (ascii "h\\/\\u00e9\\ud83d") value ∧
      ∃ fits out', ((JsonReader.new 8).parse
            (ascii "\x7b\"a\":\"h\\/\\u00e9\\ud83d\"\x7d")).2.strAtInto (some 2) (Buf.zero 6) =
          some (fits, out') ∧
        (fits = true ↔ value.length < 6) ∧
        (fits = true → out'.text (value.length + 1) = value ++ [0]) := by
  have htoken : ((JsonReader.new 8).parse
      (ascii "\x7b\"a\":\"h\\/\\u00e9\\ud83d\"\x7d")).2.token? (some 2) =
        some ⟨.string, 6, 21, 0⟩ := by decide +kernel
  exact str_at_decodes (by decide +kernel) htoken rfl (by decide) (Buf.zero 6)

end JsonReader

end SoulCloud
