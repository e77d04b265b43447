import SoulCloud.Json.RoundTrip
import SoulCloud.Json.Strings

/-!
# Reading integers

`int_at` copies the text of a primitive into an array of 24 bytes and leaves the rest to
`strtoll`. What comes out is what the text denotes, if it is a whole number that `int64_t`
has.

- `JsonReader.intAtInto`: `int_at` with its array and its result parameter.
- `IntText`: a text of digits with or without a minus sign, and the integer it denotes.
- `primitive_text`: what a primitive of an accepted text may start with and contain.
- `strtoll_eq_some_iff`: `strtoll` takes all of such a text exactly if it denotes an integer
  of 64 bits.
- `int_at_reads`: **`int_at` reads the integers of 64 bits, and nothing else.**
-/

namespace SoulCloud

open Bytes Json Forest

namespace JsonReader

/-- `int_at` with `out`, which is `out` before the call: `none` for a copy past the end of
`number`, and otherwise what it returns and leaves in `out`. -/
def intAtInto (r : JsonReader) (tok : Option Nat) (out : Int) : Option (Bool × Int) :=
  match r.token? tok with
  | none => some (false, out)
  | some t =>
    if t.type ≠ .primitive ∨ t.stop - t.start < 1 ∨ 20 < t.stop - t.start then some (false, out)
    else
      match (Buf.zero 24).memcpy 0 (r.slice t.start t.stop) with
      | none => none
      | some number =>
        match strtoll number.cstr with
        | some (value, []) => some (true, value)
        | _ => some (false, out)

/-- The text is an optional minus sign and one or more decimal digits, and denotes `v`. -/
def IntText (text : Bytes) (v : Int) : Prop :=
  ∃ digits : Bytes, digits ≠ [] ∧ (∀ c ∈ digits, IsDigit c) ∧
    (text = digits ∧ v = (ofDecimal digits : Int) ∨
      text = 45 :: digits ∧ v = -(ofDecimal digits : Int))

/-! ## The text of a primitive -/

/-- The bytes that the scan of a primitive passes over. -/
theorem scanPrimitive_bytes {bs : Bytes} {n k : Nat} (h : scanPrimitive bs n = .ok k) :
    ∀ c ∈ bs.take (k - n), c ≠ 0 ∧ endsPrimitive c = false := by
  induction bs generalizing n with
  | nil => cases h
  | cons c rest ih =>
    rw [scanPrimitive] at h
    split_ifs at h with h0 hends hrange
    · cases h
      rw [Nat.sub_self, List.take_zero]
      exact List.forall_mem_nil _
    · intro d hd
      have hlt := scanPrimitive_lt h
      rw [show k - n = k - (n + 1) + 1 by omega, List.take_succ_cons, List.mem_cons] at hd
      rcases hd with rfl | hd
      · exact ⟨h0, Bool.eq_false_iff.mpr hends⟩
      · exact ih h d hd

/-- A primitive of an accepted text starts with a minus sign, a digit or the letter of a
literal, and holds no NUL. -/
theorem primitive_text {r : JsonReader} {json : Bytes} (hok : (r.parse json).1 = .ok)
    {tok : Option Nat} {t : JsmnToken} (ht : (r.parse json).2.token? tok = some t)
    (htype : t.type = .primitive) :
    (∃ c ∈ ((r.parse json).2.slice t.start t.stop).head?, jsmnCase c = .primitive) ∧
      0 ∉ (r.parse json).2.slice t.start t.stop := by
  obtain ⟨bs, n, hslice, -, hscanned⟩ := parse_scanned hok ht (.inr htype)
  obtain ⟨⟨c, hc, hcase⟩, hscan⟩ := hscanned htype
  have hbytes := scanPrimitive_bytes hscan
  rw [Nat.sub_zero] at hbytes
  rw [hslice]
  constructor
  · refine ⟨c, ?_, hcase⟩
    cases bs with
    | nil => cases hc
    | cons d rest =>
      cases hc
      cases n with
      | succ n => rfl
      | zero =>
        -- The first byte belongs to the primitive.
        have hends : scanPrimitive (c :: rest) 0 = scanPrimitive rest 1 := by
          have hc : c ≠ 0 ∧ endsPrimitive c = false ∧ ¬ (c < 32 ∨ 127 ≤ c) := by
            refine of_forall_ofNat (p := fun c => jsmnCase c = .primitive →
              c ≠ 0 ∧ endsPrimitive c = false ∧ ¬ (c < 32 ∨ 127 ≤ c)) ?_ c.toNat_lt hcase
            decide +kernel
          rw [scanPrimitive, if_neg hc.1, hc.2.1, if_neg Bool.false_ne_true, if_neg hc.2.2]
        rw [hends] at hscan
        exact absurd (scanPrimitive_lt hscan).1 (by decide)
  · intro hmem
    exact (hbytes 0 hmem).1 rfl

/-! ## `strtoll` on such a text -/

theorem isDigit_iff {c : UInt8} : isDigit c = true ↔ IsDigit c := decide_eq_true_iff

/-- All of a text is digits exactly if nothing follows its first digits. -/
theorem dropWhile_isDigit {s : Bytes} : s.dropWhile isDigit = [] ↔ ∀ c ∈ s, IsDigit c := by
  rw [List.dropWhile_eq_nil_iff]
  exact forall₂_congr fun _ _ => isDigit_iff

theorem takeWhile_isDigit {s : Bytes} (h : ∀ c ∈ s, IsDigit c) : s.takeWhile isDigit = s :=
  List.takeWhile_eq_self_iff.mpr fun c hc => isDigit_iff.mpr (h c hc)

/-- A number behind a minus sign or none. -/
def signed (neg : Bool) (n : Nat) : Int := if neg then -(n : Int) else n

/-- `strtoll` behind the sign. -/
def strtollDigits (neg : Bool) (s : Bytes) : Option (Int × Bytes) :=
  let digits := s.takeWhile isDigit
  let value := signed neg (ofDecimal digits)
  if digits = [] ∨ value < int64Min ∨ int64Max < value then none
  else some (value, s.dropWhile isDigit)

/-- It takes all of a text that is digits, if the number has 64 bits. -/
theorem strtollDigits_eq_some_iff {neg : Bool} {s : Bytes} {v : Int} :
    strtollDigits neg s = some (v, []) ↔
      (s ≠ [] ∧ (∀ c ∈ s, IsDigit c) ∧ v = signed neg (ofDecimal s)) ∧
        int64Min ≤ v ∧ v ≤ int64Max := by
  simp only [strtollDigits]
  constructor
  · intro h
    split_ifs at h with hnone
    obtain ⟨hne, hmin, hmax⟩ : _ ∧ _ ∧ _ := by rwa [not_or, not_or, not_lt, not_lt] at hnone
    have hrest : s.dropWhile isDigit = [] := congrArg Prod.snd (Option.some.inj h)
    have hall := dropWhile_isDigit.mp hrest
    rw [takeWhile_isDigit hall] at hne hmin hmax h
    obtain rfl : signed neg (ofDecimal s) = v := congrArg Prod.fst (Option.some.inj h)
    exact ⟨⟨hne, hall, rfl⟩, hmin, hmax⟩
  · rintro ⟨⟨hne, hall, rfl⟩, hmin, hmax⟩
    rw [takeWhile_isDigit hall, dropWhile_isDigit.mpr hall, if_neg]
    rintro (hnil | hlt | hlt)
    · exact hne hnil
    · exact absurd hmin (not_le.mpr hlt)
    · exact absurd hmax (not_le.mpr hlt)

/-- Before the sign there is nothing to skip: a primitive starts with none of the characters
that `strtoll` passes over. -/
theorem strtoll_primitive {c : UInt8} {rest : Bytes} (h : jsmnCase c = .primitive) :
    strtoll (c :: rest) =
      if c = 45 then strtollDigits true rest else strtollDigits false (c :: rest) := by
  have hc : (c == 32 || decide (9 ≤ c ∧ c ≤ 13)) = false ∧ c ≠ 43 := by
    refine of_forall_ofNat (p := fun c => jsmnCase c = .primitive →
      (c == 32 || decide (9 ≤ c ∧ c ≤ 13)) = false ∧ c ≠ 43) ?_ c.toNat_lt h
    decide +kernel
  have hspace : (c :: rest).dropWhile (fun c => c == 32 || decide (9 ≤ c ∧ c ≤ 13)) = c :: rest :=
    List.dropWhile_cons_of_neg (by rw [hc.1]; exact Bool.false_ne_true)
  have hplus : (some c == some (43 : UInt8)) = false := by simpa using hc.2
  rw [strtoll]
  rw [hspace]
  simp only [List.head?_cons, List.tail_cons, hplus, Bool.or_false]
  by_cases hminus : c = 45
  · subst hminus
    rfl
  · have hneg : (some c == some (45 : UInt8)) = false := by simpa using hminus
    rw [if_neg hminus, hneg]
    rfl

/-- **`strtoll` takes all of the text of a primitive exactly if it denotes an integer of 64
bits**, and that is what it returns. -/
theorem strtoll_eq_some_iff {text : Bytes} {v : Int}
    (hfirst : ∃ c ∈ text.head?, jsmnCase c = .primitive) :
    strtoll text = some (v, []) ↔ IntText text v ∧ int64Min ≤ v ∧ v ≤ int64Max := by
  obtain ⟨c, hc, hcase⟩ := hfirst
  cases text with
  | nil => cases hc
  | cons d rest =>
    cases hc
    rw [strtoll_primitive hcase]
    by_cases hminus : c = 45
    · subst hminus
      rw [if_pos rfl, strtollDigits_eq_some_iff]
      refine and_congr_left' ⟨?_, ?_⟩
      · rintro ⟨hne, hall, hv⟩
        exact ⟨rest, hne, hall, .inr ⟨rfl, hv⟩⟩
      · rintro ⟨digits, hne, hall, ⟨rfl, -⟩ | ⟨htext, hv⟩⟩
        · -- A minus sign is no digit.
          exact absurd (hall 45 List.mem_cons_self).1 (by decide)
        · cases htext
          exact ⟨hne, hall, hv⟩
    · rw [if_neg hminus, strtollDigits_eq_some_iff]
      refine and_congr_left' ⟨?_, ?_⟩
      · rintro ⟨hne, hall, hv⟩
        exact ⟨c :: rest, hne, hall, .inl ⟨rfl, hv⟩⟩
      · rintro ⟨digits, hne, hall, ⟨rfl, hv⟩ | ⟨htext, -⟩⟩
        · exact ⟨hne, hall, hv⟩
        · exact absurd (List.cons.inj htext).1 hminus

/-! ## `int_at` -/

section Accepted

variable {r : JsonReader} {json : Bytes} {tok : Option Nat} {t : JsmnToken}

/-- The text of a token is as long as its places say. -/
theorem length_slice (hok : (r.parse json).1 = .ok) (ht : (r.parse json).2.token? tok = some t) :
    (((r.parse json).2.slice t.start t.stop).length : Int) = t.stop - t.start := by
  obtain ⟨z, hz, -, hcomplete, -, hlists, hjson⟩ := parse_lists hok
  obtain ⟨i, n, kids, -, -, hat, rfl⟩ := hlists.at?_of_token? ht
  have hwithin := built_within hz hcomplete n (mem_labels_of_at? hat)
  rw [slice, JsonNode.token]
  dsimp only
  rw [List.length_drop, List.length_take, hjson]
  omega

/-- The array of `int_at` holds the text as a C string. -/
theorem number_cstr {text : Bytes} (h0 : 0 ∉ text) (hlen : text.length ≤ 20) :
    ∃ number, (Buf.zero 24).memcpy 0 text = some number ∧ number.cstr = text := by
  obtain ⟨number, hcopy, hbytes⟩ := (Buf.zero 24).memcpy_of_le 0 text (by omega)
  refine ⟨number, hcopy, ?_⟩
  have hrest : (Buf.zero 24).bytes.drop (0 + text.length) =
      0 :: List.replicate (23 - text.length) 0 := by
    show (List.replicate 24 0).drop (0 + text.length) = _
    rw [List.drop_replicate, ← List.replicate_succ]
    congr 1
    omega
  rw [Buf.cstr]
  rw [hbytes, hrest, List.take_zero, List.nil_append]
  exact cstr_append_nul h0

/-- What `int_at` takes: a primitive of at most 20 characters that denotes an integer of 64
bits. -/
def IntToken (r : JsonReader) (tok : Option Nat) (v : Int) : Prop :=
  ∃ t, r.token? tok = some t ∧ t.type = .primitive ∧ (r.slice t.start t.stop).length ≤ 20 ∧
    IntText (r.slice t.start t.stop) v ∧ int64Min ≤ v ∧ v ≤ int64Max

/-- A primitive goes to `strtoll` as it is, if it is short enough. -/
theorem intAtInto_primitive (hok : (r.parse json).1 = .ok)
    (ht : (r.parse json).2.token? tok = some t) (htype : t.type = .primitive)
    (hlen : ((r.parse json).2.slice t.start t.stop).length ≤ 20) (out : Int) :
    (r.parse json).2.intAtInto tok out =
      match strtoll ((r.parse json).2.slice t.start t.stop) with
      | some (value, []) => some (true, value)
      | _ => some (false, out) := by
  obtain ⟨⟨c, hc, -⟩, h0⟩ := primitive_text hok ht htype
  have hplaces := length_slice hok ht
  have hpos : 0 < ((r.parse json).2.slice t.start t.stop).length :=
    List.length_pos_of_mem (List.mem_of_mem_head? hc)
  obtain ⟨number, hcopy, hnumber⟩ := number_cstr h0 hlen
  rw [intAtInto]
  rw [ht]
  dsimp only
  rw [if_neg (by rintro (hne | hshort | hlong); exacts [hne htype, by omega, by omega]), hcopy]
  dsimp only
  rw [hnumber]

theorem intAtInto_of_intToken (hok : (r.parse json).1 = .ok) {v : Int}
    (h : IntToken (r.parse json).2 tok v) (out : Int) :
    (r.parse json).2.intAtInto tok out = some (true, v) := by
  obtain ⟨t, ht, htype, hlen, htext, hrange⟩ := h
  obtain ⟨hfirst, -⟩ := primitive_text hok ht htype
  rw [intAtInto_primitive hok ht htype hlen, (strtoll_eq_some_iff hfirst).mpr ⟨htext, hrange⟩]

/-- Any other token is refused, and `out` stays as it was. -/
theorem intAtInto_of_not (hok : (r.parse json).1 = .ok)
    (h : ∀ v, ¬ IntToken (r.parse json).2 tok v) (out : Int) :
    (r.parse json).2.intAtInto tok out = some (false, out) := by
  cases ht : (r.parse json).2.token? tok with
  | none =>
    rw [intAtInto]
    rw [ht]
  | some t =>
    have hplaces := length_slice hok ht
    by_cases htake : t.type = .primitive ∧ ((r.parse json).2.slice t.start t.stop).length ≤ 20
    · obtain ⟨htype, hlen⟩ := htake
      obtain ⟨hfirst, -⟩ := primitive_text hok ht htype
      rw [intAtInto_primitive hok ht htype hlen]
      split
      · rename_i value hvalue
        obtain ⟨htext, hrange⟩ := (strtoll_eq_some_iff hfirst).mp hvalue
        exact absurd ⟨t, ht, htype, hlen, htext, hrange⟩ (h value)
      · rfl
    · rw [intAtInto]
      rw [ht]
      dsimp only
      rw [if_pos]
      by_cases htype : t.type = .primitive
      · have hlong := not_and.mp htake htype
        exact .inr (.inr (by omega))
      · exact .inl htype

/-- `intAt` is the result without the parameter. -/
theorem intAtInto_eq_intAt (hok : (r.parse json).1 = .ok) (tok : Option Nat) (out : Int) :
    (r.parse json).2.intAtInto tok out =
      match (r.parse json).2.intAt tok with
      | some value => some (true, value)
      | none => some (false, out) := by
  cases ht : (r.parse json).2.token? tok with
  | none =>
    rw [intAtInto, intAt]
    rw [ht]
  | some t =>
    have hplaces := length_slice hok ht
    by_cases hno : t.type ≠ .primitive ∨ t.stop - t.start < 1 ∨ 20 < t.stop - t.start
    · rw [intAtInto, intAt]
      rw [ht]
      dsimp only
      rw [if_pos hno, if_pos hno]
    · obtain ⟨htype, -, hlen⟩ : ¬ _ ∧ ¬ _ ∧ ¬ _ := by rwa [not_or, not_or] at hno
      have htype : t.type = .primitive := not_not.mp htype
      obtain ⟨-, h0⟩ := primitive_text hok ht htype
      have hcstr : cstr ((r.parse json).2.slice t.start t.stop) =
          (r.parse json).2.slice t.start t.stop := by
        refine List.takeWhile_eq_self_iff.mpr fun c hc => ?_
        rw [bne_iff_ne]
        rintro rfl
        exact h0 hc
      rw [intAtInto_primitive hok ht htype (by omega), intAt, ht]
      dsimp only
      rw [if_neg hno, hcstr]
      cases strtoll ((r.parse json).2.slice t.start t.stop) with
      | none => rfl
      | some p =>
        obtain ⟨value, rest⟩ := p
        cases rest <;> rfl

end Accepted

/-! ## What the writer writes -/

/-- The characters of a whole number. -/
theorem IntText.byte {text : Bytes} {v : Int} (h : IntText text v) {c : UInt8} (hc : c ∈ text) :
    c = 45 ∨ IsDigit c := by
  obtain ⟨digits, -, hall, ⟨rfl, -⟩ | ⟨rfl, -⟩⟩ := h
  · exact .inr (hall c hc)
  · rcases List.mem_cons.mp hc with rfl | hc
    · exact .inl rfl
    · exact .inr (hall c hc)

/-- What `add_int` writes denotes its number. -/
theorem intText_decimalInt (v : Int) : IntText (decimalInt v) v := by
  refine ⟨decimal v.natAbs, decimal_ne_nil _, fun c hc => decimal_digit hc, ?_⟩
  rw [ofDecimal_decimal]
  rw [decimalInt]
  split
  · exact .inr ⟨rfl, by omega⟩
  · have habs : v.toNat = v.natAbs := by omega
    exact .inl ⟨by rw [habs], by omega⟩

/-- What `add_uint` writes denotes its number and no other. -/
theorem IntText.eq_of_decimal {n : Nat} {v : Int} (h : IntText (decimal n) v) : v = n := by
  obtain ⟨digits, -, -, ⟨rfl, hv⟩ | ⟨htext, -⟩⟩ := h
  · rw [hv, ofDecimal_decimal]
  · have hminus : (45 : UInt8) ∈ decimal n := htext ▸ List.mem_cons_self
    exact absurd (decimal_digit hminus).1 (by decide)

/-- A number with a fraction or an exponent is not whole. -/
theorem not_intText_of_fraction {n : Number} (h : n.frac ≠ none ∨ n.exponent ≠ none) (v : Int) :
    ¬ IntText n.bytes v := by
  intro htext
  rcases h with h | h
  · obtain ⟨ds, hds⟩ := Option.ne_none_iff_exists'.mp h
    have hpoint : (46 : UInt8) ∈ n.bytes := by
      rw [Number.bytes, Number.fracBytes]
      rw [hds]
      simp
    rcases htext.byte hpoint with heq | hdigit
    · exact absurd heq (by decide)
    · exact absurd hdigit.1 (by decide)
  · obtain ⟨e, he⟩ := Option.ne_none_iff_exists'.mp h
    have hletter : e.letter ∈ n.bytes := by
      unfold Number.bytes Number.expBytes Exponent.bytes
      rw [he]
      simp
    rcases htext.byte hletter with heq | hdigit
    · rcases e.letter_e with hl | hl <;> exact absurd (hl.symm.trans heq) (by decide)
    · rcases e.letter_e with hl | hl <;> exact absurd (hl ▸ hdigit.2) (by decide)

/-- In an accepted document every value has its subtree and its text. -/
theorem hasValue_of_at? {r : JsonReader} {d : Document} (hok : (r.parse d.bytes).1 = .ok)
    {i p : Nat} {v : Value} (hat : d.at? i = some (.value v, p)) :
    Lists (r.parse d.bytes).2 (documentForest d) ∧
      HasValue (documentForest d) (r.parse d.bytes).2.json i p v := by
  have hle : d.count ≤ r.maxTokens := by
    by_contra hlt
    rw [parse_document_full (by omega)] at hok
    cases hok
  obtain ⟨-, hlists, hjson⟩ := parse_document_lists (r := r) (d := d) hle
  refine ⟨hlists, ?_⟩
  rw [hjson]
  exact Document.hasPart hat

/-- The token of a number of a document has its text. -/
theorem token_number {r : JsonReader} {d : Document} (hok : (r.parse d.bytes).1 = .ok) {i p : Nat}
    {n : Number} (hat : d.at? i = some (.value (.number n), p)) :
    ∃ t, (r.parse d.bytes).2.token? (some i) = some t ∧ t.type = .primitive ∧
      (r.parse d.bytes).2.slice t.start t.stop = n.bytes := by
  obtain ⟨hlists, hvalue⟩ := hasValue_of_at? hok hat
  exact ⟨_, hlists.token_value hvalue, rfl, Lists.slice_value hvalue⟩

/-- **`int_at` reads the integers of 64 bits, and nothing else.** For every token of an accepted
text it returns true exactly if the token is a primitive of at most 20 characters, a minus
sign or none and then digits, that denotes an integer of 64 bits, which it stores; otherwise
`out` stays as it was. Wherever in a document they stand, it reads back what `add_int` wrote,
and it refuses what `add_uint` wrote from 2^63 on and every fraction or exponent. -/
theorem int_at_reads (r : JsonReader) (json : Bytes) (hok : (r.parse json).1 = .ok) (out : Int) :
    (∀ tok v, (r.parse json).2.intAtInto tok out = some (true, v) ↔
      IntToken (r.parse json).2 tok v) ∧
    (∀ tok, (∀ v, ¬ IntToken (r.parse json).2 tok v) →
      (r.parse json).2.intAtInto tok out = some (false, out)) ∧
    ∀ d : Document, json = d.bytes → ∀ i p,
      (∀ v, int64Min ≤ v → v ≤ int64Max → d.at? i = some (.value (Leaf.int v).value, p) →
        (r.parse json).2.intAtInto (some i) out = some (true, v)) ∧
      (∀ n, 2 ^ 63 ≤ n → d.at? i = some (.value (Leaf.uint n).value, p) →
        (r.parse json).2.intAtInto (some i) out = some (false, out)) ∧
      (∀ n : Number, n.frac ≠ none ∨ n.exponent ≠ none → d.at? i = some (.value (.number n), p) →
        (r.parse json).2.intAtInto (some i) out = some (false, out)) := by
  refine ⟨fun tok v => ⟨fun h => ?_, fun h => intAtInto_of_intToken hok h out⟩,
    fun tok h => intAtInto_of_not hok h out, ?_⟩
  · by_contra hno
    by_cases hother : ∃ v', IntToken (r.parse json).2 tok v'
    · obtain ⟨v', hv'⟩ := hother
      rw [intAtInto_of_intToken hok hv' out] at h
      cases h
      exact hno hv'
    · rw [intAtInto_of_not hok (not_exists.mp hother) out] at h
      cases h
  · rintro d rfl i p
    -- A number that is no whole one of 64 bits.
    have hrefused : ∀ n : Number, d.at? i = some (.value (.number n), p) →
        (∀ v, IntText n.bytes v → int64Max < v) →
        (r.parse d.bytes).2.intAtInto (some i) out = some (false, out) := by
      intro n hat hnot
      obtain ⟨t, ht, -, htext⟩ := token_number hok hat
      refine intAtInto_of_not hok (fun v hv => ?_) out
      obtain ⟨t', ht', -, -, hv, -, hmax⟩ := hv
      cases ht.symm.trans ht'
      rw [htext] at hv
      exact absurd hmax (not_le.mpr (hnot v hv))
    refine ⟨fun v hmin hmax hat => ?_, fun n hn hat => ?_, fun n hn hat => ?_⟩
    · obtain ⟨t, ht, htype, htext⟩ := token_number hok hat
      rw [bytes_wholeNumber] at htext
      refine intAtInto_of_intToken hok ⟨t, ht, htype, ?_, ?_, hmin, hmax⟩ out
      · rw [htext]
        exact (length_decimalInt ⟨hmin, hmax⟩).2
      · rw [htext]
        exact intText_decimalInt v
    · refine hrefused (wholeNumber false n) hat fun v hv => ?_
      have hbytes : (wholeNumber false n).bytes = decimal n := by
        simp [Number.bytes, wholeNumber, Number.fracBytes, Number.expBytes]
      rw [hbytes] at hv
      rw [hv.eq_of_decimal]
      unfold int64Max
      omega
    · exact hrefused n hat fun v hv => absurd hv (not_intText_of_fraction hn v)

/-- The least of them. -/
theorem int_at_reads_sample :
    ((new 8).parse (ascii "\x7b\"a\":-9223372036854775808\x7d")).2.intAtInto (some 2) 7 =
      some (true, -2 ^ 63) := by
  have hok : ((new 8).parse (ascii "\x7b\"a\":-9223372036854775808\x7d")).1 = .ok := by
    decide +kernel
  refine ((int_at_reads _ _ hok 7).1 (some 2) (-2 ^ 63)).mpr ?_
  refine ⟨⟨.primitive, 5, 25, 0⟩, by decide +kernel, rfl, by decide +kernel, ?_, by decide,
    by decide⟩
  exact ⟨ascii "9223372036854775808", by decide, by unfold IsDigit; decide +kernel,
    .inr ⟨by decide +kernel, by decide +kernel⟩⟩

end JsonReader

end SoulCloud
