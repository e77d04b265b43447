import Mathlib.Data.List.TakeWhile
import Mathlib.Data.Nat.Digits.Lemmas

/-!
# Byte strings, C strings and fixed-size buffers

C code moves text through arrays whose size is fixed and whose unused tail
keeps whatever was there before. `Buf n` is such an array: exactly `n` bytes,
by its type. `memcpy` writes into it and fails when the write would pass the
end, so an out-of-bounds write is an observable result of the model and not
something the model cannot express. `text k` reads the first `k` bytes and
`cstr` reads up to the first NUL.

Number formatting is here too: `decimal` is `printf`'s `%lu` and is injective,
`hexLower` is `%02x` byte by byte.
-/

/-- A byte string. -/
abbrev Bytes := List UInt8

namespace Bytes

/-- The bytes of an ASCII literal. -/
def ascii (s : String) : Bytes := s.toList.map fun c => c.toNat.toUInt8

/-- What C string functions see of a byte array: the bytes before the first NUL. -/
def cstr (b : Bytes) : Bytes := b.takeWhile (· != 0)

/-- The empty text has no NUL. -/
theorem nul_notMem_nil : (0 : UInt8) ∉ ([] : Bytes) := List.not_mem_nil

theorem cstr_nul (rest : Bytes) : cstr (0 :: rest) = [] := rfl

theorem cstr_cons {c : UInt8} (h : c ≠ 0) (rest : Bytes) : cstr (c :: rest) = c :: cstr rest :=
  List.takeWhile_cons_of_pos (by simpa using h)

/-- A text without a NUL is all of it a C string. -/
theorem cstr_eq_self_iff {b : Bytes} : cstr b = b ↔ 0 ∉ b := by
  rw [cstr, List.takeWhile_eq_self_iff]
  simp [List.forall_mem_ne']

/-- What stands behind a NUL is not read. -/
theorem cstr_append_zero (b rest : Bytes) : cstr (b ++ 0 :: rest) = cstr b := by
  induction b with
  | nil => rfl
  | cons c b ih =>
    by_cases hc : c = 0
    · rw [hc]
      rfl
    · rw [List.cons_append, cstr_cons hc, cstr_cons hc, ih]

theorem cstr_append_nul {b rest : Bytes} (h : 0 ∉ b) : cstr (b ++ 0 :: rest) = b := by
  rw [cstr_append_zero, cstr_eq_self_iff.mpr h]

theorem length_cstr_le (b : Bytes) : (cstr b).length ≤ b.length :=
  (List.takeWhile_prefix _).length_le

theorem nul_notMem_cstr (b : Bytes) : 0 ∉ cstr b := by
  intro hmem
  have hne := List.mem_takeWhile_imp hmem
  exact absurd hne (by decide)

/-- A C string in a buffer with room for `n` bytes before the NUL: it is the beginning of the
bytes, up to their end, their first NUL or the end of the room. -/
theorem cstr_take_eq_iff {b s : Bytes} {n : Nat} (hs : 0 ∉ s) (hlen : s.length ≤ n) :
    cstr (b.take n) = s ↔
      s <+: b ∧ (b.length = s.length ∨ b[s.length]? = some 0 ∨ s.length = n) := by
  induction b generalizing s n with
  | nil =>
    rw [List.take_nil, List.prefix_nil]
    constructor
    · rintro rfl
      exact ⟨rfl, .inl rfl⟩
    · rintro ⟨rfl, -⟩
      rfl
  | cons c b ih =>
    cases n with
    | zero =>
      obtain rfl : s = [] := List.eq_nil_of_length_eq_zero (Nat.le_zero.mp hlen)
      exact ⟨fun _ => ⟨List.nil_prefix, .inr (.inr rfl)⟩, fun _ => rfl⟩
    | succ n =>
      rw [List.take_succ_cons]
      by_cases hc : c = 0
      · subst hc
        rw [cstr_nul]
        cases s with
        | nil => exact ⟨fun _ => ⟨List.nil_prefix, .inr (.inl rfl)⟩, fun _ => rfl⟩
        | cons x s =>
          have hx : x ≠ 0 := fun h => hs (h ▸ List.mem_cons_self)
          refine ⟨nofun, fun h => absurd (List.cons_prefix_cons.mp h.1).1 hx⟩
      · rw [cstr_cons hc]
        cases s with
        | nil =>
          refine ⟨nofun, ?_⟩
          rintro ⟨-, hend | hend | hend⟩
          · cases hend
          · exact absurd (Option.some.inj hend) hc
          · cases hend
        | cons x s =>
          have htail := ih (fun h => hs (List.mem_cons_of_mem _ h)) (Nat.le_of_succ_le_succ hlen)
          rw [List.cons.injEq, htail, List.cons_prefix_cons, and_assoc, eq_comm (a := c),
            List.length_cons, List.length_cons, List.getElem?_cons_succ, Nat.add_right_cancel_iff,
            Nat.add_right_cancel_iff]

/-- The text a buffer of `size` bytes holds after `snprintf` of `t` into it: all of
`t`, or what leaves room for the NUL. -/
def snprintf (size : Nat) (t : Bytes) : Bytes := t.take (size - 1)

theorem snprintf_of_lt {size : Nat} {t : Bytes} (h : t.length < size) : snprintf size t = t :=
  List.take_of_length_le (by omega)

/-! ## Numbers as text -/

/-- The decimal digits of `n`, most significant first (`%lu`). -/
def decimal (n : Nat) : Bytes :=
  if n = 0 then [48] else (Nat.digits 10 n).reverse.map fun d => (48 + d).toUInt8

/-- A decimal digit is recovered from its character. -/
theorem digit_byte_inj {d e : Nat} (hd : d < 10) (he : e < 10)
    (h : (48 + d).toUInt8 = (48 + e).toUInt8) : d = e := by
  have := congrArg UInt8.toNat h
  simp only [Nat.toUInt8, UInt8.toNat_ofNat'] at this
  omega

theorem map_digit_inj :
    ∀ {ds es : List Nat}, (∀ d ∈ ds, d < 10) → (∀ e ∈ es, e < 10) →
      ds.map (fun d => (48 + d).toUInt8) = es.map (fun d => (48 + d).toUInt8) → ds = es
  | [], [], _, _, _ => rfl
  | [], _ :: _, _, _, h => by cases h
  | _ :: _, [], _, _, h => by cases h
  | d :: ds, e :: es, hd, he, h => by
    simp only [List.map_cons, List.cons.injEq] at h
    have hhead : d = e := digit_byte_inj (hd d (by simp)) (he e (by simp)) h.1
    have htail : ds = es :=
      map_digit_inj (fun x hx => hd x (by simp [hx])) (fun x hx => he x (by simp [hx])) h.2
    rw [hhead, htail]

theorem decimal_digits_ne_zero {n : Nat} (hn : n ≠ 0) :
    (Nat.digits 10 n).reverse.map (fun d => (48 + d).toUInt8) ≠ [48] := by
  intro h
  have hz : (Nat.digits 10 n).reverse = [0] := by
    refine map_digit_inj ?_ (by simp) (h.trans (by decide))
    intro d hd
    exact Nat.digits_lt_base (by norm_num) (List.mem_reverse.mp hd)
  have : Nat.digits 10 n = [0] := by simpa using hz
  have hval := Nat.ofDigits_digits 10 n
  rw [this] at hval
  exact hn (by simpa using hval.symm)

/-- `%lu` loses nothing: distinct numbers print differently. -/
theorem decimal_injective : Function.Injective decimal := by
  intro n m h
  unfold decimal at h
  by_cases hn : n = 0 <;> by_cases hm : m = 0
  · rw [hn, hm]
  · rw [if_pos hn, if_neg hm] at h
    exact absurd h.symm (decimal_digits_ne_zero hm)
  · rw [if_neg hn, if_pos hm] at h
    exact absurd h (decimal_digits_ne_zero hn)
  · rw [if_neg hn, if_neg hm] at h
    have hrev : (Nat.digits 10 n).reverse = (Nat.digits 10 m).reverse := by
      refine map_digit_inj ?_ ?_ h <;> intro d hd <;>
        exact Nat.digits_lt_base (by norm_num) (List.mem_reverse.mp hd)
    exact Nat.digits.injective 10 (List.reverse_injective hrev)

/-- The text of a signed number (`%lld`). -/
def decimalInt (i : Int) : Bytes := if i < 0 then 45 :: decimal i.natAbs else decimal i.toNat

/-- The number of digits. -/
theorem decimal_length_of_lt {n k : Nat} (hk : 0 < k) (h : n < 10 ^ k) :
    (decimal n).length ≤ k := by
  unfold decimal
  split
  · exact hk
  · rwa [List.length_map, List.length_reverse, Nat.digits_length_le_iff (by norm_num)]

/-- A 32-bit number has at most ten digits. -/
theorem decimal_length {n : Nat} (h : n < 2 ^ 32) : (decimal n).length ≤ 10 :=
  decimal_length_of_lt (by norm_num) (by omega)

/-- `%lu` prints digits only. -/
theorem decimal_digit {n : Nat} {c : UInt8} (h : c ∈ decimal n) : 48 ≤ c ∧ c ≤ 57 := by
  unfold decimal at h
  split at h
  · obtain rfl := List.mem_singleton.mp h
    decide
  · obtain ⟨d, hd, rfl⟩ := List.mem_map.mp h
    have hlt : d < 10 := Nat.digits_lt_base (by norm_num) (List.mem_reverse.mp hd)
    simp only [UInt8.le_iff_toNat_le, Nat.toUInt8, UInt8.toNat_ofNat', UInt8.toNat_ofNat]
    omega

/-- `%lu` prints no leading zeros. -/
theorem decimal_cases (n : Nat) :
    decimal n = [48] ∨ ∃ d ds, decimal n = d :: ds ∧ (49 ≤ d ∧ d ≤ 57) ∧
      ∀ c ∈ ds, 48 ≤ c ∧ c ≤ 57 := by
  by_cases hn : n = 0
  · exact .inl (if_pos hn)
  · right
    have hne : Nat.digits 10 n ≠ [] := Nat.digits_ne_nil_iff_ne_zero.mpr hn
    have hlast : (Nat.digits 10 n).getLast hne ≠ 0 := Nat.getLast_digit_ne_zero 10 hn
    have hlt : (Nat.digits 10 n).getLast hne < 10 :=
      Nat.digits_lt_base (by norm_num) (List.getLast_mem hne)
    have heq : decimal n = (48 + (Nat.digits 10 n).getLast hne).toUInt8 ::
        (Nat.digits 10 n).dropLast.reverse.map fun d => (48 + d).toUInt8 := by
      unfold decimal
      rw [if_neg hn]
      conv_lhs => rw [← List.dropLast_append_getLast hne]
      simp
    refine ⟨_, _, heq, ?_, ?_⟩
    · simp only [UInt8.le_iff_toNat_le, Nat.toUInt8, UInt8.toNat_ofNat', UInt8.toNat_ofNat]
      omega
    · intro c hc
      exact decimal_digit (heq ▸ List.mem_cons_of_mem _ hc)

/-- The number a run of decimal digits stands for. -/
def ofDecimal (b : Bytes) : Nat := b.foldl (fun n c => 10 * n + (c.toNat - 48)) 0

theorem ofDecimal_map_digits {ds : List Nat} (h : ∀ d ∈ ds, d < 10) :
    ofDecimal (ds.reverse.map fun d => (48 + d).toUInt8) = Nat.ofDigits 10 ds := by
  unfold ofDecimal
  rw [List.map_reverse, List.foldl_reverse]
  induction ds with
  | nil => rfl
  | cons d ds ih =>
    have hd : d < 10 := h d (by simp)
    have hbyte : ((48 + d).toUInt8).toNat - 48 = d := by
      simp only [Nat.toUInt8, UInt8.toNat_ofNat']
      omega
    rw [List.map_cons, List.foldr_cons, ih fun x hx => h x (by simp [hx]), hbyte,
      Nat.ofDigits_cons, Nat.add_comm]

/-- Reading back what `%lu` printed. -/
theorem ofDecimal_decimal (n : Nat) : ofDecimal (decimal n) = n := by
  unfold decimal
  by_cases hn : n = 0
  · rw [if_pos hn, hn]
    rfl
  · rw [if_neg hn, ofDecimal_map_digits fun d hd => Nat.digits_lt_base (by norm_num) hd,
      Nat.ofDigits_digits]

/-- A fact about small bytes is one about numbers. -/
theorem of_forall_ofNat {p : UInt8 → Prop} {k : Nat} (h : ∀ n < k, p (UInt8.ofNat n)) {c : UInt8}
    (hc : c.toNat < k) : p c := by
  have hp := h c.toNat hc
  rwa [UInt8.ofNat_toNat] at hp

/-- A lower-case hexadecimal digit. -/
def hexDigit (d : UInt8) : UInt8 := if d < 10 then 48 + d else 87 + d

theorem toNat_high (c : UInt8) : (c >>> 4).toNat = c.toNat / 16 := by
  rw [UInt8.toNat_shiftRight]
  exact Nat.shiftRight_eq_div_pow c.toNat 4

theorem toNat_low (c : UInt8) : (c &&& 15).toNat = c.toNat % 16 := by
  rw [UInt8.toNat_and]
  exact Nat.and_two_pow_sub_one_eq_mod c.toNat 4

/-- Half a byte is below 16. -/
theorem high_lt (c : UInt8) : (c >>> 4).toNat < 16 := by
  have hlt := c.toNat_lt
  rw [toNat_high]
  omega

theorem low_lt (c : UInt8) : (c &&& 15).toNat < 16 := by
  rw [toNat_low]
  omega

/-- Lower-case hexadecimal text, two digits a byte (`%02x`). -/
def hexLower (b : Bytes) : Bytes :=
  b.flatMap fun c : UInt8 => [hexDigit (c >>> 4), hexDigit (c &&& 15)]

end Bytes

/-! ## C strings -/

/-- A C string held in a `char[n]`, given by the bytes before its NUL. -/
structure CStr (n : Nat) where
  bytes : Bytes
  length_lt : bytes.length < n := by decide
  nul : 0 ∉ bytes := by decide
  deriving DecidableEq

theorem CStr.eq_iff {n : Nat} {a b : CStr n} : a = b ↔ a.bytes = b.bytes := by
  constructor
  · intro h
    rw [h]
  · intro h
    cases a
    cases b
    cases h
    rfl

/-! ## Fixed-size buffers -/

/-- An array of exactly `n` bytes. -/
structure Buf (n : Nat) where
  bytes : Bytes
  size : bytes.length = n

namespace Buf

variable {n : Nat}

/-- The zero-initialised array. -/
def zero (n : Nat) : Buf n := ⟨List.replicate n 0, List.length_replicate⟩

/-- The first `k` bytes. -/
def text (b : Buf n) (k : Nat) : Bytes := b.bytes.take k

/-- The array read as a C string. -/
def cstr (b : Buf n) : Bytes := Bytes.cstr b.bytes

/-- Store one byte. -/
def set (b : Buf n) (i : Fin n) (c : UInt8) : Buf n :=
  ⟨b.bytes.set i c, by rw [List.length_set]; exact b.size⟩

/-- Copy `d` to offset `off`, where there is room for it. -/
def write (b : Buf n) (off : Nat) (d : Bytes) (h : off + d.length ≤ n) : Buf n :=
  ⟨b.bytes.take off ++ d ++ b.bytes.drop (off + d.length), by
    have := b.size
    simp only [List.length_append, List.length_take, List.length_drop]
    omega⟩

/-- Copy `d` to offset `off`; `none` when that would write past the end. -/
def memcpy (b : Buf n) (off : Nat) (d : Bytes) : Option (Buf n) :=
  if h : off + d.length ≤ n then
    some ⟨b.bytes.take off ++ d ++ b.bytes.drop (off + d.length), by
      have := b.size
      simp only [List.length_append, List.length_take, List.length_drop]
      omega⟩
  else none

/-- A write that stays inside the array succeeds. -/
theorem memcpy_of_le (b : Buf n) (off : Nat) (d : Bytes) (h : off + d.length ≤ n) :
    ∃ b', b.memcpy off d = some b' ∧
      b'.bytes = b.bytes.take off ++ d ++ b.bytes.drop (off + d.length) := by
  rw [memcpy, dif_pos h]
  exact ⟨_, rfl, rfl⟩

theorem memcpy_eq_write (b : Buf n) {off : Nat} {d : Bytes} (h : off + d.length ≤ n) :
    b.memcpy off d = some (b.write off d h) :=
  dif_pos h

/-- Copying one byte is storing it. -/
theorem memcpy_singleton (b : Buf n) (i : Fin n) (c : UInt8) :
    b.memcpy i [c] = some (b.set i c) := by
  have hset : b.bytes.set i c = b.bytes.take i ++ [c] ++ b.bytes.drop (i + 1) := by
    rw [List.set_eq_take_append_cons_drop, if_pos (by rw [b.size]; exact i.isLt), List.append_assoc]
    rfl
  have hfits : i.val + [c].length ≤ n := i.isLt
  rw [b.memcpy_eq_write hfits, write, set]
  simp only [hset, List.length_singleton]

theorem eq_write_of_memcpy {b b' : Buf n} {off : Nat} {d : Bytes} (h : b.memcpy off d = some b') :
    ∃ hle, b' = b.write off d hle := by
  unfold memcpy at h
  split at h
  · rename_i hle
    cases h
    exact ⟨hle, rfl⟩
  · cases h

/-- The bytes up to the end of a copy are the old ones before it and the new ones. -/
theorem text_write (b : Buf n) {off : Nat} {d : Bytes} (h : off + d.length ≤ n) :
    (b.write off d h).text (off + d.length) = b.text off ++ d := by
  have hlen : (b.bytes.take off).length = off := by
    rw [List.length_take, b.size]
    omega
  show (b.bytes.take off ++ d ++ _).take (off + d.length) = b.bytes.take off ++ d
  rw [List.take_left' (by rw [List.length_append, hlen])]

theorem text_memcpy {b b' : Buf n} {off : Nat} {d : Bytes} (h : b.memcpy off d = some b') :
    b'.text (off + d.length) = b.text off ++ d := by
  obtain ⟨hle, rfl⟩ := eq_write_of_memcpy h
  exact b.text_write hle

/-- A write leaves the bytes before it alone. -/
theorem text_memcpy_of_le {b b' : Buf n} {off k : Nat} {d : Bytes}
    (h : b.memcpy off d = some b') (hk : k ≤ off) : b'.text k = b.text k := by
  have hoff := text_memcpy h
  have htake := congrArg (List.take k) hoff
  obtain ⟨hn, -⟩ := eq_write_of_memcpy h
  simp only [text, List.take_take] at htake ⊢
  rw [Nat.min_eq_left (by omega)] at htake
  rw [htake, List.take_append_of_le_length (by rw [List.length_take, b.size]; omega),
    List.take_take, Nat.min_eq_left hk]

/-- Storing a byte leaves the bytes before it alone. -/
theorem text_set_of_le (b : Buf n) {i : Fin n} {k : Nat} (c : UInt8) (h : k ≤ i) :
    (b.set i c).text k = b.text k := by
  show (b.bytes.set i c).take k = b.bytes.take k
  rw [List.take_set, List.set_eq_of_length_le]
  rw [List.length_take]
  omega

theorem getElem?_set_self (b : Buf n) (i : Fin n) (c : UInt8) :
    (b.set i c).bytes[i.val]? = some c := by
  show (b.bytes.set i c)[i.val]? = some c
  rw [List.getElem?_set_self (by rw [b.size]; exact i.isLt)]

/-- The bytes up to a stored one. -/
theorem text_set_self (b : Buf n) (i : Fin n) (c : UInt8) :
    (b.set i c).text (i + 1) = b.text i ++ [c] := by
  have hkeep := b.text_set_of_le c (Nat.le_refl i.val)
  have hget := b.getElem?_set_self i c
  unfold text at hkeep ⊢
  rw [List.take_add_one, hkeep, hget]
  rfl

theorem text_zero (b : Buf n) : b.text 0 = [] := rfl

/-- Copying a text that leaves room for a NUL, and then the NUL. -/
theorem memcpy_text (b : Buf n) {d : Bytes} (h : d.length < n) :
    ∃ b₁ b₂, b.memcpy 0 d = some b₁ ∧ b₁.memcpy d.length [0] = some b₂ ∧
      b₂.text (d.length + 1) = d ++ [0] := by
  obtain ⟨b₁, hb₁, -⟩ := b.memcpy_of_le 0 d (by omega)
  obtain ⟨b₂, hb₂, -⟩ := b₁.memcpy_of_le d.length [0] h
  refine ⟨b₁, b₂, hb₁, hb₂, ?_⟩
  have htext : b₁.text d.length = d := by
    have := text_memcpy hb₁
    rwa [Nat.zero_add, text_zero, List.nil_append] at this
  have hnul := text_memcpy hb₂
  rwa [htext] at hnul

/-- A text followed by a NUL reads back as a C string. -/
theorem cstr_of_text_nul {b : Buf n} {d : Bytes} {k : Nat} (h : b.text k = d ++ [0]) :
    b.cstr = Bytes.cstr d := by
  have hsplit : b.bytes = (d ++ [0]) ++ b.bytes.drop k := by
    rw [← h]
    exact (List.take_append_drop k b.bytes).symm
  rw [cstr, hsplit, List.append_assoc]
  exact Bytes.cstr_append_zero d _

/-- A NUL-free text comes back whole. -/
theorem cstr_of_text {b : Buf n} {d : Bytes} (hd : 0 ∉ d)
    (h : b.text (d.length + 1) = d ++ [0]) : b.cstr = d := by
  rw [cstr_of_text_nul h, Bytes.cstr_eq_self_iff.mpr hd]

end Buf
