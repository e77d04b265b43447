import SoulCloud.Json.Numbers

/-!
# Looking up a key that is spelled with escapes

`find` compares a key with the text of a member's key as it is spelled, while `str_at` and
the writer know about escapes. The two agree about a key exactly if the first member that has
it is spelled without an escape.

- `decodedKey`: a key as `str_at` gives it.
- `Members.firstDecoded?`: the first member with a decoded key; `Members.meant?`: its value.
- `find?_firstDecoded?`: what the search for a spelling makes of it.
- `find_decoded_iff`: **`find` returns the first member with a key exactly if no escape spells
  it.** `find_written_iff`: for the keys that the writer writes.
-/

namespace SoulCloud

open Bytes Json Forest

namespace JsonReader

/-! ## Spelling and meaning -/

theorem length_emitCode (code : Nat) : (emitCode code).length ≤ 3 := by
  unfold emitCode
  dsimp only
  split_ifs <;> simp

/-- Escapes are longer than what they stand for. -/
theorem Spells.length_lt {text out : Bytes} (h : Spells text out) :
    out.length ≤ text.length ∧ (92 ∈ text → out.length < text.length) := by
  induction h with
  | nil => exact ⟨Nat.le_refl _, fun h => by cases h⟩
  | @plain c text out hc _ ih =>
    obtain ⟨hle, hlt⟩ := ih
    refine ⟨Nat.succ_le_succ hle, fun hmem => ?_⟩
    rcases List.mem_cons.mp hmem with heq | hmem
    · exact absurd heq.symm hc
    · exact Nat.succ_lt_succ (hlt hmem)
  | simple _ _ ih =>
    simp only [List.length_cons]
    omega
  | @unicode a b c d a' b' c' d' text out _ _ ih =>
    have hcode := length_emitCode (hexCode a' b' c' d')
    simp only [List.length_cons, List.length_append]
    omega

/-- Without an escape a text means itself. -/
theorem Spells.eq_of_plain {text out : Bytes} (h : Spells text out) (hplain : 92 ∉ text) :
    out = text := by
  induction h with
  | nil => rfl
  | plain _ _ ih => rw [ih fun hmem => hplain (List.mem_cons_of_mem _ hmem)]
  | simple _ _ _ => exact absurd List.mem_cons_self hplain
  | unicode _ _ _ => exact absurd List.mem_cons_self hplain

/-- A text means itself exactly if there is no escape in it. -/
theorem Spells.eq_iff {text out : Bytes} (h : Spells text out) : text = out ↔ 92 ∉ text := by
  constructor
  · rintro rfl hmem
    exact Nat.lt_irrefl _ (h.length_lt.2 hmem)
  · exact fun hplain => (h.eq_of_plain hplain).symm

/-- A key as `str_at` gives it, when there is room for all of it. -/
def decodedKey (s : Str) : Bytes := (unescape (spelled s).length (spelled s)).getD []

theorem spells_decodedKey (s : Str) : Spells (spelled s) (decodedKey s) := by
  obtain ⟨out, hout⟩ := exists_spells s
  have hkey : decodedKey s = out := by
    rw [decodedKey]
    rw [hout.unescape hout.length_lt.1]
    rfl
  rwa [hkey]

end JsonReader

end SoulCloud

namespace Json

open SoulCloud.JsonReader

/-- The key of the first member whose decoded key is `k`, and where its value is among the
members' nodes. -/
def Members.firstDecoded? (k : Bytes) : Members → Option (Str × Nat)
  | .nil _ => none
  | .cons _ key _ _ value _ rest =>
    if decodedKey key = k then some (key, 1)
    else (rest.firstDecoded? k).map fun found => (found.1, value.count + 1 + found.2)

/-- The value of the first member whose decoded key is `k`, however that key is spelled. -/
def Members.meant? (k : Bytes) : Members → Option Value
  | .nil _ => none
  | .cons _ key _ _ value _ rest => if decodedKey key = k then some value else rest.meant? k

theorem Members.decodedKey_of_firstDecoded? {ms : Members} {k : Bytes} {key : Str} {j : Nat}
    (h : ms.firstDecoded? k = some (key, j)) : decodedKey key = k := by
  match ms with
  | .nil _ => cases h
  | .cons _ first _ _ value _ rest =>
    rw [Members.firstDecoded?] at h
    split_ifs at h with hkey
    · cases h
      exact hkey
    · obtain ⟨⟨key', j'⟩, hrest, heq⟩ := Option.map_eq_some_iff.mp h
      cases heq
      exact rest.decodedKey_of_firstDecoded? hrest

theorem Members.find?_pos {ms : Members} {k : Bytes} {j : Nat} (h : ms.find? k = some j) :
    0 < j := by
  match ms with
  | .nil _ => cases h
  | .cons _ _ _ _ value _ rest =>
    rw [Members.find?] at h
    split_ifs at h
    · cases h
      exact Nat.one_pos
    · obtain ⟨j', -, rfl⟩ := Option.map_eq_some_iff.mp h
      omega

/-- The member is in the document: its key stands right before its value. -/
theorem Members.at?_firstDecoded? {ms : Members} {k : Bytes} {key : Str} {j : Nat}
    (h : ms.firstDecoded? k = some (key, j)) (first : Bool) (pos : Nat) :
    0 < j ∧ ∃ v p p', ms.at? first pos (j - 1) = some (.key key v, p) ∧
      ms.at? first pos j = some (.value v, p') ∧ j < ms.count := by
  match ms with
  | .nil _ => cases h
  | .cons lead key₀ beforeColon afterColon value trail rest =>
    have hpos := value.count_pos
    rw [Members.firstDecoded?] at h
    split_ifs at h
    · cases h
      refine ⟨Nat.one_pos, value, _, valuePos (keyPos first pos lead) key beforeColon afterColon,
        rfl, ?_, ?_⟩
      · simp only [Members.at?, if_pos hpos, Value.at?_zero]
      · simp only [Members.count]
        omega
    · obtain ⟨⟨key', j'⟩, hrest, heq⟩ := Option.map_eq_some_iff.mp h
      cases heq
      obtain ⟨hj, v, p, p', hkey, hvalue, hlt⟩ := rest.at?_firstDecoded? hrest false
        (nextPos (valuePos (keyPos first pos lead) key₀ beforeColon afterColon) value trail)
      have hbefore : value.count + 1 + j' - 1 = value.count + (j' - 1) + 1 := by omega
      have hat : value.count + 1 + j' = value.count + j' + 1 := by omega
      refine ⟨by omega, v, p, p', ?_, ?_, ?_⟩
      · rw [hbefore]
        simp only [Members.at?]
        rwa [if_neg (by omega), Nat.add_sub_cancel_left]
      · rw [hat]
        simp only [Members.at?]
        rwa [if_neg (by omega), Nat.add_sub_cancel_left]
      · simp only [Members.count]
        omega

/-- **The search for a spelling finds the first member that means it exactly if no escape is in
that member's key.** By induction on the members: a member whose spelling is the key but which
means something else has an escape, so that the key has a backslash, which only an escape can
stand for. -/
theorem Members.find?_firstDecoded? {ms : Members} {k : Bytes} {key : Str} {j : Nat}
    (h : ms.firstDecoded? k = some (key, j)) : ms.find? k = some j ↔ 92 ∉ spelled key := by
  match ms with
  | .nil _ => cases h
  | .cons _ first _ _ value _ rest =>
    have hfirst := spells_decodedKey first
    rw [Members.firstDecoded?] at h
    rw [Members.find?]
    split_ifs at h with hkey
    · cases h
      rw [hkey] at hfirst
      rw [← hfirst.eq_iff]
      by_cases hspelled : spelled key = k
      · rw [if_pos hspelled]
        exact iff_of_true rfl hspelled
      · rw [if_neg hspelled]
        refine iff_of_false (fun hfind => ?_) hspelled
        obtain ⟨j', hj', heq⟩ := Option.map_eq_some_iff.mp hfind
        have := rest.find?_pos hj'
        omega
    · obtain ⟨⟨key', j'⟩, hrest, heq⟩ := Option.map_eq_some_iff.mp h
      cases heq
      have hmeans := spells_decodedKey key'
      rw [rest.decodedKey_of_firstDecoded? hrest] at hmeans
      have ih := rest.find?_firstDecoded? hrest
      by_cases hspelled : spelled first = k
      · rw [if_pos hspelled]
        have hback : 92 ∈ k := by
          by_contra hno
          rw [← hspelled] at hno
          exact hkey ((hfirst.eq_of_plain hno).trans hspelled)
        refine iff_of_false (fun hone => ?_) (fun hplain => ?_)
        · have hpos := value.count_pos
          have heq : 1 = value.count + 1 + j' := Option.some.inj hone
          omega
        · rw [← hmeans.eq_iff] at hplain
          exact (hmeans.eq_iff.mp hplain) (hplain ▸ hback)
      · rw [if_neg hspelled, ← ih]
        constructor
        · intro hfind
          obtain ⟨j'', hj'', heq⟩ := Option.map_eq_some_iff.mp hfind
          have : j'' = j' := by omega
          rwa [← this]
        · intro hfind
          rw [hfind]
          rfl

end Json

namespace SoulCloud

open Bytes Json Forest

namespace JsonReader

variable {r : JsonReader} {d : Document}

/-- `find` in an object of an accepted document is the search for the spelling. -/
theorem find_document_iff (hok : (r.parse d.bytes).1 = .ok) {i pos : Nat} {ms : Members}
    (hat : d.at? i = some (.value (.object ms), pos)) (k : Bytes) (j : Nat) :
    (r.parse d.bytes).2.find (some i) k = some (i + 1 + j) ↔ ms.find? k = some j := by
  obtain ⟨hlists, hvalue⟩ := hasValue_of_at? hok hat
  rw [hlists.find_object hvalue k, Option.map_eq_some_iff]
  constructor
  · rintro ⟨j', hj', heq⟩
    rwa [show j' = j by omega] at hj'
  · exact fun hj => ⟨j, hj, rfl⟩

/-- The first member with a decoded key: `str_at` gives the key for the token before the value's,
if there is room for it. -/
theorem strAt_firstDecoded? (hok : (r.parse d.bytes).1 = .ok) {i pos : Nat} {ms : Members}
    (hat : d.at? i = some (.value (.object ms), pos)) {k : Bytes} {key : Str} {j : Nat}
    (hfirst : ms.firstDecoded? k = some (key, j)) {cap : Nat} (hroom : k.length < cap) :
    (r.parse d.bytes).2.strAt (some (i + j)) cap = some k ∧
      ∃ v p, d.at? (i + 1 + j) = some (.value v, p) := by
  obtain ⟨hj, v, p, p', hkey, hvalue, hlt⟩ := ms.at?_firstDecoded? hfirst true (pos + 1)
  obtain ⟨hlists, hobject⟩ := hasValue_of_at? hok hat
  have hpart : HasPart (documentForest d) (r.parse d.bytes).2.json (i + 1 + (j - 1)) p
      (.key key v) := hobject.members.part hkey
  obtain ⟨⟨vn, vkids, htree, -⟩, htext⟩ := hpart
  have hquoted : HasText (r.parse d.bytes).2.json p ([34] ++ (spelled key ++ [34])) := htext
  have hslice := hquoted.right.left.slice
  have hmeans := spells_decodedKey key
  rw [ms.decodedKey_of_firstDecoded? hfirst] at hmeans
  constructor
  · rw [show i + j = i + 1 + (j - 1) by omega, strAt, hlists.token?_of htree]
    dsimp only
    rw [if_neg (by rintro (hne | hlt); exacts [hne rfl, by omega])]
    show unescape (cap - 1) ((r.parse d.bytes).2.slice ((p + 1 : Nat) : Int)
      ((p + 1 + (spelled key).length : Nat) : Int)) = some k
    rw [List.length_singleton] at hslice
    rw [hslice, hmeans.unescape_eq, if_pos (by omega)]
  · have hbelow := Value.at?_add hat (j := 1 + j) (by simp only [Value.count]; omega)
    rw [← Nat.add_assoc] at hbelow
    have hnode : Value.at? (.object ms) pos (1 + j) = some (.value v, p') := by
      rw [Nat.add_comm]
      exact hvalue
    exact ⟨v, p', hbelow.1.trans hnode⟩

/-- **`find` returns the first member with a key exactly if no escape spells it.** In any object of
a document that is accepted: where `j` is the place of the first member whose decoded key is
`k`, `find` returns that member's value if there is no backslash in its key as it is spelled,
and something else or nothing if there is one. -/
theorem find_decoded_iff (hok : (r.parse d.bytes).1 = .ok) {i pos : Nat} {ms : Members}
    (hat : d.at? i = some (.value (.object ms), pos)) {k : Bytes} {key : Str} {j : Nat}
    (hfirst : ms.firstDecoded? k = some (key, j)) :
    (r.parse d.bytes).2.find (some i) k = some (i + 1 + j) ↔ 92 ∉ spelled key := by
  rw [find_document_iff hok hat, ms.find?_firstDecoded? hfirst]

/-- The document `\x7b"\u0061":null\x7d`, whose key is an escaped `a`. -/
def escapedKey : Document :=
  ⟨.none, .cons .none [.unicode 48 48 54 49 (by unfold IsHex; decide)] .none .none
    (.literal .null) .none (.nil .none), .none⟩

/-- `find` does not find it. -/
theorem find_misses_escaped_key :
    WellFormed escapedKey.bytes ∧ ((new 8).parse escapedKey.bytes).1 = .ok ∧
      escapedKey.at? 0 = some (.value (.object escapedKey.members), 0) ∧
      escapedKey.members.firstDecoded? (ascii "a") =
        some ([.unicode 48 48 54 49 (by unfold IsHex; decide)], 1) ∧
      ((new 8).parse escapedKey.bytes).2.strAt (some 1) 8 = some (ascii "a") ∧
      ((new 8).parse escapedKey.bytes).2.find (some 0) (ascii "a") = none := by
  refine ⟨⟨⟨"\x7b\"\\u0061\":null\x7d".toList, by decide +kernel⟩, escapedKey, rfl⟩,
    by decide +kernel, rfl, rfl, by decide +kernel, by decide +kernel⟩

/-- The same object with its key spelled plainly. -/
theorem find_decoded_iff_sample :
    let d : Document := ⟨.none, .cons .none [.plain 97 (by decide)] .none .none (.literal .null)
      .none (.nil .none), .none⟩
    ((new 8).parse d.bytes).2.find (some 0) (ascii "a") = some 2 ↔
      92 ∉ spelled [.plain 97 (by decide)] := by
  intro d
  have hat : d.at? 0 = some (.value (.object d.members), 0) := rfl
  have hok : ((new 8).parse d.bytes).1 = .ok := by decide +kernel
  have hfirst : d.members.firstDecoded? (ascii "a") = some ([.plain 97 (by decide)], 1) := rfl
  exact find_decoded_iff hok hat hfirst

/-! ## The keys the writer writes -/

/-- A key is written without an escape exactly if every character stands for itself. -/
theorem plainText_iff (k : Bytes) : PlainText k ↔ 92 ∉ spelled (escapeStr k) := by
  have hspells : Spells (spelled (escapeStr k)) k := by
    have hlen := unescape_escapeStr k (Nat.le_refl _)
    exact (spells_of_unescape hlen).1
  constructor
  · intro hplain hmem
    rw [spelled_escapeStr, flatMap_escape_of_plain hplain] at hmem
    exact (hplain 92 hmem).2.2 rfl
  · intro hno c hc
    by_contra hspecial
    have hsame := hspells.eq_of_plain hno
    -- The byte would be spelled with a backslash.
    have hescape : 92 ∈ JsonText.escape c := by
      rw [JsonText.escape]
      split_ifs with h34 h92 h10 h13 h9 hctl
      · exact List.mem_cons_self
      · exact List.mem_cons_self
      · exact List.mem_cons_self
      · exact List.mem_cons_self
      · exact List.mem_cons_self
      · exact List.mem_cons_self
      · exact absurd ⟨UInt8.not_lt.mp hctl, h34, h92⟩ hspecial
    rw [spelled_escapeStr] at hno
    exact hno (List.mem_flatMap.mpr ⟨c, hc, hescape⟩)

/-- **A key that the writer wrote is found exactly if it needed no escape.** -/
theorem find_written_iff (hok : (r.parse d.bytes).1 = .ok) {i pos : Nat} {ms : WrittenMembers}
    (hat : d.at? i = some (.value (.object ms.members), pos)) {k : Bytes} {j : Nat}
    (hfirst : ms.members.firstDecoded? k = some (escapeStr k, j)) :
    (r.parse d.bytes).2.find (some i) k = some (i + 1 + j) ↔ PlainText k := by
  rw [plainText_iff, find_document_iff hok hat, ms.members.find?_firstDecoded? hfirst]

end JsonReader

end SoulCloud
