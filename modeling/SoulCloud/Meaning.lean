import SoulCloud.Builtins
import SoulCloud.FirstConnection
import SoulCloud.Json.Numbers

/-!
# What the decoders make of a JSON value

The decoders of `sc_codec` walk tokens. Here they are functions of the JSON value that a token
stands for, so that what they make of a text does not depend on its layout, on the other members
around an object, or on which document the object is in.

- `Stands`: a token of a parsed document stands for a value of it, or for a missing one.
- `integerOf`, `boolOf`, `Value.member?`: `int_at`, `get_bool` and `find` on values.
- `SaysUpdate`: the update that an object says.
- `ota_params_said`: **an update is decoded alike wherever its object stands**, in the answer to
  `ota.check` as in the parameters of `ota.start`.
- `first_call_said`: **the clock and the update of the first connection** are those that the
  document says.
-/

namespace Json

/-- The value of the first member with the key, if it is an object. -/
def Value.member? (key : Bytes) : Value → Option Value
  | .object members => members.lookup? key
  | .array _ | .string _ | .number _ | .literal _ => none

def Value.isObject : Value → Bool
  | .object _ => true
  | .array _ | .string _ | .number _ | .literal _ => false

end Json

namespace Bytes

theorem ofDecimal_append_singleton (ds : Bytes) (d : UInt8) :
    ofDecimal (ds ++ [d]) = 10 * ofDecimal ds + (d.toNat - 48) := by
  rw [ofDecimal, List.foldl_append]
  rfl

/-- A number without a leading zero is as large as its length says. -/
theorem pow_le_ofDecimal {d : UInt8} (hd : 49 ≤ d) (ds : Bytes) :
    10 ^ ds.length ≤ ofDecimal (d :: ds) := by
  induction ds using List.reverseRecOn with
  | nil =>
    have hle : 49 ≤ d.toNat := hd
    show 10 ^ 0 ≤ 10 * 0 + (d.toNat - 48)
    omega
  | append_singleton ds e ih =>
    rw [← List.cons_append, ofDecimal_append_singleton, List.length_append, List.length_singleton,
      pow_succ]
    omega

end Bytes

namespace SoulCloud

open Bytes Forest Json

/-! ## Integers and booleans -/

/-- The integer of 64 bits that a value is: a number without fraction and exponent. -/
def integerOf : Value → Option Int
  | .number n =>
    let v := JsonReader.signed n.minus (ofDecimal n.int)
    if n.frac = none ∧ n.exponent.isNone ∧ JsonReader.int64Min ≤ v ∧ v ≤ JsonReader.int64Max then
      some v
    else none
  | .object _ | .array _ | .string _ | .literal _ => none

def boolOf : Value → Option Bool
  | .literal .true => some true
  | .literal .false => some false
  | .object _ | .array _ | .string _ | .number _ | .literal .null => none

/-- A number is written in as many characters as its size asks for. -/
theorem length_int_le (n : Number) (h : ofDecimal n.int ≤ 2 ^ 63) : n.int.length ≤ 19 := by
  rcases n.int_ok with hzero | ⟨d, ds, hint, ⟨hd, -⟩, -⟩
  · rw [hzero]
    decide
  · rw [hint] at h ⊢
    by_contra hlong
    have hpow : 10 ^ 19 ≤ 10 ^ ds.length :=
      Nat.pow_le_pow_right (by omega) (by rw [List.length_cons] at hlong; omega)
    have hle := hpow.trans (pow_le_ofDecimal hd ds)
    omega

theorem isDigit_int (n : Number) : n.int ≠ [] ∧ ∀ c ∈ n.int, IsDigit c := by
  rcases n.int_ok with hzero | ⟨d, ds, hint, ⟨hd, hd'⟩, hds⟩
  · rw [hzero]
    refine ⟨List.cons_ne_nil _ _, fun c hc => ?_⟩
    rw [List.mem_singleton.mp hc]
    exact ⟨by decide, by decide⟩
  · rw [hint]
    refine ⟨List.cons_ne_nil _ _, fun c hc => ?_⟩
    rcases List.mem_cons.mp hc with rfl | hc
    · exact ⟨UInt8.le_trans (by decide) hd, hd'⟩
    · exact hds c hc

namespace JsonReader

/-- The text of a number without fraction and exponent. -/
theorem bytes_whole {n : Number} (hfrac : n.frac = none) (hexp : n.exponent = none) :
    n.bytes = (if n.minus then [45] else []) ++ n.int := by
  rw [Number.bytes, Number.fracBytes, Number.expBytes]
  rw [hfrac, hexp]
  simp only [List.append_nil]

/-- It denotes the integer that it is, and no other. -/
theorem intText_whole {n : Number} (hfrac : n.frac = none) (hexp : n.exponent = none) (v : Int) :
    IntText n.bytes v ↔ v = signed n.minus (ofDecimal n.int) := by
  obtain ⟨hne, hdigits⟩ := isDigit_int n
  have hminus : (45 : UInt8) ∉ n.int := fun hmem => absurd (hdigits 45 hmem).1 (by decide)
  rw [bytes_whole hfrac hexp]
  cases n.minus with
  | true =>
    constructor
    · rintro ⟨digits, -, hall, ⟨htext, -⟩ | ⟨htext, hv⟩⟩
      · have hmem : (45 : UInt8) ∈ digits := htext ▸ List.mem_cons_self
        exact absurd (hall 45 hmem).1 (by decide)
      · rw [← (List.cons.inj htext).2] at hv
        exact hv
    · intro hv
      exact ⟨n.int, hne, hdigits, .inr ⟨rfl, hv⟩⟩
  | false =>
    constructor
    · rintro ⟨digits, -, hall, ⟨htext, hv⟩ | ⟨htext, -⟩⟩
      · obtain rfl : n.int = digits := htext
        exact hv
      · have hmem : (45 : UInt8) ∈ n.int := by
          rw [show n.int = 45 :: digits from htext]
          exact List.mem_cons_self
        exact absurd hmem hminus
    · intro hv
      exact ⟨n.int, hne, hdigits, .inl ⟨rfl, hv⟩⟩

/-! ## Tokens and the values they stand for -/

/-- The token stands for the value; no token stands for a missing one. -/
inductive Stands (d : Document) : Option Nat → Option Value → Prop
  | missing : Stands d none none
  | value {i pos : Nat} {v : Value} (hat : d.at? i = some (.value v, pos)) :
      Stands d (some i) (some v)

/-- The first token stands for the root. -/
theorem Stands.root (d : Document) : Stands d (some 0) (some d.root) :=
  .value (Value.at?_zero _ d.lead.bytes.length)

variable {r : JsonReader} {d : Document} {tok : Option Nat} {v : Option Value}

theorem Stands.isObject (hle : d.count ≤ r.maxTokens) (h : Stands d tok v) :
    (r.parse d.bytes).2.isObject tok = (v.map Value.isObject).getD false := by
  cases h with
  | missing => rfl
  | value hat =>
    obtain ⟨hlists, hv⟩ := hasValue_of_at? (parse_document hle).1 hat
    rw [hlists.isObject_value hv]
    rename_i v
    cases v <;> rfl

/-- `find` gets to the value of the first member with the key. -/
theorem Stands.find (hle : d.count ≤ r.maxTokens) (h : Stands d tok v) (key : Bytes) :
    Stands d ((r.parse d.bytes).2.find tok key) (v.bind (Value.member? key)) := by
  cases h with
  | missing => exact .missing
  | @value i pos v hat =>
    have hobject := Stands.isObject hle (.value hat)
    cases v with
    | object members =>
      have hfind := (parse_document hle).2.find i members pos key hat
      show Stands d _ (members.lookup? key)
      cases hlookup : members.lookup? key with
      | none =>
        rw [hlookup] at hfind
        rw [hfind]
        exact .missing
      | some w =>
        rw [hlookup] at hfind
        obtain ⟨j, p, hfound, -, hat'⟩ := hfind
        rw [hfound]
        exact .value hat'
    | array elements | string s | number n | literal l =>
      have hnone : (r.parse d.bytes).2.find (some i) key = none := by
        rw [JsonReader.find]
        exact if_neg (by rw [hobject]; exact Bool.false_ne_true)
      rw [hnone]
      exact .missing

theorem Stands.cstrAt (hle : d.count ≤ r.maxTokens) (h : Stands d tok v) {cap : Nat}
    (hcap : 1 ≤ cap) :
    (r.parse d.bytes).2.cstrAt tok cap = v.bind (stringOf cap) := by
  cases h with
  | missing => rfl
  | value hat =>
    obtain ⟨hlists, hv⟩ := hasValue_of_at? (parse_document hle).1 hat
    exact hlists.cstrAt_value hv hcap

/-- The token of a number is an integer's exactly if the number is that integer. -/
theorem intToken_number (hok : (r.parse d.bytes).1 = .ok) {i pos : Nat} {n : Number}
    (hat : d.at? i = some (.value (.number n), pos)) (w : Int) :
    IntToken (r.parse d.bytes).2 (some i) w ↔ integerOf (.number n) = some w := by
  obtain ⟨t, ht, htype, htext⟩ := token_number hok hat
  unfold integerOf
  dsimp only
  constructor
  · rintro ⟨t', ht', -, -, hint, hmin, hmax⟩
    cases ht.symm.trans ht'
    rw [htext] at hint
    have hfrac : n.frac = none := by
      by_contra hne
      exact not_intText_of_fraction (.inl hne) w hint
    have hexp : n.exponent = none := by
      by_contra hne
      exact not_intText_of_fraction (.inr hne) w hint
    rw [(intText_whole hfrac hexp w).mp hint] at hmin hmax ⊢
    exact if_pos ⟨hfrac, Option.isNone_iff_eq_none.mpr hexp, hmin, hmax⟩
  · intro h
    split_ifs at h with hwhole
    obtain ⟨hfrac, hexp, hmin, hmax⟩ := hwhole
    have hexp := Option.isNone_iff_eq_none.mp hexp
    obtain rfl := Option.some.inj h
    refine ⟨t, ht, htype, ?_, ?_, hmin, hmax⟩
    · have hsize : ofDecimal n.int ≤ 2 ^ 63 := by
        unfold int64Min at hmin
        unfold int64Max at hmax
        unfold signed at hmin hmax
        split_ifs at hmin hmax <;> omega
      have hlen := length_int_le n hsize
      rw [htext, bytes_whole hfrac hexp, List.length_append]
      split <;> simp only [List.length_cons, List.length_nil] <;> omega
    · rw [htext]
      exact (intText_whole hfrac hexp _).mpr rfl

theorem intAt_number (hok : (r.parse d.bytes).1 = .ok) {i pos : Nat} {n : Number}
    (hat : d.at? i = some (.value (.number n), pos)) :
    (r.parse d.bytes).2.intAt (some i) = integerOf (.number n) := by
  have hread := intAtInto_eq_intAt hok (some i) 0
  cases hw : integerOf (.number n) with
  | some w =>
    rw [intAtInto_of_intToken hok ((intToken_number hok hat w).mpr hw)] at hread
    cases hint : (r.parse d.bytes).2.intAt (some i) with
    | none =>
      rw [hint] at hread
      cases hread
    | some x =>
      rw [hint] at hread
      cases hread
      rfl
  | none =>
    have hnot : ∀ w, ¬ IntToken (r.parse d.bytes).2 (some i) w := fun w htoken => by
      rw [(intToken_number hok hat w).mp htoken] at hw
      cases hw
    rw [intAtInto_of_not hok hnot] at hread
    cases hint : (r.parse d.bytes).2.intAt (some i) with
    | none => rfl
    | some x =>
      rw [hint] at hread
      cases hread

/-- `int_at` reads the integer that a value is. -/
theorem Stands.intAt (hle : d.count ≤ r.maxTokens) (h : Stands d tok v) :
    (r.parse d.bytes).2.intAt tok = v.bind integerOf := by
  cases h with
  | missing => rfl
  | @value i pos v hat =>
    obtain ⟨hlists, hv⟩ := hasValue_of_at? (parse_document hle).1 hat
    cases v with
    | object members | array elements | string s =>
      rw [hlists.intAt_value hv]
      exact if_pos (.inl nofun)
    | literal l => exact hlists.intAt_literal hv
    | number n => exact intAt_number (parse_document hle).1 hat

/-- No number has a letter behind `e`. -/
theorem lt_of_mem_number {n : Number} {c : UInt8} (h : c ∈ n.bytes) : c < 102 := by
  rcases number_byte h with hdigit | rfl | rfl | rfl | rfl | rfl
  · exact UInt8.lt_of_le_of_lt hdigit.2 (by decide)
  all_goals decide

/-- `get_bool` reads the boolean that a value is. -/
theorem Stands.getBool (hle : d.count ≤ r.maxTokens) (h : Stands d tok v) (key : Bytes) :
    (r.parse d.bytes).2.getBool tok key = (v.bind (Value.member? key)).bind boolOf := by
  have hfind := Stands.find hle h key
  rw [JsonReader.getBool]
  dsimp only
  generalize (r.parse d.bytes).2.find tok key = found at hfind
  generalize v.bind (Value.member? key) = w at hfind
  cases hfind with
  | missing => rfl
  | @value i pos w hat =>
    obtain ⟨hlists, hv⟩ := hasValue_of_at? (parse_document hle).1 hat
    rw [hlists.token_value hv]
    dsimp only [JsonNode.token]
    rw [Lists.slice_value hv]
    cases w with
    | object members | array elements | string s =>
      refine if_pos ?_
      rintro ⟨⟩
    | literal l => cases l <;> rfl
    | number n =>
      have htrue : n.bytes ≠ ascii "true" := fun heq =>
        absurd (lt_of_mem_number (n := n) (c := 116) (by rw [heq]; decide)) (by decide)
      have hfalse : n.bytes ≠ ascii "false" := fun heq =>
        absurd (lt_of_mem_number (n := n) (c := 102) (by rw [heq]; decide)) (by decide)
      rw [if_neg fun hne => hne rfl]
      show (if n.bytes = ascii "true" then _ else if n.bytes = ascii "false" then _ else _) = _
      rw [if_neg htrue, if_neg hfalse]
      rfl

theorem Stands.getCStr (hle : d.count ≤ r.maxTokens) (h : Stands d tok v) (key : Bytes) {cap : Nat}
    (hcap : 1 ≤ cap) :
    (r.parse d.bytes).2.getCStr tok key cap = (v.bind (Value.member? key)).bind (stringOf cap) :=
  Stands.cstrAt hle (Stands.find hle h key) hcap

theorem Stands.getInt (hle : d.count ≤ r.maxTokens) (h : Stands d tok v) (key : Bytes) :
    (r.parse d.bytes).2.getInt tok key = (v.bind (Value.member? key)).bind integerOf :=
  Stands.intAt hle (Stands.find hle h key)

end JsonReader

/-! ## Updates -/

/-- What `read` makes of the member of an object, or of no object. -/
def fieldOf {α : Type} (read : Value → Option α) (key : Bytes) (object : Option Value) : Option α :=
  (object.bind (Value.member? key)).bind read

/-- The update that an object says. -/
structure SaysUpdate (object : Option Value) (p : OtaParams) : Prop where
  url : fieldOf (JsonReader.stringOf 384) (ascii "url") object = some p.url.bytes
  sha256 : fieldOf (JsonReader.stringOf 65) (ascii "sha256") object = some p.sha256.bytes
  /-- Hex of 32 bytes. -/
  length : p.sha256.bytes.length = 64
  size : fieldOf integerOf (ascii "size") object = some (p.size : Int)
  size_pos : 0 < p.size
  taskId : fieldOf (JsonReader.stringOf 40) (ascii "taskId") object = some p.taskId.bytes
  /-- A missing or over-long one is left empty. -/
  version : (fieldOf (JsonReader.stringOf 33) (ascii "version") object).getD [] = p.version.bytes

namespace JsonReader

theorem cstring?_eq_some_iff {r : JsonReader} {object : Option Nat} {key : Bytes} {cap : Nat}
    {s : CStr cap} :
    r.cstring? object key cap = some s ↔ r.getCStr object key cap = some s.bytes := by
  unfold cstring?
  constructor
  · intro h
    split at h
    · rename_i text htext
      cases h
      exact htext
    · cases h
  · intro h
    split
    · rename_i text htext
      refine congrArg some (CStr.eq_iff.mpr ?_)
      exact Option.some.inj (htext.symm.trans h)
    · rename_i hnone
      rw [hnone] at h
      cases h

/-- The bytes of a parameter that may be left empty. -/
theorem bytes_getD_cstring? (r : JsonReader) (object : Option Nat) (key : Bytes) {cap : Nat}
    (dflt : CStr cap) : ((r.cstring? object key cap).getD dflt).bytes =
      (r.getCStr object key cap).getD dflt.bytes := by
  cases h : r.cstring? object key cap with
  | some s =>
    rw [cstring?_eq_some_iff.mp h]
    rfl
  | none =>
    cases hget : r.getCStr object key cap with
    | none => rfl
    | some text =>
      obtain ⟨hlt, hnul⟩ := r.cstrAt_spec hget
      have hsome : r.cstring? object key cap = some ⟨text, hlt, hnul⟩ :=
        cstring?_eq_some_iff.mpr hget
      rw [h] at hsome
      cases hsome

/-- What `decode_ota_params` needs and what it makes of it. -/
theorem decodeOtaParams_eq_some_iff {r : JsonReader} {object : Option Nat} {p : OtaParams} :
    r.decodeOtaParams object = some p ↔
      r.getCStr object (ascii "url") 384 = some p.url.bytes ∧
        r.getCStr object (ascii "sha256") 65 = some p.sha256.bytes ∧
        p.sha256.bytes.length = 64 ∧ r.getInt object (ascii "size") = some (p.size : Int) ∧
        0 < p.size ∧ r.getCStr object (ascii "taskId") 40 = some p.taskId.bytes ∧
        (r.getCStr object (ascii "version") 33).getD [] = p.version.bytes := by
  have hversion := r.bytes_getD_cstring? object (ascii "version") OtaParams.empty.version
  unfold decodeOtaParams
  constructor
  · intro h
    obtain ⟨url, hurl, h⟩ := Option.bind_eq_some_iff.mp h
    obtain ⟨sha256, hsha, h⟩ := Option.bind_eq_some_iff.mp h
    obtain ⟨⟨⟩, hlen, h⟩ := Option.bind_eq_some_iff.mp h
    obtain ⟨size, hsize, h⟩ := Option.bind_eq_some_iff.mp h
    obtain ⟨taskId, htask, h⟩ := Option.bind_eq_some_iff.mp h
    split_ifs at h with hrange
    cases h
    refine ⟨cstring?_eq_some_iff.mp hurl, cstring?_eq_some_iff.mp hsha, ?_, ?_, ?_,
      cstring?_eq_some_iff.mp htask, hversion.symm⟩
    · by_contra hne
      rw [guard, if_neg hne] at hlen
      cases hlen
    · rw [hsize, Int.toNat_of_nonneg hrange.1.le]
    · exact Int.lt_toNat.mpr hrange.1
  · rintro ⟨hurl, hsha, hlen, hsize, hpos, htask, hvers⟩
    have hrange : 0 < (p.size : Int) ∧ (p.size : Int) ≤ 2 ^ 32 - 1 := by
      have hlt := p.size_lt
      omega
    have hempty : (r.cstring? object (ascii "version") 33).getD OtaParams.empty.version =
        p.version := CStr.eq_iff.mpr (hversion.trans hvers)
    refine Option.bind_eq_some_iff.mpr ⟨_, cstring?_eq_some_iff.mpr hurl, ?_⟩
    refine Option.bind_eq_some_iff.mpr ⟨_, cstring?_eq_some_iff.mpr hsha, ?_⟩
    refine Option.bind_eq_some_iff.mpr ⟨(), if_pos hlen, ?_⟩
    refine Option.bind_eq_some_iff.mpr ⟨_, hsize, ?_⟩
    refine Option.bind_eq_some_iff.mpr ⟨_, cstring?_eq_some_iff.mpr htask, ?_⟩
    dsimp only
    rw [dif_pos hrange, hempty]
    rfl

/-- **The decoder reads what the object says.** -/
theorem Stands.decodeOtaParams {r : JsonReader} {d : Document} {tok : Option Nat}
    {v : Option Value} (hle : d.count ≤ r.maxTokens) (h : Stands d tok v) (p : OtaParams) :
    (r.parse d.bytes).2.decodeOtaParams tok = some p ↔ SaysUpdate v p := by
  rw [decodeOtaParams_eq_some_iff, Stands.getCStr hle h _ (by decide),
    Stands.getCStr hle h _ (by decide), Stands.getCStr hle h _ (by decide),
    Stands.getCStr hle h _ (by decide), Stands.getInt hle h]
  constructor
  · rintro ⟨hurl, hsha, hlen, hsize, hpos, htask, hversion⟩
    exact ⟨hurl, hsha, hlen, hsize, hpos, htask, hversion⟩
  · rintro ⟨hurl, hsha, hlen, hsize, hpos, htask, hversion⟩
    exact ⟨hurl, hsha, hlen, hsize, hpos, htask, hversion⟩

end JsonReader

/-- **An update is decoded alike wherever its object stands.** In any two documents that fit their
readers the same value is decoded to the same parameters, those that it says. So an object that
starts an update as the parameters of `ota.start` starts the same one in an answer to
`ota.check`. -/
theorem ota_params_said (r r' : JsonReader) (d d' : Document) (hle : d.count ≤ r.maxTokens)
    (hle' : d'.count ≤ r'.maxTokens) {i i' pos pos' : Nat} {v : Value}
    (hat : d.at? i = some (.value v, pos)) (hat' : d'.at? i' = some (.value v, pos')) :
    (∀ p, (r.parse d.bytes).2.decodeOtaParams (some i) = some p ↔ SaysUpdate (some v) p) ∧
      (r.parse d.bytes).2.decodeOtaParams (some i) =
        (r'.parse d'.bytes).2.decodeOtaParams (some i') := by
  have hsaid := JsonReader.Stands.decodeOtaParams hle (.value hat)
  have hsaid' := JsonReader.Stands.decodeOtaParams hle' (.value hat')
  refine ⟨hsaid, Option.ext fun p => ?_⟩
  exact (hsaid p).trans (hsaid' p).symm

/-- The members of an update. -/
def sampleUpdate : WrittenMembers :=
  .cons (ascii "url") (.leaf (.str (some (ascii "https://h/fw.bin"))))
    (.cons (ascii "sha256") (.leaf (.str (some (List.replicate 64 97))))
      (.cons (ascii "size") (.leaf (.uint 4096))
        (.cons (ascii "taskId") (.leaf (.str (some (ascii "t1")))) .nil)))

/-- They are the parameters of `ota.start`. -/
def startParams : Document := ⟨.none, sampleUpdate.members, .none⟩

/-- The platform offers the same update in its answer to `ota.check`. -/
def offer : Document :=
  ⟨.none, (WrittenMembers.cons (ascii "ok") (.leaf (.bool true)) (.cons (ascii "result")
    (.object (.cons (ascii "update") (.object sampleUpdate) .nil)) .nil)).members, .none⟩

/-- Both are decoded to the same parameters. -/
theorem ota_params_said_sample :
    ((JsonReader.new 24).parse offer.bytes).2.decodeOtaParams (some 6) =
        ((JsonReader.new 32).parse startParams.bytes).2.decodeOtaParams (some 0) ∧
      ((JsonReader.new 24).parse offer.bytes).2.decodeOtaParams (some 6) ≠ none := by
  obtain ⟨pos, hoffer⟩ : ∃ pos, offer.at? 6 =
    some (.value (.object sampleUpdate.members), pos) := ⟨_, rfl⟩
  have hstart : startParams.at? 0 = some (.value (.object sampleUpdate.members), 0) := rfl
  have hsaid := ota_params_said (.new 24) (.new 32) offer startParams (by decide) (by decide)
    hoffer hstart
  refine ⟨hsaid.2, ?_⟩
  decide +kernel

/-! ## The calls of the first connection -/

/-- The `result` of an answer whose `ok` is true. -/
def resultOf (d : Document) : Option Value :=
  if fieldOf boolOf (ascii "ok") (some d.root) = some true then
    d.root.member? (ascii "result")
  else none

/-- The time that an answer to `time` says. -/
def clockSaid (d : Document) : List CallEffect :=
  match fieldOf integerOf (ascii "epochMs") (resultOf d) with
  | none => []
  | some epochMs => [.setClock (epochMs.tdiv 1000) (epochMs.tmod 1000 * 1000)]

/-- The update that an answer to `ota.check` says. -/
def updateSaid (d : Document) : Option Value := (resultOf d).bind (Value.member? (ascii "update"))

open JsonReader in
/-- The result of a call that is answered with the document. -/
theorem callResult_document {r : JsonReader} {d : Document} (hle : d.count ≤ r.maxTokens) :
    (callResult (r.parse d.bytes).1 (r.parse d.bytes).2).1 = .ok ∧
        Stands d (callResult (r.parse d.bytes).1 (r.parse d.bytes).2).2 (resultOf d) ∨
      (callResult (r.parse d.bytes).1 (r.parse d.bytes).2).1 ≠ .ok ∧ resultOf d = none := by
  have hbool := Stands.getBool hle (Stands.root d) (ascii "ok")
  have hresult := Stands.find hle (Stands.root d) (ascii "result")
  unfold callResult resultOf
  rw [(parse_document hle).1, if_neg (not_not.mpr rfl), hbool]
  show _ ∧ _ ∨ _ ∧ _
  unfold fieldOf
  generalize ((some d.root).bind (Value.member? (ascii "ok"))).bind boolOf = ok
  cases ok with
  | none => exact .inr ⟨nofun, rfl⟩
  | some ok =>
    cases ok with
    | false => exact .inr ⟨nofun, rfl⟩
    | true => exact .inl ⟨rfl, hresult⟩

/-- What a call leads to once its answer is parsed. -/
theorem effects_eq (p : FirstCall) (payload : Bytes) :
    p.effects payload = p.use ((JsonReader.new p.maxTokens).parse payload).1
      ((JsonReader.new p.maxTokens).parse payload).2 := by
  rw [FirstCall.effects, parseAnswer]
  rw [if_neg (not_not.mpr rfl), if_neg Bool.false_ne_true]

/-- An answer with more values than there is room for leads to nothing. -/
theorem effects_large {p : FirstCall} {d : Document} (hlt : p.maxTokens < d.count) :
    p.effects d.bytes = [] := by
  rw [effects_eq]
  refine p.use_failed _ ?_
  rw [JsonReader.parse_document_full hlt]
  rintro ⟨⟩

theorem clockOf_said {r : JsonReader} {d : Document} (hle : d.count ≤ r.maxTokens) :
    clockOf (r.parse d.bytes).2 (callResult (r.parse d.bytes).1 (r.parse d.bytes).2) =
      clockSaid d := by
  unfold clockOf clockSaid
  obtain ⟨hok, hstands⟩ | ⟨hfail, hnone⟩ := callResult_document hle
  · rw [if_neg (not_not.mpr hok), JsonReader.Stands.getInt hle hstands]
    rfl
  · rw [if_pos hfail, hnone]
    rfl

/-- An object is needed for an update. -/
theorem SaysUpdate.isObject {object : Option Value} {p : OtaParams} (h : SaysUpdate object p) :
    (object.map Value.isObject).getD false = true := by
  have hurl := h.url
  unfold fieldOf at hurl
  cases object with
  | none => cases hurl
  | some v =>
    cases v with
    | object members => rfl
    | array elements | string s | number n | literal l => cases hurl

theorem updateOf_said {r : JsonReader} {d : Document} (hle : d.count ≤ r.maxTokens) :
    (∀ p, SaysUpdate (updateSaid d) p →
        updateOf (r.parse d.bytes).2 (callResult (r.parse d.bytes).1 (r.parse d.bytes).2) =
          [.startUpdate p]) ∧
      ((∀ p, ¬ SaysUpdate (updateSaid d) p) →
        updateOf (r.parse d.bytes).2 (callResult (r.parse d.bytes).1 (r.parse d.bytes).2) =
          []) := by
  unfold updateOf updateSaid
  obtain ⟨hok, hstands⟩ | ⟨hfail, hnone⟩ := callResult_document hle
  · have hupdate := JsonReader.Stands.find hle hstands (ascii "update")
    have hdecode := JsonReader.Stands.decodeOtaParams hle hupdate
    rw [if_neg (not_not.mpr hok)]
    dsimp only
    rw [JsonReader.Stands.isObject hle hupdate]
    constructor
    · intro p hgiven
      rw [if_neg (by rw [hgiven.isObject]; exact Bool.noConfusion), (hdecode p).mpr hgiven]
    · intro hno
      split
      · rfl
      · split
        · rfl
        · rename_i p hp
          exact absurd ((hdecode p).mp hp) (hno p)
  · rw [if_pos hfail, hnone]
    refine ⟨fun p hgiven => ?_, fun _ => rfl⟩
    cases hgiven.url

theorem effects_check {d : Document} (hle : d.count ≤ 24) :
    (∀ p, SaysUpdate (updateSaid d) p → FirstCall.check.effects d.bytes = [.startUpdate p]) ∧
      ((∀ p, ¬ SaysUpdate (updateSaid d) p) → FirstCall.check.effects d.bytes = []) := by
  rw [effects_eq]
  exact updateOf_said (r := .new FirstCall.check.maxTokens) hle

/-- **The calls of the first connection do what their answers say.** An answer to `time` sets the
clock to the `epochMs` of its `result`, and an answer to `ota.check` starts the update that the
`update` of its `result` says, whatever else is in the answer; in both cases only if its `ok` is
true and all its values fit the reader. Nothing else in a document leads to anything. -/
theorem first_call_said (d : Document) :
    (FirstCall.time.effects d.bytes = if d.count ≤ 16 then clockSaid d else []) ∧
      (∀ p, FirstCall.check.effects d.bytes = [.startUpdate p] ↔
        d.count ≤ 24 ∧ SaysUpdate (updateSaid d) p) ∧
      (FirstCall.check.effects d.bytes = [] ↔
        ¬ (d.count ≤ 24 ∧ ∃ p, SaysUpdate (updateSaid d) p)) := by
  refine ⟨?_, ?_⟩
  · split_ifs with hle
    · rw [effects_eq]
      exact clockOf_said hle
    · exact effects_large (p := .time) (not_le.mp hle)
  · by_cases hle : d.count ≤ 24
    · obtain ⟨hsome, hnone⟩ := effects_check hle
      by_cases hgiven : ∃ p, SaysUpdate (updateSaid d) p
      · obtain ⟨p, hp⟩ := hgiven
        rw [hsome p hp]
        refine ⟨fun q => ⟨fun h => ?_, fun h => ?_⟩, ?_⟩
        · cases h
          exact ⟨hle, hp⟩
        · rw [← hsome p hp, hsome q h.2]
        · exact iff_of_false (List.cons_ne_nil _ _) fun hno => hno ⟨hle, p, hp⟩
      · rw [hnone (not_exists.mp hgiven)]
        refine ⟨fun q => ?_, ?_⟩
        · exact iff_of_false nofun fun h => hgiven ⟨q, h.2⟩
        · exact iff_of_true rfl fun h => hgiven h.2
    · rw [effects_large (p := .check) (not_le.mp hle)]
      refine ⟨fun q => ?_, ?_⟩
      · exact iff_of_false nofun fun h => hle h.1
      · exact iff_of_true rfl fun h => hle h.1

end SoulCloud
