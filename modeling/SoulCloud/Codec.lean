import SoulCloud.Json.RoundTrip
import SoulCloud.Json.Strings
import SoulCloud.Ota

/-!
# Decoding request parameters (`sc_codec`)

The decoders of the built-in methods over the JSON reader. A C string that a decoder leaves in
one of its buffers is given by its bytes before the NUL.

- `levelFromName`, `decodeLogConfig`: log levels; per-tag levels go out through a callback.
- `decodeOtaParams`: the parameters of an update.
- `decodeLogConfig_spec`: nothing is applied unless every listed tag is valid, and then all of
  them are, in order.
- `decodeLogConfig_document`: the listed tags of a document are the members of its object `tags`.
-/

namespace SoulCloud

open Bytes Forest Json

/-- `str_at` as the code goes on to read it: the C string in the buffer. -/
def JsonReader.cstrAt (r : JsonReader) (tok : Option Nat) (cap : Nat) : Option Bytes :=
  (r.strAt tok cap).map cstr

/-- `get_str`, in the same way. -/
def JsonReader.getCStr (r : JsonReader) (object : Option Nat) (key : Bytes) (cap : Nat) :
    Option Bytes :=
  (r.getStr object key cap).map cstr

/-! ## Log levels -/

/-- The names that `level_from_name` knows. -/
def levelNames : List Bytes :=
  [ascii "none", ascii "error", ascii "warn", ascii "info", ascii "debug", ascii "verbose"]

/-- `level_from_name`. -/
def levelFromName (name : Bytes) : Int :=
  match levelNames.idxOf? name with
  | some idx => idx
  | none => -1

/-- `sc_log_config`: -1 leaves a setting as it is. -/
structure LogConfig where
  level : Int
  text : Int
  bin : Int

/-- The defaults. -/
def LogConfig.unchanged : LogConfig := ⟨-1, -1, -1⟩

/-- What `get_bool` makes of a setting. -/
def flagSetting (flag : Option Bool) (setting : Int) : Int :=
  match flag with
  | some flag => if flag then 1 else 0
  | none => setting

variable {σ : Type}

namespace JsonReader

variable (r : JsonReader)

/-- One entry of `{"tag": "level", ...}`: the tag and its level, if both are valid. -/
def tagEntry (member : Nat) : Option (Bytes × Int) :=
  match r.cstrAt (some member) 32, r.cstrAt (some (member + 1)) 16 with
  | some tag, some name => if levelFromName name < 0 then none else some (tag, levelFromName name)
  | _, _ => none

/-- One of the two passes over the entries; the second one applies them. -/
def tagPass (setTag : Bytes → Int → σ → σ) (applies : Bool) :
    Nat → Option Nat → σ → EspErr × σ
  | 0, _, s => (.ok, s)
  | _ + 1, none, s => (.ok, s)
  | n + 1, some member, s =>
    match r.tagEntry member with
    | none => (.invalidArg, s)
    | some (tag, level) =>
      tagPass setTag applies n (r.skip (some (member + 1)))
        (if applies then setTag tag level s else s)

/-- `decode_log_config` from `tags` on. -/
def decodeTags (setTag : Bytes → Int → σ → σ) (s : σ) : EspErr × σ :=
  match r.find (some 0) (ascii "tags") with
  | none => (.ok, s)
  | some tags =>
    if r.isObject (some tags) = false then (.invalidArg, s)
    else
      match r.tagPass setTag false (r.childCount (some tags)) (some (tags + 1)) s with
      | (.ok, s) => r.tagPass setTag true (r.childCount (some tags)) (some (tags + 1)) s
      | refused => refused

/-- `decode_log_config` behind `level`. -/
def decodeSettings (out : LogConfig) (setTag : Bytes → Int → σ → σ) (s : σ) :
    EspErr × LogConfig × σ :=
  let text := flagSetting (r.getBool (some 0) (ascii "text")) out.text
  let bin := flagSetting (r.getBool (some 0) (ascii "bin")) out.bin
  let tags := r.decodeTags setTag s
  (tags.1, { out with text, bin }, tags.2)

/-- `decode_log_config`: what it returns, `out`, and the state that `set_tag` changes. -/
def decodeLogConfig (out : LogConfig) (setTag : Bytes → Int → σ → σ) (s : σ) :
    EspErr × LogConfig × σ :=
  match r.getCStr (some 0) (ascii "level") 16 with
  | some name =>
    let out := { out with level := levelFromName name }
    if out.level < 0 then (.invalidArg, out, s) else r.decodeSettings out setTag s
  | none => r.decodeSettings out setTag s

/-! ## Updates -/

/-- What `str_at` emits leaves room for the NUL. -/
theorem length_strAt {tok : Option Nat} {cap : Nat} {text : Bytes}
    (h : r.strAt tok cap = some text) : text.length < cap := by
  unfold strAt at h
  split at h
  · split_ifs at h with hno
    obtain ⟨-, hle⟩ := spells_of_unescape h
    rw [not_or, not_lt] at hno
    omega
  · cases h

theorem cstrAt_spec {tok : Option Nat} {cap : Nat} {text : Bytes}
    (h : r.cstrAt tok cap = some text) : text.length < cap ∧ 0 ∉ text := by
  obtain ⟨raw, hraw, rfl⟩ := Option.map_eq_some_iff.mp h
  exact ⟨lt_of_le_of_lt (length_cstr_le raw) (length_strAt r hraw), nul_notMem_cstr raw⟩

/-- `get_str` into the `char[cap]` of a parameter. -/
def cstring? (object : Option Nat) (key : Bytes) (cap : Nat) : Option (CStr cap) :=
  match h : r.getCStr object key cap with
  | some text => some ⟨text, (r.cstrAt_spec h).1, (r.cstrAt_spec h).2⟩
  | none => none

/-- `decode_ota_params`. -/
def decodeOtaParams (object : Option Nat) : Option OtaParams := do
  let url ← r.cstring? object (ascii "url") 384
  let sha256 ← r.cstring? object (ascii "sha256") 65
  guard (sha256.bytes.length = 64)
  let size ← r.getInt object (ascii "size")
  let taskId ← r.cstring? object (ascii "taskId") 40
  -- The version is informational: a missing or over-long one is left empty.
  let version := (r.cstring? object (ascii "version") 33).getD OtaParams.empty.version
  if h : 0 < size ∧ size ≤ 2 ^ 32 - 1 then
    return { url, sha256, size := size.toNat, size_lt := by omega, version, taskId }
  else none

/-! ## What `decode_log_config` decodes -/

/-- The level that a request has. -/
def requestLevel : Option Int :=
  (r.getCStr (some 0) (ascii "level") 16).map levelFromName

/-- The entries that a pass goes through, if all of them are valid. -/
def tagWalk : Nat → Option Nat → Option (List (Bytes × Int))
  | 0, _ => some []
  | _ + 1, none => some []
  | n + 1, some member =>
    match r.tagEntry member with
    | none => none
    | some entry => (tagWalk n (r.skip (some (member + 1)))).map (entry :: ·)

/-- The listed tags with their levels, in order, if all of them are valid. -/
def listedTags : Option (List (Bytes × Int)) :=
  match r.find (some 0) (ascii "tags") with
  | none => some []
  | some tags =>
    if r.isObject (some tags) = false then none
    else r.tagWalk (r.childCount (some tags)) (some (tags + 1))

/-- Tags set one after another. -/
def setTags (setTag : Bytes → Int → σ → σ) (entries : List (Bytes × Int)) (s : σ) : σ :=
  entries.foldl (fun s entry => setTag entry.1 entry.2 s) s

/-- A pass over valid entries. -/
theorem tagPass_of_walk (setTag : Bytes → Int → σ → σ) (applies : Bool) {n : Nat}
    {member : Option Nat} {entries : List (Bytes × Int)} (s : σ)
    (h : r.tagWalk n member = some entries) :
    r.tagPass setTag applies n member s =
      (.ok, if applies then setTags setTag entries s else s) := by
  induction n, member using tagWalk.induct r generalizing entries s with
  | case1 member | case2 n =>
    cases h
    exact congrArg (Prod.mk _) (ite_self s).symm
  | case3 n member hentry =>
    simp only [tagWalk, hentry] at h
    cases h
  | case4 n member entry hentry ih =>
    simp only [tagWalk, hentry] at h
    obtain ⟨rest, hrest, rfl⟩ := Option.map_eq_some_iff.mp h
    simp only [tagPass, hentry]
    rw [ih _ hrest]
    cases applies <;> rfl

/-- The first pass stops at an invalid entry. -/
theorem tagPass_of_walk_none (setTag : Bytes → Int → σ → σ) {n : Nat} {member : Option Nat}
    (s : σ) (h : r.tagWalk n member = none) :
    r.tagPass setTag false n member s = (.invalidArg, s) := by
  induction n, member using tagWalk.induct r with
  | case1 member | case2 n => cases h
  | case3 n member hentry => simp only [tagPass, hentry]
  | case4 n member entry hentry ih =>
    simp only [tagWalk, hentry, Option.map_eq_none_iff] at h
    simp only [tagPass, hentry]
    exact ih h

/-- The listed tags are set if all of them are valid, and else none. -/
theorem decodeTags_eq (setTag : Bytes → Int → σ → σ) (s : σ) :
    r.decodeTags setTag s =
      match r.listedTags with
      | some entries => (.ok, setTags setTag entries s)
      | none => (.invalidArg, s) := by
  unfold decodeTags listedTags
  cases r.find (some 0) (ascii "tags") with
  | none => rfl
  | some tags =>
    dsimp only
    by_cases hobject : r.isObject (some tags) = false
    · rw [if_pos hobject, if_pos hobject]
    · rw [if_neg hobject, if_neg hobject]
      cases hwalk : r.tagWalk (r.childCount (some tags)) (some (tags + 1)) with
      | none => rw [r.tagPass_of_walk_none setTag s hwalk]
      | some entries =>
        rw [r.tagPass_of_walk setTag false s hwalk]
        exact r.tagPass_of_walk setTag true s hwalk

/-- What `decode_log_config` does: it refuses the request and changes nothing, or it sets every
listed tag, in order. -/
inductive LogConfigDecoded (r : JsonReader) (out : LogConfig) (setTag : Bytes → Int → σ → σ)
    (s : σ) : EspErr × LogConfig × σ → Prop
  | accepted {entries : List (Bytes × Int)} {text bin : Int}
      (hlevel : ∀ level, r.requestLevel = some level → 0 ≤ level)
      (htags : r.listedTags = some entries) :
      LogConfigDecoded r out setTag s
        (.ok, ⟨r.requestLevel.getD out.level, text, bin⟩, setTags setTag entries s)
  | refused {out' : LogConfig}
      (h : (∃ level, r.requestLevel = some level ∧ level < 0) ∨ r.listedTags = none) :
      LogConfigDecoded r out setTag s (.invalidArg, out', s)

/-- `decode_log_config` from `text` on, once the level is known to be valid. -/
theorem decodeSettings_spec (out : LogConfig) (setTag : Bytes → Int → σ → σ) (s : σ)
    (hlevel : ∀ level, r.requestLevel = some level → 0 ≤ level) :
    LogConfigDecoded r out setTag s
      (r.decodeSettings { out with level := r.requestLevel.getD out.level } setTag s) := by
  unfold decodeSettings
  rw [decodeTags_eq]
  cases htags : r.listedTags with
  | none => exact .refused (.inr htags)
  | some entries => exact .accepted hlevel htags

/-- **Nothing is applied unless everything is valid.** -/
theorem decodeLogConfig_spec (out : LogConfig) (setTag : Bytes → Int → σ → σ) (s : σ) :
    LogConfigDecoded r out setTag s (r.decodeLogConfig out setTag s) := by
  have hsettings := r.decodeSettings_spec out setTag s
  unfold requestLevel at hsettings
  unfold decodeLogConfig
  cases hname : r.getCStr (some 0) (ascii "level") 16 with
  | none =>
    rw [hname] at hsettings
    exact hsettings nofun
  | some name =>
    rw [hname] at hsettings
    dsimp only
    by_cases hneg : levelFromName name < 0
    · rw [if_pos hneg]
      refine .refused (.inl ⟨levelFromName name, ?_, hneg⟩)
      exact congrArg (Option.map levelFromName) hname
    · rw [if_neg hneg]
      refine hsettings ?_
      rintro level ⟨⟩
      exact not_lt.mp hneg

/-! ## The listed tags of a document -/

/-- The C string that `get_str` makes of a value in a `char[cap]`. -/
def stringOf (cap : Nat) : Value → Option Bytes
  | .string s => (unescape (cap - 1) (spelled s)).map cstr
  | _ => none

/-- A member of `tags`: the tag and its level, if both are valid. -/
def memberTag (key : Str) (value : Value) : Option (Bytes × Int) :=
  match stringOf 32 (.string key), stringOf 16 value with
  | some tag, some name => if levelFromName name < 0 then none else some (tag, levelFromName name)
  | _, _ => none

/-- The members of `tags`, if all of them are valid. -/
def memberTags : Members → Option (List (Bytes × Int))
  | .nil _ => some []
  | .cons _ key _ _ value _ rest =>
    match memberTag key value with
    | none => none
    | some entry => (memberTags rest).map (entry :: ·)

variable {r : JsonReader} {f : Forest JsonNode} {i pos : Nat}

theorem Lists.cstrAt_value {v : Value} (h : Lists r f) (hv : HasValue f r.json i pos v) {cap : Nat}
    (hcap : 1 ≤ cap) : r.cstrAt (some i) cap = stringOf cap v := by
  unfold cstrAt
  rw [h.strAt_value hv]
  cases v with
  | string s =>
    rw [if_neg]
    · rfl
    · rintro (hne | hlt)
      · exact hne rfl
      · omega
  | object members | array elements | number n | literal l => rw [if_pos (.inl nofun)]; rfl

theorem Lists.cstrAt_key {key : Str} {kids : Forest JsonNode} (h : Lists r f)
    (ht : HasTree f i (strNode key pos) kids) (htext : HasText r.json pos (quoted key)) {cap : Nat}
    (hcap : 1 ≤ cap) : r.cstrAt (some i) cap = stringOf cap (.string key) := by
  have hquoted : HasText r.json pos ([34] ++ (spelled key ++ [34])) := htext
  have hslice := hquoted.right.left.slice
  unfold cstrAt strAt
  rw [h.token?_of ht]
  dsimp only
  rw [if_neg]
  · exact congrArg (fun text => (unescape (cap - 1) text).map cstr) hslice
  · rintro (hne | hlt)
    · exact hne rfl
    · omega

theorem tagWalk_members (h : Lists r f) : ∀ (ms : Members) {i pos : Nat} {first : Bool},
    HasMembers f r.json i pos first ms → r.tagWalk ms.length (some i) = memberTags ms
  | .nil _, _, _, _, _ => rfl
  | .cons _ key _ _ value _ rest, i, pos, first, hms => by
    obtain ⟨⟨n, kids, htree, -⟩, htext⟩ := hms.headKey
    have hentry : r.tagEntry i = memberTag key value := by
      unfold tagEntry memberTag
      rw [h.cstrAt_key htree htext (by decide), h.cstrAt_value hms.headValue (by decide)]
    have hrest := tagWalk_members h rest hms.tail
    have hmore : r.tagWalk rest.length (r.skip (some (i + 1))) = memberTags rest := by
      match rest, hms, hrest with
      | .nil _, _, _ => rfl
      | .cons _ _ _ _ _ _ _, hms, hrest =>
        obtain ⟨⟨n, kids, hnext, -⟩, -⟩ := hms.tail.headKey
        rw [h.skip_value hms.headValue (lt_of_hasTree h hnext)]
        exact hrest
    show (match r.tagEntry i with | none => none | some entry => _) = _
    rw [hentry, hmore]
    rfl

/-- What `find` finds at the root of a document is the value of the first member with the key. -/
theorem find_root {d : Document} (h : Lists r (documentForest d)) (hjson : r.json = d.bytes)
    (key : Bytes) :
    match d.members.lookup? key with
    | none => r.find (some 0) key = none
    | some v =>
      ∃ i pos, r.find (some 0) key = some i ∧ HasValue (documentForest d) r.json i pos v := by
  have hfind := (h.reads hjson).find 0 d.members _ key rfl
  cases hlookup : d.members.lookup? key with
  | none =>
    rw [hlookup] at hfind
    exact hfind
  | some v =>
    rw [hlookup] at hfind
    obtain ⟨j, p, hfound, -, hat⟩ := hfind
    exact ⟨_, p, hfound, hjson ▸ Document.hasPart hat⟩

/-- **The level and the tags of a document**: the request's level is its first string member
`level`, and the listed tags are the members of its first member `tags`, in order. -/
theorem decodeLogConfig_document {d : Document} (hle : d.count ≤ r.maxTokens) :
    (r.parse d.bytes).2.requestLevel =
        ((d.members.lookup? (ascii "level")).bind (stringOf 16)).map levelFromName ∧
      (r.parse d.bytes).2.listedTags =
        match d.members.lookup? (ascii "tags") with
        | none => some []
        | some (.object tags) => memberTags tags
        | some _ => none := by
  obtain ⟨-, hlists, hjson⟩ := parse_document_lists hle
  have hlevel := find_root hlists hjson (ascii "level")
  have htags := find_root hlists hjson (ascii "tags")
  constructor
  · have hget : (r.parse d.bytes).2.requestLevel = ((r.parse d.bytes).2.cstrAt
        ((r.parse d.bytes).2.find (some 0) (ascii "level")) 16).map levelFromName := rfl
    rw [hget]
    cases hlookup : d.members.lookup? (ascii "level") with
    | none =>
      rw [hlookup] at hlevel
      rw [hlevel]
      rfl
    | some v =>
      rw [hlookup] at hlevel
      obtain ⟨i, pos, hfind, hv⟩ := hlevel
      rw [hfind, hlists.cstrAt_value hv (by decide)]
      rfl
  · unfold listedTags
    cases hlookup : d.members.lookup? (ascii "tags") with
    | none =>
      rw [hlookup] at htags
      rw [htags]
    | some v =>
      rw [hlookup] at htags
      obtain ⟨i, pos, hfind, hv⟩ := htags
      rw [hfind]
      dsimp only
      rw [hlists.isObject_value hv]
      cases v with
      | object tags =>
        have hobject : ¬ ((nodeOf (.object tags) pos).type == .object) = false := Bool.noConfusion
        rw [if_neg hobject, hlists.childCount_value hv]
        exact tagWalk_members hlists tags hv.members
      | array elements | string s | number n | literal l => exact if_pos rfl

end JsonReader

end SoulCloud
