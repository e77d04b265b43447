import SoulCloud.Codec
import SoulCloud.Credentials
import SoulCloud.Json.Keys
import SoulCloud.Status

/-!
# Enrolling and loading (`sc_credentials`, `sc_codec::decode_enroll_response`)

An enrollment sends its request, reads what its buffer holds of the answer, decodes three
strings of it, saves them and uses them as the identity. The next start loads them from NVS.

- `decodeEnrollResponse`, `exchange`, `enrollInto`: `enroll` in its parts, with what it returns.
- `loadInto`: `load` from any namespace, with what it returns.
- `Response`: the strings that a response consists of, decoded.
- `decodeEnrollResponse_ok_iff`: what is accepted, and what is kept of it.
- `identity_iff`: when an identity that was enrolled or loaded is one.
-/

namespace SoulCloud

namespace Credentials

open Bytes

/-! ## The identity -/

/-- The identity of a new object. -/
def Identity.unset : Identity :=
  ⟨⟨[], by decide, nul_notMem_nil⟩, ⟨[], by decide, nul_notMem_nil⟩,
    ⟨[], by decide, nul_notMem_nil⟩⟩

/-- `valid`. -/
def Identity.valid (i : Identity) : Bool := decide (i.deviceId.bytes ≠ [])

/-- The three strings of `doc`, as far as they are there and fit. The first one that does not
decides. -/
def enrollStrings (doc : JsonReader) : Option Identity := do
  let mqtt := doc.find (some 0) (ascii "mqtt")
  let deviceId ← doc.cstring? (some 0) (ascii "deviceId") 16
  let password ← doc.cstring? mqtt (ascii "password") 48
  let mqttUrl ← doc.cstring? mqtt (ascii "url") 160
  return ⟨deviceId, password, mqttUrl⟩

/-- `decode_enroll_response`. -/
def decodeEnrollResponse (payload : Bytes) : Except EspErr Identity :=
  let parsed := (JsonReader.new 48).parse payload
  if parsed.1 ≠ .ok then .error parsed.1
  else
    match enrollStrings parsed.2 with
    | some resp => .ok resp
    | none => .error .invalidResponse

/-! ## The exchange -/

/-- `sc_enroll_request`. A C string that is never null is given by its bytes. -/
structure EnrollRequest where
  token : Bytes
  hardwareId : Bytes
  platform : Bytes
  chip : Bytes
  fwVersion : Bytes
  name : Option Bytes

/-- The writer calls of `encode_enroll_request`. -/
def EnrollRequest.calls (req : EnrollRequest) : List WriterCall :=
  ([.beginObject none,
    .addStr (some (ascii "token")) req.token,
    .addStr (some (ascii "hardwareId")) req.hardwareId,
    .addStr (some (ascii "platform")) req.platform,
    .addStr (some (ascii "chip")) req.chip,
    .addStr (some (ascii "fwVersion")) req.fwVersion] : List WriterCall) ++
  (match req.name with
    | some name => if name ≠ [] then [.addStr (some (ascii "name")) name] else []
    | none => []) ++
  [.endObject]

/-- `sc_codec::encode_enroll_request` into a buffer of `cap` bytes. -/
def encodeEnrollRequest (req : EnrollRequest) (cap : Nat) : Except EspErr Bytes :=
  finish ((JsonWriter.init cap).run req.calls)

/-- The arguments of `enroll`; `none` is a null pointer. -/
structure EnrollArgs where
  apiUrl : Option Bytes
  token : Option Bytes
  name : Option Bytes

/-- What the device says of itself in a request. -/
structure DeviceInfo where
  mac : Buf 6
  /-- `CONFIG_IDF_TARGET`. -/
  chip : Bytes
  fwVersion : Bytes

/-- What the heap, the HTTP client and the server do in one exchange. -/
structure HttpEnv where
  /-- There is memory for the response. -/
  allocated : Bool
  /-- `esp_http_client_init` gives a client. -/
  client : Bool
  httpOpen : EspErr
  /-- What `esp_http_client_write` returns. -/
  written : Int
  /-- What `esp_http_client_fetch_headers` returns. -/
  headers : Int
  status : Int
  /-- The body that the server sends. -/
  body : Bytes
  /-- How much of it each `esp_http_client_read` brings at most; the one after the last fails. -/
  reads : List Nat

/-- `MACSTR` of the address, formatted into a `char[18]`. -/
def macText (mac : Buf 6) : Bytes :=
  snprintf 18 ((ascii ":").intercalate (mac.bytes.map fun c => hexLower [c]))

/-- `RESPONSE_MAX`. -/
def responseMax : Nat := 1024

/-- The loop that reads the answer, with room for `room` more bytes. -/
def readBody (room : Nat) : List Nat → Bytes → Bytes
  | [], _ => []
  | n :: reads, body =>
    let data := body.take (min n room)
    if data = [] then []
    else data ++ readBody (room - data.length) reads (body.drop data.length)

/-- The body of the request, or the error that keeps `enroll` from sending it. -/
def requestBody (info : DeviceInfo) (args : EnrollArgs) : Except EspErr Bytes :=
  match args.apiUrl, args.token with
  | some apiUrl, some token =>
    if token = [] then .error .invalidArg
    else if 192 ≤ (apiUrl ++ ascii "/v1/device/enroll").length then .error .invalidSize
    else
      encodeEnrollRequest
        { token, hardwareId := macText info.mac, platform := ascii "esp32", chip := info.chip
          fwVersion := info.fwVersion, name := args.name } 320
  | _, _ => .error .invalidArg

/-- The exchange of a request with this body: the text that a 201 answer leaves in the response
buffer, or the error that ends `enroll`. -/
def HttpEnv.answer (http : HttpEnv) (body : Bytes) : Except EspErr Bytes :=
  if http.allocated = false ∨ http.client = false then .error .noMem
  else if http.httpOpen ≠ .ok then .error http.httpOpen
  else if http.written ≠ body.length then .error .fail
  else if http.headers < 0 then .error .fail
  else if http.status = 401 then .error .invalidState
  else if http.status ≠ 201 then .error .fail
  else .ok (readBody (responseMax - 1) http.reads http.body)

/-- `enroll` up to the decoder. -/
def exchange (info : DeviceInfo) (args : EnrollArgs) (http : HttpEnv) : Except EspErr Bytes :=
  (requestBody info args).bind http.answer

/-- What is read is the beginning of the body, as far as there is room. -/
theorem readBody_prefix (room : Nat) (reads : List Nat) (body : Bytes) :
    readBody room reads body <+: body ∧ (readBody room reads body).length ≤ room := by
  induction reads generalizing room body with
  | nil => exact ⟨List.nil_prefix, Nat.zero_le _⟩
  | cons n reads ih =>
    rw [readBody]
    split_ifs with hend
    · exact ⟨List.nil_prefix, Nat.zero_le _⟩
    · have hlen : (body.take (min n room)).length ≤ room :=
        (List.length_take_le _ _).trans (Nat.min_le_right n room)
      obtain ⟨hrest, hroom⟩ := ih (room - (body.take (min n room)).length)
        (body.drop (body.take (min n room)).length)
      have hbody : body.take (min n room) ++ body.drop (body.take (min n room)).length = body := by
        rw [List.length_take, ← List.drop_eq_drop_min, List.take_append_drop]
      constructor
      · conv_rhs => rw [← hbody]
        exact (List.prefix_append_right_inj _).mpr hrest
      · rw [List.length_append]
        omega

/-- What is decoded is the beginning of the body of a 201 answer. -/
theorem exchange_ok {info : DeviceInfo} {args : EnrollArgs} {http : HttpEnv} {json : Bytes}
    (h : exchange info args http = .ok json) :
    http.status = 201 ∧ json <+: http.body ∧ json.length < responseMax := by
  rw [exchange] at h
  cases hbody : requestBody info args with
  | error ret =>
    rw [hbody] at h
    cases h
  | ok body =>
    rw [hbody] at h
    have hanswer : http.answer body = .ok json := h
    rw [HttpEnv.answer] at hanswer
    split_ifs at hanswer with _ _ _ _ _ hstatus
    cases hanswer
    obtain ⟨hbegins, hroom⟩ := readBody_prefix (responseMax - 1) http.reads http.body
    exact ⟨not_not.mp hstatus, hbegins, Nat.lt_of_le_pred (by decide) hroom⟩

/-! ## Enrolling -/

/-- What a call of NVS returns; `none` where the device resets before it. -/
def NvsOutcome.ret : NvsOutcome → Option EspErr
  | .done => some .ok
  | .failed code => some (.other code)
  | .reset => none

/-- What `save` returns. -/
def saveRet (env : NvsEnv) : Option EspErr := (saveRun env).ret.ret

/-- The object and the namespace behind it. -/
structure Store where
  identity : Identity
  nvs : Nvs

/-- `sc_credentials::enroll`: what it returns, if it does, and what it leaves. -/
def enrollInto (info : DeviceInfo) (args : EnrollArgs) (http : HttpEnv) (env : NvsEnv)
    (s : Store) : Option EspErr × Store :=
  match exchange info args http with
  | .error ret => (some ret, s)
  | .ok text =>
    match decodeEnrollResponse text with
    | .error ret => (some ret, s)
    | .ok resp =>
      let s := { s with nvs := save env s.nvs resp }
      if saveRet env = some .ok then (some .ok, { s with identity := resp }) else (saveRet env, s)

/-- What it leaves in NVS. -/
theorem enrollInto_nvs (info : DeviceInfo) (args : EnrollArgs) (http : HttpEnv) (env : NvsEnv)
    (s : Store) : (enrollInto info args http env s).2.nvs =
      enroll env s.nvs ((exchange info args http).bind decodeEnrollResponse) := by
  unfold enrollInto
  cases exchange info args http with
  | error ret => rfl
  | ok text =>
    show _ = enroll env s.nvs (decodeEnrollResponse text)
    dsimp only
    cases decodeEnrollResponse text with
    | error ret => rfl
    | ok resp =>
      dsimp only
      split <;> rfl

/-! ## Loading -/

/-- The errors of `nvs_open` and `nvs_get_str`. -/
inductive NvsErr where
  /-- `ESP_ERR_NVS_NOT_FOUND`. -/
  | notFound
  /-- `ESP_ERR_NVS_INVALID_LENGTH`: the string does not fit the array. -/
  | invalidLength
  | other (code : Nat)
  deriving DecidableEq, Repr

/-- What `load` makes of them. -/
def NvsErr.espErr : NvsErr → EspErr
  | .notFound => .notFound
  | .invalidLength => .other 0x110c
  | .other code => .other code

/-- A string in NVS, of any length. -/
structure NvsString where
  bytes : Bytes
  nul : 0 ∉ bytes := by decide

/-- What a reader meets in NVS, whoever has written it. -/
structure NvsContent where
  /-- What keeps the namespace from being opened. -/
  unopened : Option NvsErr
  value : NvsKey → Except NvsErr NvsString

/-- `nvs_get_str` into a `char[n]`. -/
def NvsContent.getStr (content : NvsContent) (key : NvsKey) (n : Nat) : Except NvsErr (CStr n) :=
  match content.value key with
  | .error err => .error err
  | .ok s => if h : s.bytes.length < n then .ok ⟨s.bytes, h, s.nul⟩ else .error .invalidLength

/-- The three reads of `load`. -/
def NvsContent.stored (content : NvsContent) : Except NvsErr Identity := do
  let deviceId ← content.getStr .deviceId 16
  let password ← content.getStr .password 48
  let mqttUrl ← content.getStr .mqttUrl 160
  return ⟨deviceId, password, mqttUrl⟩

/-- `sc_credentials::load`: what it returns and the identity it leaves. -/
def loadInto (content : NvsContent) (identity : Identity) : EspErr × Identity :=
  match content.unopened with
  | some err => (err.espErr, identity)
  | none =>
    match content.stored with
    | .error err => (err.espErr, identity)
    | .ok stored => (.ok, stored)

/-- What is stored under a key that `save` may have written. -/
def storedValue {n : Nat} : Option (CStr n) → Except NvsErr NvsString
  | some s => .ok ⟨s.bytes, s.nul⟩
  | none => .error .notFound

/-- The namespace as `save` leaves it. -/
def Nvs.content (nvs : Nvs) : NvsContent where
  unopened := none
  value
    | .deviceId => storedValue nvs.deviceId
    | .password => storedValue nvs.password
    | .mqttUrl => storedValue nvs.mqttUrl

/-- A string that `save` has written fits the array it is read into. -/
theorem getStr_content {nvs : Nvs} {key : NvsKey} {n : Nat} {stored : Option (CStr n)}
    (h : nvs.content.value key = storedValue stored) :
    nvs.content.getStr key n = stored.elim (.error .notFound) .ok := by
  rw [NvsContent.getStr, h]
  cases stored with
  | none => rfl
  | some s => exact dif_pos s.length_lt

/-- Such a namespace is read as `load` reads it. -/
theorem loadInto_content (nvs : Nvs) (identity : Identity) :
    loadInto nvs.content identity =
      match load nvs with
      | .ok stored => (.ok, stored)
      | .error ret => (ret, identity) := by
  have hid : nvs.content.getStr .deviceId 16 = nvs.deviceId.elim (.error .notFound) .ok :=
    getStr_content rfl
  have hpassword : nvs.content.getStr .password 48 = nvs.password.elim (.error .notFound) .ok :=
    getStr_content rfl
  have hurl : nvs.content.getStr .mqttUrl 160 = nvs.mqttUrl.elim (.error .notFound) .ok :=
    getStr_content rfl
  show (match nvs.content.stored with
    | .error err => (err.espErr, identity)
    | .ok stored => (.ok, stored)) = _
  rw [NvsContent.stored, hid, hpassword, hurl]
  obtain ⟨deviceId, password, mqttUrl⟩ := nvs
  cases deviceId <;> cases password <;> cases mqttUrl <;> rfl

/-! ## What a response says -/

/-- The token is a string of the text, and all of it stands for `value`. -/
def MeansAt (r : JsonReader) (tok : Option Nat) (value : Bytes) : Prop :=
  ∃ t, r.token? tok = some t ∧ t.type = .string ∧ JsonReader.Decodes (r.slice t.start t.stop) value

theorem MeansAt.unique {r : JsonReader} {tok : Option Nat} {value value' : Bytes}
    (h : MeansAt r tok value) (h' : MeansAt r tok value') : value = value' := by
  obtain ⟨t, ht, -, hvalue⟩ := h
  obtain ⟨t', ht', -, hvalue'⟩ := h'
  cases ht.symm.trans ht'
  exact hvalue.unique hvalue'

/-- What a parameter of type `char[cap]` holds of a string: the bytes of its value up to a NUL, if
all of them fit. -/
theorem cstring?_eq_some_iff {r : JsonReader} {json : Bytes} (hok : (r.parse json).1 = .ok)
    {object : Option Nat} {key : Bytes} {cap : Nat} (hcap : 1 ≤ cap) {s : CStr cap} :
    (r.parse json).2.cstring? object key cap = some s ↔
      ∃ value, MeansAt (r.parse json).2 ((r.parse json).2.find object key) value ∧
        value.length < cap ∧ s.bytes = cstr value := by
  have hget : (r.parse json).2.cstring? object key cap = some s ↔
      (r.parse json).2.getCStr object key cap = some s.bytes := by
    unfold JsonReader.cstring?
    split
    · rename_i text htext
      rw [Option.some.injEq, CStr.eq_iff]
      constructor
      · rintro rfl
        exact htext
      · intro hbytes
        exact Option.some.inj (htext.symm.trans hbytes)
    · rename_i hnone
      constructor
      · nofun
      · intro hbytes
        cases hnone.symm.trans hbytes
  rw [hget, JsonReader.getCStr, Option.map_eq_some_iff, JsonReader.getStr, JsonReader.strAt]
  cases ht : (r.parse json).2.token? ((r.parse json).2.find object key) with
  | none =>
    constructor
    · rintro ⟨value, ⟨⟩, -⟩
    · rintro ⟨value, ⟨t, htok, -⟩, -⟩
      cases ht.symm.trans htok
  | some t =>
    dsimp only
    constructor
    · rintro ⟨value, hvalue, hbytes⟩
      split_ifs at hvalue with hno
      have htype : t.type = .string := not_not.mp fun hne => hno (.inl hne)
      -- What was emitted is what the string means.
      obtain ⟨out, hout⟩ := JsonReader.parse_decodes hok ht htype
      obtain ⟨hspells, hle⟩ := JsonReader.unescape_eq_some_iff.mp hvalue
      obtain rfl := hspells.unique hout.spells
      exact ⟨value, ⟨t, ht, htype, hout⟩, by omega, hbytes.symm⟩
    · rintro ⟨value, ⟨t', ht', htype, hvalue⟩, hlt, hbytes⟩
      cases ht.symm.trans ht'
      refine ⟨value, ?_, hbytes.symm⟩
      rw [if_neg, JsonReader.unescape_eq_some_iff]
      · exact ⟨hvalue.spells, by omega⟩
      · rintro (hne | hlt)
        · exact hne htype
        · omega

/-- The strings that make an identity. -/
structure Strings where
  deviceId : Bytes
  password : Bytes
  mqttUrl : Bytes

namespace Strings

/-- Each fits its array. -/
def Fit (v : Strings) : Prop :=
  v.deviceId.length < 16 ∧ v.password.length < 48 ∧ v.mqttUrl.length < 160

/-- Each can be used as a C string, and is not empty. -/
def Usable (v : Strings) : Prop :=
  (v.deviceId ≠ [] ∧ 0 ∉ v.deviceId) ∧ (v.password ≠ [] ∧ 0 ∉ v.password) ∧
    (v.mqttUrl ≠ [] ∧ 0 ∉ v.mqttUrl)

end Strings

/-- The strings of an identity. -/
def Identity.strings (i : Identity) : Strings :=
  ⟨i.deviceId.bytes, i.password.bytes, i.mqttUrl.bytes⟩

/-- The response has the three strings, and these are what they mean. -/
structure Response (json : Bytes) (v : Strings) : Prop where
  parses : ((JsonReader.new 48).parse json).1 = .ok
  deviceId : MeansAt ((JsonReader.new 48).parse json).2
    (((JsonReader.new 48).parse json).2.find (some 0) (ascii "deviceId")) v.deviceId
  password : MeansAt ((JsonReader.new 48).parse json).2
    (((JsonReader.new 48).parse json).2.find
      (((JsonReader.new 48).parse json).2.find (some 0) (ascii "mqtt")) (ascii "password"))
    v.password
  mqttUrl : MeansAt ((JsonReader.new 48).parse json).2
    (((JsonReader.new 48).parse json).2.find
      (((JsonReader.new 48).parse json).2.find (some 0) (ascii "mqtt")) (ascii "url")) v.mqttUrl

theorem Response.unique {json : Bytes} {v v' : Strings} (h : Response json v)
    (h' : Response json v') : v = v' := by
  obtain ⟨deviceId, password, mqttUrl⟩ := v
  obtain ⟨deviceId', password', mqttUrl'⟩ := v'
  rw [Strings.mk.injEq]
  exact ⟨h.deviceId.unique h'.deviceId, h.password.unique h'.password,
    h.mqttUrl.unique h'.mqttUrl⟩

/-- **What is accepted, and what is kept of it**: every response that has three strings which fit,
and of each of them what comes before a NUL. -/
theorem decodeEnrollResponse_ok_iff {json : Bytes} {i : Identity} :
    decodeEnrollResponse json = .ok i ↔
      ∃ v, Response json v ∧ v.Fit ∧
        i.strings = ⟨cstr v.deviceId, cstr v.password, cstr v.mqttUrl⟩ := by
  rw [decodeEnrollResponse]
  by_cases hok : ((JsonReader.new 48).parse json).1 = .ok
  · rw [if_neg (not_not.mpr hok)]
    have hstrings : enrollStrings ((JsonReader.new 48).parse json).2 = some i ↔
        ∃ v, Response json v ∧ v.Fit ∧
          i.strings = ⟨cstr v.deviceId, cstr v.password, cstr v.mqttUrl⟩ := by
      simp only [enrollStrings, Option.bind_eq_bind, Option.bind_eq_some_iff]
      constructor
      · rintro ⟨deviceId, hid, password, hpassword, mqttUrl, hurl, hi⟩
        obtain ⟨id, hidMeans, hidFits, hidBytes⟩ :=
          (cstring?_eq_some_iff hok (by decide)).mp hid
        obtain ⟨pw, hpwMeans, hpwFits, hpwBytes⟩ :=
          (cstring?_eq_some_iff hok (by decide)).mp hpassword
        obtain ⟨url, hurlMeans, hurlFits, hurlBytes⟩ :=
          (cstring?_eq_some_iff hok (by decide)).mp hurl
        cases hi
        refine ⟨⟨id, pw, url⟩, ⟨hok, hidMeans, hpwMeans, hurlMeans⟩,
          ⟨hidFits, hpwFits, hurlFits⟩, ?_⟩
        rw [Identity.strings, hidBytes, hpwBytes, hurlBytes]
      · rintro ⟨v, hresponse, ⟨hidFits, hpwFits, hurlFits⟩, hi⟩
        rw [Identity.strings, Strings.mk.injEq] at hi
        obtain ⟨hid, hpassword, hurl⟩ := hi
        have hid' := (cstring?_eq_some_iff hok (by decide)).mpr
          ⟨_, hresponse.deviceId, hidFits, hid⟩
        have hpassword' := (cstring?_eq_some_iff hok (by decide)).mpr
          ⟨_, hresponse.password, hpwFits, hpassword⟩
        have hurl' := (cstring?_eq_some_iff hok (by decide)).mpr
          ⟨_, hresponse.mqttUrl, hurlFits, hurl⟩
        exact ⟨i.deviceId, hid', i.password, hpassword', i.mqttUrl, hurl', rfl⟩
    rw [← hstrings]
    cases enrollStrings ((JsonReader.new 48).parse json).2 with
    | none => exact ⟨nofun, nofun⟩
    | some resp => rw [Except.ok.injEq, Option.some.injEq]
  · rw [if_pos hok]
    constructor
    · nofun
    · rintro ⟨v, hresponse, -⟩
      exact absurd hresponse.parses hok

/-! ## When a success is an identity -/

/-- The namespace can be read, and its keys hold the strings of `i`. -/
def NvsContent.Holds (content : NvsContent) (i : Identity) : Prop :=
  content.unopened = none ∧ ∀ key, ∃ s, content.value key = .ok s ∧ s.bytes = i.value key

theorem getStr_eq_ok_iff {content : NvsContent} {key : NvsKey} {n : Nat} {s : CStr n} :
    content.getStr key n = .ok s ↔ ∃ v, content.value key = .ok v ∧ v.bytes = s.bytes := by
  rw [NvsContent.getStr]
  cases content.value key with
  | error err => exact ⟨nofun, nofun⟩
  | ok v =>
    dsimp only
    constructor
    · intro h
      split_ifs at h with hfits
      exact ⟨v, rfl, congrArg CStr.bytes (Except.ok.inj h)⟩
    · rintro ⟨v', hv, hbytes⟩
      cases hv
      have hfits : v.bytes.length < n := hbytes ▸ s.length_lt
      rw [dif_pos hfits, Except.ok.injEq, CStr.eq_iff]
      exact hbytes

/-- `load` succeeds on the namespaces that hold an identity, and returns it. -/
theorem loadInto_ok_iff {content : NvsContent} {identity i : Identity} :
    loadInto content identity = (.ok, i) ↔ content.Holds i := by
  rw [loadInto, NvsContent.Holds]
  cases content.unopened with
  | some err =>
    constructor
    · intro h
      cases err <;> cases h
    · rintro ⟨⟨⟩, -⟩
  | none =>
    have hstored : content.stored = .ok i ↔
        ∀ key, ∃ s, content.value key = .ok s ∧ s.bytes = i.value key := by
      have hbind {α β : Type} {x : Except NvsErr α} {f : α → Except NvsErr β} {b : β} :
          (x >>= f) = .ok b ↔ ∃ a, x = .ok a ∧ f a = .ok b := by
        cases x with
        | error err => exact ⟨nofun, nofun⟩
        | ok a => exact ⟨fun h => ⟨a, rfl, h⟩, fun ⟨_, hx, h⟩ => by cases hx; exact h⟩
      simp only [NvsContent.stored, hbind, getStr_eq_ok_iff]
      constructor
      · rintro ⟨deviceId, hid, password, hpassword, mqttUrl, hurl, hi⟩ key
        cases hi
        cases key with
        | deviceId => exact hid
        | password => exact hpassword
        | mqttUrl => exact hurl
      · intro h
        exact ⟨i.deviceId, h .deviceId, i.password, h .password, i.mqttUrl, h .mqttUrl, rfl⟩
    rw [← hstored]
    cases content.stored with
    | error err =>
      constructor
      · intro h
        cases err <;> cases h
      · rintro ⟨-, ⟨⟩⟩
    | ok stored =>
      constructor
      · rintro ⟨⟩
        exact ⟨rfl, rfl⟩
      · rintro ⟨-, ⟨⟩⟩
        rfl

/-- What `load` is to ensure. -/
def LoadKept (content : NvsContent) : Prop :=
  ∀ identity, (loadInto content identity).1 = .ok → (loadInto content identity).2.valid = true

/-- What `enroll` is to ensure when it gets the response `json`, leaves `s'` behind `s` and
returns `ret`. -/
structure EnrollKept (json : Bytes) (s s' : Store) (ret : Option EspErr) : Prop where
  valid : ret = some .ok → s'.identity.valid = true
  /-- Nothing of the strings is missing. -/
  whole : ret = some .ok → Response json s'.identity.strings ∧ s'.identity.strings.Usable
  /-- Any other response is refused before anything is stored. -/
  refused : (¬ ∃ v, Response json v ∧ v.Fit ∧ v.Usable) → s' = s ∧ ∃ err ≠ .ok, ret = some err

/-- The strings of a response that fit their arrays can be used. -/
def Sound (json : Bytes) : Prop := ∀ v, Response json v → v.Fit → v.Usable

/-- What is kept of strings that can be used is all of them. -/
theorem Strings.Usable.kept {v : Strings} (h : v.Usable) :
    (⟨cstr v.deviceId, cstr v.password, cstr v.mqttUrl⟩ : Strings) = v := by
  obtain ⟨⟨-, hid⟩, ⟨-, hpassword⟩, -, hurl⟩ := h
  rw [cstr_eq_self_iff.mpr hid, cstr_eq_self_iff.mpr hpassword, cstr_eq_self_iff.mpr hurl]

/-- What is kept of strings that fit. -/
theorem Strings.Fit.exists_identity {v : Strings} (h : v.Fit) :
    ∃ i : Identity, i.strings = ⟨cstr v.deviceId, cstr v.password, cstr v.mqttUrl⟩ := by
  obtain ⟨hid, hpassword, hurl⟩ := h
  exact ⟨⟨⟨_, (length_cstr_le _).trans_lt hid, nul_notMem_cstr _⟩,
    ⟨_, (length_cstr_le _).trans_lt hpassword, nul_notMem_cstr _⟩,
    ⟨_, (length_cstr_le _).trans_lt hurl, nul_notMem_cstr _⟩⟩, rfl⟩

/-- The outcomes of a `save` that goes through. -/
def NvsEnv.allDone : NvsEnv := ⟨.done, fun _ => .done, .done, fun _ => true⟩

section Enrolling

variable {info : DeviceInfo} {args : EnrollArgs} {http : HttpEnv} {env : NvsEnv} {s : Store}
  {json : Bytes} {resp : Identity}

theorem enrollInto_of_ok (h201 : exchange info args http = .ok json)
    (hdecode : decodeEnrollResponse json = .ok resp) :
    enrollInto info args http env s =
      if saveRet env = some .ok then (some .ok, ⟨resp, save env s.nvs resp⟩)
      else (saveRet env, { s with nvs := save env s.nvs resp }) := by
  rw [enrollInto, h201]
  dsimp only
  rw [hdecode]

theorem enrollInto_of_error {err : EspErr} (h201 : exchange info args http = .ok json)
    (hdecode : decodeEnrollResponse json = .error err) :
    enrollInto info args http env s = (some err, s) := by
  rw [enrollInto, h201]
  dsimp only
  rw [hdecode]

/-- No error of the decoder is `ESP_OK`. -/
theorem ne_ok_of_decode {err : EspErr} (h : decodeEnrollResponse json = .error err) :
    err ≠ .ok := by
  rw [decodeEnrollResponse] at h
  split_ifs at h with hok
  · cases h
    exact hok
  · split at h
    · cases h
    · cases h
      decide

/-- After a sound response nothing is promised that is not kept, however `save` ends. -/
theorem Sound.kept (hsound : Sound json) (h201 : exchange info args http = .ok json) :
    EnrollKept json s (enrollInto info args http env s).2 (enrollInto info args http env s).1 := by
  cases hdecode : decodeEnrollResponse json with
  | error err =>
    have herr := ne_ok_of_decode hdecode
    rw [enrollInto_of_error h201 hdecode]
    have hfailed : some err ≠ some .ok := fun h => herr (Option.some.inj h)
    exact ⟨fun h => absurd h hfailed, fun h => absurd h hfailed, fun _ => ⟨rfl, err, herr, rfl⟩⟩
  | ok resp =>
    obtain ⟨v, hv, hfit, hresp⟩ := decodeEnrollResponse_ok_iff.mp hdecode
    have husable := hsound v hv hfit
    rw [husable.kept] at hresp
    have hrefused : ¬ ¬ ∃ v, Response json v ∧ v.Fit ∧ v.Usable :=
      not_not.mpr ⟨v, hv, hfit, husable⟩
    rw [enrollInto_of_ok h201 hdecode]
    split_ifs with hsaved
    · refine ⟨fun _ => ?_, fun _ => ?_, fun h => absurd h hrefused⟩
      · have hid : resp.deviceId.bytes = v.deviceId := congrArg Strings.deviceId hresp
        show decide (resp.deviceId.bytes ≠ []) = true
        rw [hid]
        exact decide_eq_true husable.1.1
      · show Response json resp.strings ∧ resp.strings.Usable
        rw [hresp]
        exact ⟨hv, husable⟩
    · exact ⟨fun h => absurd h hsaved, fun h => absurd h hsaved, fun h => absurd h hrefused⟩

/-- Where a `save` that goes through keeps the promise, the response was sound. -/
theorem sound_of_kept (h201 : exchange info args http = .ok json)
    (h : EnrollKept json s (enrollInto info args http .allDone s).2
      (enrollInto info args http .allDone s).1) : Sound json := by
  intro v hv hfit
  obtain ⟨resp, hresp⟩ := hfit.exists_identity
  have hdecode := decodeEnrollResponse_ok_iff.mpr ⟨v, hv, hfit, hresp⟩
  rw [enrollInto_of_ok h201 hdecode, if_pos (by rfl)] at h
  obtain ⟨hv', husable⟩ := h.whole rfl
  rwa [hv.unique hv']

end Enrolling

/-- **When an identity is one.** An identity that was loaded is valid, in every run, exactly if the
stored device id is not empty. After a 201 answer `enroll` keeps what it is to ensure, whatever NVS
does, exactly if the strings of the response that fit their arrays are not empty and have no
NUL. -/
theorem identity_iff (content : NvsContent) (info : DeviceInfo) (args : EnrollArgs)
    (http : HttpEnv) {json : Bytes} (h201 : exchange info args http = .ok json) :
    (LoadKept content ↔ ∀ i, content.Holds i → i.deviceId.bytes ≠ []) ∧
      ((∀ env s, EnrollKept json s (enrollInto info args http env s).2
          (enrollInto info args http env s).1) ↔ Sound json) := by
  constructor
  · have hvalid (i : Identity) : i.valid = true ↔ i.deviceId.bytes ≠ [] := decide_eq_true_iff
    constructor
    · intro h i hholds
      have hload : loadInto content i = (.ok, i) := loadInto_ok_iff.mpr hholds
      have hi := h i (by rw [hload])
      rwa [hload, hvalid] at hi
    · intro h identity hok
      rw [hvalid]
      exact h _ (loadInto_ok_iff.mp (Prod.ext hok rfl))
  · constructor
    · intro h
      exact sound_of_kept h201 (h .allDone ⟨.unset, .empty⟩)
    · intro hsound env s
      exact hsound.kept h201

/-! ## Two responses -/

def argsSample : EnrollArgs := ⟨some (ascii "https://api"), some (ascii "tok"), none⟩

def infoSample : DeviceInfo := ⟨.zero 6, ascii "esp32", ascii "1.0"⟩

/-- An exchange in which the server answers 201 with this body, in two reads. -/
def httpSample (body : Bytes) : HttpEnv where
  allocated := true
  client := true
  httpOpen := .ok
  written := 100
  headers := 0
  status := 201
  body := body
  reads := [20, body.length]

/-- A response with an identity. -/
def responseSample : Bytes :=
  ascii "\x7b\"deviceId\":\"a1\",\"mqtt\":\x7b\"password\":\"p1\",\"url\":\"wss://h\"\x7d\x7d"

/-- A response with an empty device id, and a password that begins with a NUL. -/
def emptyResponse : Bytes :=
  ascii "\x7b\"deviceId\":\"\",\"mqtt\":\x7b\"password\":\"\\u0000p\",\"url\":\"wss://h\"\x7d\x7d"

def identitySample : Identity :=
  ⟨⟨ascii "a1", by decide, Config.sample.deviceId_nul⟩, ⟨ascii "p1", by decide, by decide⟩,
    ⟨ascii "wss://h", by decide, by decide⟩⟩

/-- A string without escapes means its text. -/
theorem MeansAt.eq_rawText {r : JsonReader} {tok : Option Nat} {text value : Bytes}
    (h : MeansAt r tok value) (htext : r.rawText tok = some text) (hplain : 92 ∉ text) :
    value = text := by
  obtain ⟨t, ht, -, hvalue⟩ := h
  rw [JsonReader.rawText, ht] at htext
  obtain rfl : r.slice t.start t.stop = text := Option.some.inj htext
  exact hvalue.spells.eq_of_plain hplain

theorem sound_sample : Sound responseSample := by
  intro v hv _
  have htexts :
      let doc := ((JsonReader.new 48).parse responseSample).2
      doc.rawText (doc.find (some 0) (ascii "deviceId")) = some (ascii "a1") ∧
        doc.rawText (doc.find (doc.find (some 0) (ascii "mqtt")) (ascii "password")) =
          some (ascii "p1") ∧
        doc.rawText (doc.find (doc.find (some 0) (ascii "mqtt")) (ascii "url")) =
          some (ascii "wss://h") := by
    decide +kernel
  obtain ⟨hid, hpassword, hurl⟩ := htexts
  have hid' : v.deviceId = ascii "a1" := hv.deviceId.eq_rawText hid (by decide)
  have hpassword' : v.password = ascii "p1" := hv.password.eq_rawText hpassword (by decide)
  have hurl' : v.mqttUrl = ascii "wss://h" := hv.mqttUrl.eq_rawText hurl (by decide)
  rw [Strings.Usable, hid', hpassword', hurl']
  decide

/-- A device that enrolls, and one that starts again with what it has stored. -/
theorem identity_iff_sample :
    LoadKept (Nvs.ofIdentity identitySample).content ∧
      ∀ env s, EnrollKept responseSample s
        (enrollInto infoSample argsSample (httpSample responseSample) env s).2
        (enrollInto infoSample argsSample (httpSample responseSample) env s).1 := by
  have h201 : exchange infoSample argsSample (httpSample responseSample) = .ok responseSample := by
    decide +kernel
  obtain ⟨hload, henroll⟩ := identity_iff (Nvs.ofIdentity identitySample).content infoSample
    argsSample (httpSample responseSample) h201
  refine ⟨hload.mpr ?_, henroll.mpr sound_sample⟩
  intro i hi
  obtain ⟨s, hs, hbytes⟩ := hi.2 .deviceId
  cases hs
  have hid : i.deviceId.bytes = ascii "a1" := hbytes.symm
  rw [hid]
  decide

/-- What is kept of `emptyResponse`. -/
def emptyIdentity : Identity :=
  ⟨⟨[], by decide, nul_notMem_nil⟩, ⟨[], by decide, nul_notMem_nil⟩,
    ⟨ascii "wss://h", by decide, by decide⟩⟩

/-- An identity without a device id is stored and used, and loads again at the next start. -/
theorem identity_empty :
    let after := enrollInto infoSample argsSample (httpSample emptyResponse) .allDone
      ⟨.unset, .empty⟩
    (after.1 = some .ok ∧ after.2.identity.valid = false ∧
        (loadInto after.2.nvs.content .unset).1 = .ok ∧
        (loadInto after.2.nvs.content .unset).2.valid = false) ∧
      ¬ ∀ (content : NvsContent) (info : DeviceInfo) (args : EnrollArgs) (http : HttpEnv)
        (json : Bytes), exchange info args http = .ok json →
          LoadKept content ∧ ∀ env s, EnrollKept json s (enrollInto info args http env s).2
            (enrollInto info args http env s).1 := by
  intro after
  have h201 : exchange infoSample argsSample (httpSample emptyResponse) = .ok emptyResponse := by
    decide +kernel
  have hdecode : decodeEnrollResponse emptyResponse = .ok emptyIdentity := by decide +kernel
  have hafter : after = (some .ok, ⟨emptyIdentity, save .allDone .empty emptyIdentity⟩) :=
    enrollInto_of_ok h201 hdecode
  rw [hafter]
  refine ⟨⟨rfl, rfl, rfl, rfl⟩, ?_⟩
  intro h
  obtain ⟨-, hkept⟩ := h (Nvs.content .empty) infoSample argsSample (httpSample emptyResponse)
    emptyResponse h201
  have hfailed : EnrollKept emptyResponse ⟨.unset, .empty⟩ after.2 after.1 := hkept .allDone _
  rw [hafter] at hfailed
  exact Bool.false_ne_true (hfailed.valid rfl)

end Credentials

end SoulCloud
