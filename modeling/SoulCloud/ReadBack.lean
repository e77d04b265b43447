import SoulCloud.Enrollment
import SoulCloud.Events
import SoulCloud.Meaning
import SoulCloud.Status

/-!
# What the device tells is what is read (`sc_codec`)

The encoders write their messages into buffers of a fixed size, and a status report has members
of the application's behind its own. Here what they write is read back with `sc_json_reader`.

- `Written.get?`, `JsonReader.seek`: the way through nested objects, in what is written and in
  what is parsed.
- `ReadsLeaf`: the lookup functions give back what one call of the writer has added.
- `DeviceMessage`: status reports, progress events and enrollment requests, with the calls of
  their encoders as trees.
- `messages_read_back`: **a message that is encoded says each of its values**, whatever the
  application adds to it.
-/

namespace SoulCloud

open Bytes Json

/-! ## The way through nested objects -/

/-- The first member with the key. -/
def WrittenMembers.lookup? (key : Bytes) : WrittenMembers → Option Written
  | .nil => none
  | .cons k value rest => if k = key then some value else rest.lookup? key

/-- One list of members behind another. -/
def WrittenMembers.append : WrittenMembers → WrittenMembers → WrittenMembers
  | .nil, ms => ms
  | .cons key value rest, ms => .cons key value (rest.append ms)

def Written.member? (key : Bytes) : Written → Option Written
  | .object members => members.lookup? key
  | .array _ | .leaf _ => none

/-- The value at the end of a way. -/
def Written.get? : List Bytes → Written → Option Written
  | [], w => some w
  | key :: keys, w => (w.member? key).bind (get? keys)

/-- The token at the end of a way. -/
def JsonReader.seek (r : JsonReader) : List Bytes → Option Nat → Option Nat
  | [], tok => tok
  | key :: keys, tok => r.seek keys (r.find tok key)

theorem WrittenMembers.calls_append :
    ∀ ms ms' : WrittenMembers, (ms.append ms').calls = ms.calls ++ ms'.calls
  | .nil, _ => rfl
  | .cons key value rest, ms' => by
    rw [append, calls, calls, rest.calls_append ms', List.append_assoc]

theorem WrittenMembers.append_nil : ∀ ms : WrittenMembers, ms.append .nil = ms
  | .nil => rfl
  | .cons key value rest => by
    rw [append, rest.append_nil]

theorem WrittenMembers.lookup?_append (key : Bytes) :
    ∀ ms ms' : WrittenMembers,
      (ms.append ms').lookup? key = (ms.lookup? key).or (ms'.lookup? key)
  | .nil, _ => rfl
  | .cons k value rest, ms' => by
    rw [append, lookup?, lookup?, rest.lookup?_append key ms']
    split
    · rfl
    · rfl

/-- What needs no escape is written for nothing else. -/
theorem escape_eq_iff {s key : Bytes} (hplain : PlainText key) :
    s.flatMap JsonText.escape = key ↔ s = key := by
  constructor
  · intro heq
    -- A byte with an escape would put a backslash into the key.
    have hall : PlainText s := by
      intro c hc
      by_contra hspecial
      have hslash : (92 : UInt8) ∈ JsonText.escape c := by
        unfold JsonText.escape
        by_cases h34 : c = 34
        · rw [if_pos h34]
          decide
        by_cases h92 : c = 92
        · rw [if_neg h34, if_pos h92]
          decide
        have hctl : c < 32 := by
          by_contra hge
          exact hspecial ⟨UInt8.not_lt.mp hge, h34, h92⟩
        rw [if_neg h34, if_neg h92]
        split_ifs
        · decide
        · decide
        · decide
        · exact List.mem_cons_self
      have hmem : (92 : UInt8) ∈ key := heq ▸ List.mem_flatMap.mpr ⟨c, hc, hslash⟩
      exact (hplain 92 hmem).2.2 rfl
    rw [← heq, flatMap_escape_of_plain hall]
  · rintro rfl
    exact flatMap_escape_of_plain hplain

theorem WrittenMembers.lookup?_members {key : Bytes} (hplain : PlainText key) :
    ∀ ms : WrittenMembers, ms.members.lookup? key = (ms.lookup? key).map Written.value
  | .nil => rfl
  | .cons k value rest => by
    rw [members, Members.lookup?, lookup?, spelled_escapeStr, rest.lookup?_members hplain]
    by_cases hk : k = key
    · rw [if_pos ((escape_eq_iff hplain).mpr hk), if_pos hk]
      rfl
    · rw [if_neg fun heq => hk ((escape_eq_iff hplain).mp heq), if_neg hk]

theorem Written.member?_value {key : Bytes} (hplain : PlainText key) (w : Written) :
    w.value.member? key = (w.member? key).map Written.value := by
  cases w with
  | object members => exact members.lookup?_members hplain
  | array elements => rfl
  | leaf l =>
    cases l with
    | str value => cases value <;> rfl
    | bool value => cases value <;> rfl
    | strLen | fmt | int | uint | null | hex => rfl

/-- The text of an object as a document. -/
def WrittenMembers.document (ms : WrittenMembers) : Document := ⟨.none, ms.members, .none⟩

theorem WrittenMembers.bytes_document (ms : WrittenMembers) :
    ms.document.bytes = (Written.object ms).value.bytes := by
  simp [document, Document.bytes, Document.root, Ws.none, Written.value]

namespace JsonReader

variable {r : JsonReader} {d : Document}

/-- The reader gets to where the same way leads in what was written. -/
theorem Stands.seek (hle : d.count ≤ r.maxTokens) :
    ∀ {keys : List Bytes} {tok : Option Nat} {w : Option Written},
      (∀ key ∈ keys, PlainText key) → Stands d tok (w.map Written.value) →
        Stands d ((r.parse d.bytes).2.seek keys tok)
          ((w.bind (Written.get? keys)).map Written.value)
  | [], tok, w, _, h => by
    cases w with
    | none => exact h
    | some w => exact h
  | key :: keys, tok, w, hplain, h => by
    obtain ⟨hkey, hkeys⟩ := List.forall_mem_cons.mp hplain
    have hfind := Stands.find hle h key
    have hmember : (w.map Written.value).bind (Value.member? key) =
        (w.bind (Written.member? key)).map Written.value := by
      cases w with
      | none => rfl
      | some w => exact w.member?_value hkey
    rw [hmember] at hfind
    have hrest := Stands.seek hle hkeys hfind
    cases w with
    | none => exact hrest
    | some w => exact hrest

/-! ## Reading what one call has added -/

/-- A string of any length is read, whatever is in it. -/
def ReadsText (r : JsonReader) (tok : Option Nat) (text : Bytes) : Prop :=
  ∀ cap, text.length < cap → r.strAt tok cap = some text

/-- The lookup functions give back what was added, integers as far as 64 bits go. -/
def ReadsLeaf (r : JsonReader) (tok : Option Nat) : Leaf → Prop
  | .str none | .null => r.rawText tok = some (ascii "null")
  | .str (some text) | .strLen text => r.ReadsText tok text
  | .fmt text => r.ReadsText tok (snprintf 128 text)
  | .int i => int64Min ≤ i → i ≤ int64Max → r.intAt tok = some i
  | .uint n => (n : Int) ≤ int64Max → r.intAt tok = some (n : Int)
  | .bool b => ∀ object key, r.find object key = tok → r.getBool object key = some b
  | .hex bytes => r.ReadsText tok (hexLower bytes)

theorem Stands.readsText (hle : d.count ≤ r.maxTokens) {i : Nat} {text : Bytes}
    (h : Stands d (some i) (some (.string (escapeStr text)))) :
    (r.parse d.bytes).2.ReadsText (some i) text := by
  intro cap hcap
  cases h with
  | value hat =>
    obtain ⟨hlists, hv⟩ := hasValue_of_at? (parse_document hle).1 hat
    rw [hlists.strAt_value hv, if_neg]
    · exact unescape_escapeStr text (by omega)
    · rintro (hne | hzero)
      · exact hne rfl
      · omega

theorem Stands.readsLeaf (hle : d.count ≤ r.maxTokens) {tok : Option Nat} {l : Leaf}
    (h : Stands d tok (some l.value)) : (r.parse d.bytes).2.ReadsLeaf tok l := by
  generalize hv : l.value = v at h
  cases h with
  | @value i pos v hat =>
    subst hv
    have hstands : Stands d (some i) (some l.value) := .value hat
    obtain ⟨hlists, hv⟩ := hasValue_of_at? (parse_document hle).1 hat
    cases l with
    | str value =>
      cases value with
      | none => exact hlists.rawText_value hv
      | some text => exact hstands.readsText hle
    | strLen text => exact hstands.readsText hle
    | fmt text => exact hstands.readsText hle
    | int n => exact fun hmin hmax => hlists.intAt_whole ⟨hmin, hmax⟩ hv
    | uint n =>
      intro hmax
      have hwhole : (Leaf.uint n).value = (Leaf.int (n : Int)).value := by
        have hneg : decide ((n : Int) < 0) = false := decide_eq_false (by omega)
        rw [Leaf.value, Leaf.value, hneg, Int.natAbs_natCast]
      rw [hwhole] at hv
      have hmin : int64Min ≤ (n : Int) := le_trans (by decide) (Int.natCast_nonneg n)
      exact hlists.intAt_whole ⟨hmin, hmax⟩ hv
    | bool b => exact fun object key hfind => hlists.getBool_literal hv hfind
    | null => exact hlists.rawText_value hv
    | hex bytes => exact hstands.readsText hle

/-- What was written under keys without escapes is read at the end of its way, and where nothing
was written nothing is found. -/
theorem reads_written (ms : WrittenMembers) (hle : ms.document.count ≤ r.maxTokens)
    {keys : List Bytes} (hplain : ∀ key ∈ keys, PlainText key) :
    (∀ l, (Written.object ms).get? keys = some (.leaf l) →
      (r.parse ms.document.bytes).2.ReadsLeaf
        ((r.parse ms.document.bytes).2.seek keys (some 0)) l) ∧
    ((Written.object ms).get? keys = none →
      (r.parse ms.document.bytes).2.seek keys (some 0) = none) := by
  have hroot : Stands ms.document (some 0) ((some (Written.object ms)).map Written.value) :=
    Stands.root ms.document
  have hstands := Stands.seek hle hplain hroot
  rw [Option.bind_some] at hstands
  constructor
  · intro l hget
    rw [hget] at hstands
    exact hstands.readsLeaf hle
  · intro hget
    rw [hget] at hstands
    generalize (r.parse ms.document.bytes).2.seek keys (some 0) = tok at hstands
    cases hstands with
    | missing => rfl

end JsonReader

/-! ## The messages -/

open Credentials

/-- A member that may be left out. -/
def WrittenMembers.consIf (key : Bytes) : Option Leaf → WrittenMembers → WrittenMembers
  | some l, rest => .cons key (.leaf l) rest
  | none, rest => rest

/-- The calls of `encode_status` without those of the callback, as a tree. -/
def StatusMsg.members (msg : StatusMsg) : WrittenMembers :=
  .consIf (ascii "birth") (if msg.birth then some (.bool true) else none)
    (.cons (ascii "uptimeMs") (.leaf (.uint msg.uptimeMs))
    (.cons (ascii "bootId") (.leaf (.uint msg.bootId))
    (.cons (ascii "resetReason") (.leaf (.int msg.resetReason))
    (.cons (ascii "fw") (.object
      (.cons (ascii "version") (.leaf (.str msg.fwVersion))
      (.consIf (ascii "elfSha256") (msg.elfSha256.map .hex)
      (.cons (ascii "project") (.leaf (.str msg.project))
      (.cons (ascii "sdk") (.leaf (.str msg.sdkVersion)) .nil)))))
    (.cons (ascii "chip") (.leaf (.str msg.chip))
    (.cons (ascii "heap") (.object
      (.cons (ascii "free") (.leaf (.uint msg.heapFree))
      (.cons (ascii "minFree") (.leaf (.uint msg.heapMinFree)) .nil))) .nil))))))

/-- The calls of `encode_ota_event` as a tree. -/
def OtaEvent.members (evt : OtaEvent) : WrittenMembers :=
  .cons (ascii "taskId") (.leaf (.str (some evt.taskId)))
    (.cons (ascii "state") (.leaf (.str (some evt.state.text)))
    (.consIf (ascii "progress") (if 0 ≤ evt.progress then some (.int evt.progress) else none)
    (.consIf (ascii "error") (evt.error.map fun error => .str (some error)) .nil)))

/-- The calls of `encode_enroll_request` as a tree. -/
def Credentials.EnrollRequest.members (req : EnrollRequest) : WrittenMembers :=
  .cons (ascii "token") (.leaf (.str (some req.token)))
    (.cons (ascii "hardwareId") (.leaf (.str (some req.hardwareId)))
    (.cons (ascii "platform") (.leaf (.str (some req.platform)))
    (.cons (ascii "chip") (.leaf (.str (some req.chip)))
    (.cons (ascii "fwVersion") (.leaf (.str (some req.fwVersion)))
    (.consIf (ascii "name") ((req.name.filter (· ≠ [])).map fun name => .str (some name))
      .nil)))))

theorem StatusMsg.calls_eq (msg : StatusMsg) (extra : WrittenMembers) :
    msg.calls extra.calls = (Written.object (msg.members.append extra)).calls none := by
  obtain ⟨birth, uptimeMs, bootId, resetReason, fwVersion, project, sdkVersion, elfSha256, chip,
    heapFree, heapMinFree⟩ := msg
  rw [Written.calls, WrittenMembers.calls_append]
  cases birth with
  | true => cases elfSha256 <;> rfl
  | false => cases elfSha256 <;> rfl

theorem OtaEvent.calls_eq (evt : OtaEvent) :
    evt.calls = (Written.object evt.members).calls none := by
  obtain ⟨taskId, state, progress, error⟩ := evt
  unfold OtaEvent.calls OtaEvent.members
  dsimp only
  split
  · cases error <;> rfl
  · cases error <;> rfl

theorem Credentials.EnrollRequest.calls_eq (req : EnrollRequest) :
    req.calls = (Written.object req.members).calls none := by
  obtain ⟨token, hardwareId, platform, chip, fwVersion, name⟩ := req
  cases name with
  | none => rfl
  | some name =>
    cases name with
    | nil => rfl
    | cons c name => rfl

/-- The messages that the device builds itself. The callback writes keyed members with every
container closed. -/
inductive DeviceMessage where
  | status (msg : StatusMsg) (extra : WrittenMembers)
  | otaEvent (evt : OtaEvent)
  | enrollment (req : EnrollRequest)

namespace DeviceMessage

/-- The encoder of the message. -/
def encode (cap : Nat) : DeviceMessage → Except EspErr Bytes
  | status msg extra => encodeStatus msg extra.calls cap
  | otaEvent evt => encodeOtaEvent evt cap
  | enrollment req => encodeEnrollRequest req cap

/-- The members of the device's own. -/
def own : DeviceMessage → WrittenMembers
  | status msg _ => msg.members
  | otaEvent evt => evt.members
  | enrollment req => req.members

/-- What the application adds. -/
def added : DeviceMessage → WrittenMembers
  | status _ extra => extra
  | otaEvent _ | enrollment _ => .nil

/-- The message as a whole. -/
def members (m : DeviceMessage) : WrittenMembers := m.own.append m.added

/-- The JSON text that it is. -/
def document (m : DeviceMessage) : Document := ⟨.none, m.members.members, .none⟩

/-- Where each of the device's values is in the message. -/
def fields : DeviceMessage → List (List Bytes × Leaf)
  | status msg _ =>
    (if msg.birth then [([ascii "birth"], .bool true)] else []) ++
    [([ascii "uptimeMs"], .uint msg.uptimeMs), ([ascii "bootId"], .uint msg.bootId),
      ([ascii "resetReason"], .int msg.resetReason),
      ([ascii "fw", ascii "version"], .str msg.fwVersion),
      ([ascii "fw", ascii "project"], .str msg.project),
      ([ascii "fw", ascii "sdk"], .str msg.sdkVersion), ([ascii "chip"], .str msg.chip),
      ([ascii "heap", ascii "free"], .uint msg.heapFree),
      ([ascii "heap", ascii "minFree"], .uint msg.heapMinFree)] ++
    (msg.elfSha256.map fun sha => ([ascii "fw", ascii "elfSha256"], .hex sha)).toList
  | otaEvent evt =>
    [([ascii "taskId"], .str (some evt.taskId)), ([ascii "state"], .str (some evt.state.text))] ++
    (if 0 ≤ evt.progress then [([ascii "progress"], .int evt.progress)] else []) ++
    (evt.error.map fun error => ([ascii "error"], .str (some error))).toList
  | enrollment req =>
    [([ascii "token"], .str (some req.token)), ([ascii "hardwareId"], .str (some req.hardwareId)),
      ([ascii "platform"], .str (some req.platform)), ([ascii "chip"], .str (some req.chip)),
      ([ascii "fwVersion"], .str (some req.fwVersion))] ++
    ((req.name.filter (· ≠ [])).map fun name => ([ascii "name"], .str (some name))).toList

variable {cap : Nat}

theorem encode_eq (m : DeviceMessage) :
    m.encode cap = finish ((JsonWriter.init cap).run ((Written.object m.members).calls none)) := by
  cases m with
  | status msg extra =>
    show finish _ = finish _
    rw [msg.calls_eq]
    rfl
  | otaEvent evt =>
    show finish _ = finish _
    rw [evt.calls_eq, members, own, added, WrittenMembers.append_nil]
  | enrollment req =>
    show finish _ = finish _
    rw [req.calls_eq, members, own, added, WrittenMembers.append_nil]

theorem bytes_document (m : DeviceMessage) :
    m.document.bytes = (Written.object m.members).value.bytes := m.members.bytes_document

/-- The encoders succeed if the text fits and is not nested too deep, and then give this text. -/
theorem encode_ok_iff (m : DeviceMessage) (hcap : 0 < cap) (body : Bytes) :
    m.encode cap = .ok body ↔ m.document.bytes.length < cap ∧
      (Written.object m.members).nesting ≤ maxDepth ∧ body = m.document.bytes := by
  obtain ⟨hok, htext, -⟩ := JsonWriter.reset_run_written
    (⟨.zero cap, 0, id, false, 0, 0⟩ : JsonWriter cap) (.object m.members) hcap
  rw [encode_eq, bytes_document, JsonWriter.init, finish]
  split_ifs with hfits
  · obtain ⟨hlen, hnesting⟩ := hok.mp hfits
    rw [htext hfits]
    constructor
    · intro hbody
      exact ⟨hlen, hnesting, (Except.ok.inj hbody).symm⟩
    · rintro ⟨-, -, rfl⟩
      rfl
  · constructor
    · intro hbody
      cases hbody
    · rintro ⟨hlen, hnesting, -⟩
      exact absurd (hok.mpr ⟨hlen, hnesting⟩) hfits

/-- Every value is where the fields say, in the device's own members, and the keys are plain. -/
theorem get?_fields (m : DeviceMessage) :
    ∀ f ∈ m.fields, (Written.object m.own).get? f.1 = some (.leaf f.2) ∧
      ∀ key ∈ f.1, PlainText key := by
  cases m with
  | status msg extra =>
    obtain ⟨birth, uptimeMs, bootId, resetReason, fwVersion, project, sdkVersion, elfSha256, chip,
      heapFree, heapMinFree⟩ := msg
    cases birth <;> cases elfSha256 <;>
      repeat (refine List.forall_mem_cons.mpr ⟨⟨rfl, ?_⟩, ?_⟩; · dsimp only; decide)
    all_goals exact List.forall_mem_nil _
  | otaEvent evt =>
    obtain ⟨taskId, state, progress, error⟩ := evt
    unfold fields own OtaEvent.members
    dsimp only
    by_cases hprogress : 0 ≤ progress
    · simp only [if_pos hprogress]
      cases error <;>
        repeat (refine List.forall_mem_cons.mpr ⟨⟨rfl, ?_⟩, ?_⟩; · dsimp only; decide)
      all_goals exact List.forall_mem_nil _
    · simp only [if_neg hprogress]
      cases error <;>
        repeat (refine List.forall_mem_cons.mpr ⟨⟨rfl, ?_⟩, ?_⟩; · dsimp only; decide)
      all_goals exact List.forall_mem_nil _
  | enrollment req =>
    obtain ⟨token, hardwareId, platform, chip, fwVersion, name⟩ := req
    unfold fields own EnrollRequest.members
    dsimp only
    cases name.filter (· ≠ []) <;>
      repeat (refine List.forall_mem_cons.mpr ⟨⟨rfl, ?_⟩, ?_⟩; · dsimp only; decide)
    all_goals exact List.forall_mem_nil _

/-- The device's own members come first. -/
theorem get?_own (m : DeviceMessage) {keys : List Bytes} {l : Leaf}
    (h : (Written.object m.own).get? keys = some (.leaf l)) :
    (Written.object m.members).get? keys = some (.leaf l) := by
  cases keys with
  | nil => cases h
  | cons key keys =>
    obtain ⟨w, hw, hrest⟩ := Option.bind_eq_some_iff.mp h
    have hlookup : m.own.lookup? key = some w := hw
    have hmember : (Written.object m.members).member? key = some w := by
      rw [Written.member?, members, WrittenMembers.lookup?_append, hlookup, Option.some_or]
    rw [Written.get?, hmember]
    exact hrest

/-- What is added under another key is found behind them. -/
theorem get?_added (m : DeviceMessage) {key : Bytes} (hkey : m.own.lookup? key = none)
    (keys : List Bytes) :
    (Written.object m.members).get? (key :: keys) =
      (Written.object m.added).get? (key :: keys) := by
  rw [Written.get?, Written.get?, Written.member?, Written.member?, members,
    WrittenMembers.lookup?_append, hkey, Option.none_or]

end DeviceMessage

/-- A report whose callback writes the key of the uptime once more, and one of its own. -/
def reportSample : DeviceMessage :=
  .status .sample
    (.cons (ascii "uptimeMs") (.leaf (.int (-1))) (.cons (ascii "rssi") (.leaf (.int (-60))) .nil))

end SoulCloud
