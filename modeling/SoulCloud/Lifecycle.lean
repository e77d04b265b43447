import SoulCloud.Enrollment
import SoulCloud.Lib.Lts

/-!
# The identity over a device's life (`sc_client::init`, `sc_client::erase_credentials`)

A device starts any number of times. Each start loads the stored identity, or redeems a pairing
token for a new one; the application may erase it, and the device may reset in the middle of each.

- `initIdentity`, `eraseInto`: what the two leave in the object and in NVS.
- `lifecycle`: a device from the factory on, with what the platform has issued to it and what it
  has started with.
- `identity_issued`: every identity the device starts with was issued to it, as a whole, unless an
  enrollment that replaces another identity was cut short.
- `identity_kept`: an enrolled device keeps its identity until it is told to enroll again or to
  erase it, whatever NVS, the network and the power do.
-/

namespace SoulCloud

namespace Credentials

open Bytes

/-! ## Starting -/

/-- What keeps NVS from being read: errors other than that a key is missing. -/
structure ReadEnv where
  nvsOpen : Option Nat
  getStr : NvsKey → Option Nat

/-- NVS as it is read. -/
def Nvs.readBy (nvs : Nvs) (env : ReadEnv) : NvsContent where
  unopened := env.nvsOpen.map .other
  value key :=
    match env.getStr key with
    | some code => .error (.other code)
    | none => nvs.content.value key

/-- `sc_config`. -/
structure InitConfig where
  apiUrl : Option Bytes
  pairingToken : Option Bytes
  deviceName : Option Bytes
  reEnroll : Bool

/-- What a device is built with. -/
structure Build where
  info : DeviceInfo
  /-- `CONFIG_SOULCLOUD_API_URL`. -/
  apiUrl : Bytes

namespace InitConfig

/-- `have_token`. -/
def haveToken (cfg : InitConfig) : Bool := decide (cfg.pairingToken.getD [] ≠ [])

/-- `init` enrolls after `load` has returned `ret`. -/
def Enrolls (cfg : InitConfig) (ret : EspErr) : Prop :=
  (ret = .notFound ∨ cfg.reEnroll = true) ∧ cfg.haveToken = true

instance (cfg : InitConfig) (ret : EspErr) : Decidable (cfg.Enrolls ret) :=
  inferInstanceAs (Decidable (_ ∧ _))

def args (cfg : InitConfig) (build : Build) : EnrollArgs :=
  ⟨some (cfg.apiUrl.getD build.apiUrl), cfg.pairingToken, cfg.deviceName⟩

end InitConfig

/-- One start of the device. -/
structure Start where
  cfg : InitConfig
  read : ReadEnv
  http : HttpEnv
  write : NvsEnv

namespace Start

/-- What `load` returns and leaves in the new object. -/
def loaded (st : Start) (nvs : Nvs) : EspErr × Identity := loadInto (nvs.readBy st.read) .unset

/-- What the platform issues, if `init` enrolls and all of it arrives. -/
def issued (build : Build) (st : Start) (nvs : Nvs) : Option Identity :=
  if st.cfg.Enrolls (st.loaded nvs).1 then
    ((exchange build.info (st.cfg.args build) st.http).bind decodeEnrollResponse).toOption
  else none

end Start

/-- `init` up to the identity: what it has returned by then, if it gets that far, and what it
leaves. -/
def initIdentity (build : Build) (st : Start) (nvs : Nvs) : Option EspErr × Store :=
  let loaded := st.loaded nvs
  if st.cfg.Enrolls loaded.1 then
    enrollInto build.info (st.cfg.args build) st.http st.write ⟨loaded.2, nvs⟩
  else (some loaded.1, ⟨loaded.2, nvs⟩)

/-! ## Erasing -/

/-- What NVS does during one `erase`. -/
structure EraseEnv where
  nvsOpen : NvsOutcome
  eraseAll : NvsOutcome
  commit : NvsOutcome
  /-- Whether an erased key stays away without a commit. -/
  gone : NvsKey → Bool

/-- `ESP_ERR_NVS_NOT_FOUND`. -/
def nvsNotFound : Nat := 0x1102

/-- The namespace without some keys. -/
def Nvs.without (nvs : Nvs) (keys : NvsKey → Bool) : Nvs where
  deviceId := if keys .deviceId then none else nvs.deviceId
  password := if keys .password then none else nvs.password
  mqttUrl := if keys .mqttUrl then none else nvs.mqttUrl

/-- `sc_credentials::erase`: what it returns, if it does, and what it leaves. -/
def eraseInto (env : EraseEnv) (s : Store) : Option EspErr × Store :=
  if env.nvsOpen ≠ .done then
    (if env.nvsOpen = .failed nvsNotFound then some .ok else env.nvsOpen.ret, s)
  else if env.eraseAll ≠ .done then (env.eraseAll.ret, { s with identity := .unset })
  else
    (env.commit.ret,
      ⟨.unset, s.nvs.without fun key => decide (env.commit = .done) || env.gone key⟩)

/-! ## A device's life -/

/-- NVS, and the object of this start with what `init` has returned; there is none before a start
and while the device is off. -/
structure Life where
  nvs : Nvs
  creds : Option (EspErr × Identity)

inductive LifeAct where
  | start (st : Start)
  /-- `erase_credentials`, which makes an object of its own before `init`. -/
  | erase (env : EraseEnv)
  | powerOff

namespace Life

/-- A device from the factory. -/
def init : Life := ⟨.empty, none⟩

def step (build : Build) (s : Life) : LifeAct → Option Life
  | .start st =>
    let after := initIdentity build st s.nvs
    some ⟨after.2.nvs, after.1.map fun ret => (ret, after.2.identity)⟩
  | .erase env =>
    let after := eraseInto env ⟨(s.creds.map Prod.snd).getD .unset, s.nvs⟩
    -- The device is off where NVS was not reached any more.
    some ⟨after.2.nvs, after.1.bind fun _ => s.creds.map fun c => (c.1, after.2.identity)⟩
  | .powerOff => some { s with creds := none }

/-- The identity that `init` has gone on with. -/
def running (s : Life) : Option Identity :=
  s.creds.bind fun c => if c.1 = .ok then some c.2 else none

end Life

/-- What has happened to the identity. -/
structure LifeLog where
  /-- What the platform has issued and the device has received. -/
  issued : List Identity
  /-- What the device has started with: `init` went on to connect. -/
  used : List Identity

def LifeLog.update (build : Build) (s : Life) (a : LifeAct) (s' : Life) (h : LifeLog) : LifeLog :=
  match a with
  | .start st =>
    { issued := h.issued ++ (st.issued build s.nvs).toList
      used := h.used ++ s'.running.toList }
  | .erase _ | .powerOff => h

/-- A device's life from the factory on. -/
def lifecycle (build : Build) : Lts (Life × LifeLog) LifeAct :=
  (Lts.mk Life.init (Life.step build)).withHist ⟨[], []⟩ (LifeLog.update build)

/-! ## What a start leaves -/

variable {build : Build}

theorem load_error (nvs : Nvs) : load nvs ≠ .error .ok := by
  obtain ⟨deviceId, password, mqttUrl⟩ := nvs
  cases deviceId <;> cases password <;> cases mqttUrl <;> rintro ⟨⟩

/-- What `load` returns of NVS that it can read is what is stored. -/
theorem loaded_ok {st : Start} {nvs : Nvs} (h : (st.loaded nvs).1 = .ok) :
    load nvs = .ok (st.loaded nvs).2 := by
  have hread : loadInto (nvs.readBy st.read) .unset = (.ok, (st.loaded nvs).2) := Prod.ext h rfl
  obtain ⟨hopen, hkeys⟩ := loadInto_ok_iff.mp hread
  have hholds : nvs.content.Holds (st.loaded nvs).2 := by
    refine ⟨rfl, fun key => ?_⟩
    obtain ⟨s, hs, hbytes⟩ := hkeys key
    rw [Nvs.readBy] at hs
    dsimp only at hs
    cases hfails : st.read.getStr key with
    | some code =>
      rw [hfails] at hs
      cases hs
    | none =>
      rw [hfails] at hs
      exact ⟨s, hs, hbytes⟩
  have hload : loadInto nvs.content .unset = (.ok, (st.loaded nvs).2) :=
    loadInto_ok_iff.mpr hholds
  rw [loadInto_content] at hload
  cases hstored : load nvs with
  | error ret =>
    rw [hstored] at hload
    obtain rfl : ret = .ok := congrArg Prod.fst hload
    exact absurd hstored (load_error nvs)
  | ok i =>
    rw [hstored] at hload
    exact congrArg Except.ok (congrArg Prod.snd hload)

theorem requestBody_error {info : DeviceInfo} {args : EnrollArgs} {ret : EspErr}
    (h : requestBody info args = .error ret) : ret ≠ .ok := by
  unfold requestBody encodeEnrollRequest finish at h
  split at h
  · split_ifs at h
    all_goals
      cases h
      rintro ⟨⟩
  · cases h
    rintro ⟨⟩

/-- An exchange that fails does not return `ESP_OK`. -/
theorem exchange_error {info : DeviceInfo} {args : EnrollArgs} {http : HttpEnv} {ret : EspErr}
    (h : exchange info args http = .error ret) : ret ≠ .ok := by
  rw [exchange] at h
  cases hbody : requestBody info args with
  | error err =>
    rw [hbody] at h
    cases h
    exact requestBody_error hbody
  | ok body =>
    rw [hbody] at h
    have hanswer : http.answer body = .error ret := h
    rw [HttpEnv.answer] at hanswer
    split_ifs at hanswer with _ hopen
    all_goals cases hanswer
    · rintro ⟨⟩
    · exact hopen
    all_goals rintro ⟨⟩

theorem decodeEnrollResponse_error {payload : Bytes} {ret : EspErr}
    (h : decodeEnrollResponse payload = .error ret) : ret ≠ .ok := by
  rw [decodeEnrollResponse] at h
  split_ifs at h with hparse
  · cases h
    exact hparse
  · split at h
    · cases h
    · cases h
      rintro ⟨⟩

/-- A save that returns `ESP_OK` has stored the whole identity. -/
theorem holds_of_saveRet {env : NvsEnv} (h : saveRet env = some .ok) (key : NvsKey) :
    env.Holds key := by
  have hdone : (saveRun env).ret = .done := by
    unfold saveRet NvsOutcome.ret at h
    split at h
    · assumption
    · cases h
    · cases h
  -- A call that is not done ends the save, and is what it returns.
  have hcalls : env.Sets .mqttUrl ∧ env.commit = .done := by
    unfold NvsEnv.Sets
    simp only [saveRun, SaveRun.setStr, SaveRun.commit] at hdone
    split_ifs at hdone <;> simp_all
  refine ⟨?_, .inl hcalls⟩
  cases key with
  | deviceId => exact hcalls.1.1.1
  | password => exact hcalls.1.1
  | mqttUrl => exact hcalls.1

/-- What a start comes to. -/
inductive Started (build : Build) (st : Start) (nvs : Nvs) : Option EspErr × Store → Prop
  /-- It does not enroll: what is stored is used, if it can be read. -/
  | loaded (hno : ¬ st.cfg.Enrolls (st.loaded nvs).1) (hissued : st.issued build nvs = none) :
      Started build st nvs (some (st.loaded nvs).1, ⟨(st.loaded nvs).2, nvs⟩)
  /-- It enrolls, and nothing comes of it. -/
  | refused {ret : EspErr} {i : Identity} (henrolls : st.cfg.Enrolls (st.loaded nvs).1)
      (hret : ret ≠ .ok) (hissued : st.issued build nvs = none) :
      Started build st nvs (some ret, ⟨i, nvs⟩)
  /-- It enrolls and saves what it is issued. -/
  | enrolled {resp i : Identity} (henrolls : st.cfg.Enrolls (st.loaded nvs).1)
      (hissued : st.issued build nvs = some resp) (hi : saveRet st.write = some .ok → i = resp) :
      Started build st nvs (saveRet st.write, ⟨i, save st.write nvs resp⟩)

theorem initIdentity_started (build : Build) (st : Start) (nvs : Nvs) :
    Started build st nvs (initIdentity build st nvs) := by
  unfold initIdentity
  by_cases henrolls : st.cfg.Enrolls (st.loaded nvs).1
  · rw [if_pos henrolls]
    have hissued : st.issued build nvs =
        ((exchange build.info (st.cfg.args build) st.http).bind
          decodeEnrollResponse).toOption := if_pos henrolls
    rw [enrollInto]
    cases hex : exchange build.info (st.cfg.args build) st.http with
    | error ret =>
      rw [hex] at hissued
      exact .refused henrolls (exchange_error hex) hissued
    | ok text =>
      rw [hex] at hissued
      dsimp only
      cases hdec : decodeEnrollResponse text with
      | error ret =>
        have hnone : st.issued build nvs = none := by
          rw [hissued]
          exact congrArg Except.toOption hdec
        exact .refused henrolls (decodeEnrollResponse_error hdec) hnone
      | ok resp =>
        have hsome : st.issued build nvs = some resp := by
          rw [hissued]
          exact congrArg Except.toOption hdec
        dsimp only
        by_cases hsaved : saveRet st.write = some .ok
        · rw [if_pos hsaved, ← hsaved]
          exact .enrolled henrolls hsome fun _ => rfl
        · rw [if_neg hsaved]
          exact .enrolled henrolls hsome fun hok => absurd hok hsaved
  · rw [if_neg henrolls]
    exact .loaded henrolls (if_neg henrolls)

/-! ## Where the stored strings come from -/

theorem value?_without (nvs : Nvs) (keys : NvsKey → Bool) (key : NvsKey) :
    (nvs.without keys).value? key = if keys key then none else nvs.value? key := by
  cases key <;> exact apply_ite (Option.map CStr.bytes) _ _ _

/-- What is stored, all of it or some keys, is the identity's. -/
def Nvs.PartOf (nvs : Nvs) (i : Identity) : Prop :=
  ∀ key, ∀ value ∈ nvs.value? key, value = i.value key

/-- A complete part is the identity. -/
theorem Nvs.PartOf.load {nvs : Nvs} {i j : Identity} (h : nvs.PartOf i)
    (hload : load nvs = .ok j) : j = i :=
  Identity.eq_of_value fun key => h key _ (value?_of_load hload key)

theorem Nvs.PartOf.without {nvs : Nvs} {i : Identity} (h : nvs.PartOf i) (keys : NvsKey → Bool) :
    (nvs.without keys).PartOf i := by
  intro key value hvalue
  rw [value?_without] at hvalue
  split_ifs at hvalue
  · cases hvalue
  · exact h key value hvalue

theorem Nvs.without_empty (keys : NvsKey → Bool) : Nvs.empty.without keys = .empty := by
  unfold Nvs.without Nvs.empty
  simp only [ite_self]

theorem partOf_replace_empty (i : Identity) (keys : NvsKey → Bool) :
    (Nvs.empty.replace i keys).PartOf i := by
  intro key value hvalue
  rw [value?_replace] at hvalue
  split_ifs at hvalue
  · exact (Option.some.inj hvalue).symm
  · cases key <;> cases hvalue

theorem partOf_ofIdentity (i : Identity) : (Nvs.ofIdentity i).PartOf i := by
  intro key value hvalue
  cases key <;> exact (Option.some.inj hvalue).symm

theorem save_eq (env : NvsEnv) (nvs : Nvs) (resp : Identity) :
    save env nvs resp = nvs.replace resp fun key =>
      (saveRun env).replaced key && ((saveRun env).committed || env.survives key) := rfl

/-- A save that comes to all of it stores the identity. -/
theorem save_of_holds {env : NvsEnv} (h : ∀ key, env.Holds key) (nvs : Nvs) (resp : Identity) :
    save env nvs resp = .ofIdentity resp := by
  rw [save_eq, funext fun key => (saveRun_holds env key).mpr (h key)]
  rfl

/-- One that comes to nothing leaves what is stored. -/
theorem save_of_not_holds {env : NvsEnv} (h : ∀ key, ¬ env.Holds key) (nvs : Nvs)
    (resp : Identity) : save env nvs resp = nvs := by
  have hnone : ∀ key, ((saveRun env).replaced key &&
      ((saveRun env).committed || env.survives key)) = false := fun key =>
    Bool.eq_false_iff.mpr fun htrue => h key ((saveRun_holds env key).mp htrue)
  rw [save_eq, funext hnone]
  rfl

/-- What is stored has been issued. -/
def StoredFrom (issued : List Identity) (nvs : Nvs) : Prop :=
  nvs = .empty ∨ ∃ i ∈ issued, nvs.PartOf i

theorem StoredFrom.mem {issued : List Identity} {nvs : Nvs} (h : StoredFrom issued nvs)
    {i : Identity} (hload : load nvs = .ok i) : i ∈ issued := by
  obtain rfl | ⟨j, hj, hpart⟩ := h
  · cases hload
  · rw [hpart.load hload]
    exact hj

theorem StoredFrom.append {issued : List Identity} {nvs : Nvs} (h : StoredFrom issued nvs)
    (more : List Identity) : StoredFrom (issued ++ more) nvs := by
  obtain hempty | ⟨j, hj, hpart⟩ := h
  · exact .inl hempty
  · exact .inr ⟨j, List.mem_append_left _ hj, hpart⟩

/-- An enrollment is not cut short: it stores all of an identity or nothing of it, unless there is
none to replace. -/
def WholeSave (build : Build) (p : Life × LifeLog) : LifeAct → Prop
  | .start st => st.issued build p.1.nvs = none ∨ p.1.nvs = .empty ∨
      (∀ key, st.write.Holds key) ∨ ∀ key, ¬ st.write.Holds key
  | .erase _ | .powerOff => True

instance (env : NvsEnv) (key : NvsKey) : Decidable (env.Holds key) :=
  decidable_of_iff _ (saveRun_holds env key)

theorem forall_nvsKey_iff {p : NvsKey → Prop} :
    (p .deviceId ∧ p .password ∧ p .mqttUrl) ↔ ∀ key, p key := by
  constructor
  · rintro ⟨hid, hpassword, hurl⟩ key
    cases key with
    | deviceId => exact hid
    | password => exact hpassword
    | mqttUrl => exact hurl
  · intro h
    exact ⟨h .deviceId, h .password, h .mqttUrl⟩

instance (p : NvsKey → Prop) [DecidablePred p] : Decidable (∀ key, p key) :=
  decidable_of_iff _ forall_nvsKey_iff

instance (build : Build) (p : Life × LifeLog) (a : LifeAct) : Decidable (WholeSave build p a) :=
  match a with
  | .start _ => inferInstanceAs (Decidable (_ ∨ _))
  | .erase _ | .powerOff => inferInstanceAs (Decidable True)

/-- What is stored after an enrollment that was not cut short. -/
theorem storedFrom_save {issued : List Identity} {nvs : Nvs} {env : NvsEnv}
    (h : StoredFrom issued nvs) (resp : Identity)
    (hwhole : nvs = .empty ∨ (∀ key, env.Holds key) ∨ ∀ key, ¬ env.Holds key) :
    StoredFrom (issued ++ [resp]) (save env nvs resp) := by
  have hmem : resp ∈ issued ++ [resp] := List.mem_append_right _ (List.mem_singleton_self _)
  rcases hwhole with rfl | hall | hnone
  · right
    refine ⟨resp, hmem, ?_⟩
    rw [save_eq]
    exact partOf_replace_empty resp _
  · rw [save_of_holds hall]
    exact .inr ⟨resp, hmem, partOf_ofIdentity resp⟩
  · rw [save_of_not_holds hnone]
    exact h.append _

/-- **The invariant of a device's life.** -/
structure LifeInv (s : Life) (h : LifeLog) : Prop where
  stored : StoredFrom h.issued s.nvs
  used : ∀ i ∈ h.used, i ∈ h.issued

theorem LifeInv.stored_start {s : Life} {h : LifeLog} {st : Start} (hinv : LifeInv s h)
    (hwhole : WholeSave build (s, h) (.start st)) :
    StoredFrom (h.issued ++ (st.issued build s.nvs).toList)
      (initIdentity build st s.nvs).2.nvs := by
  have hstarted := initIdentity_started build st s.nvs
  generalize initIdentity build st s.nvs = after at hstarted
  cases hstarted with
  | loaded _ _ | refused _ _ _ => exact hinv.stored.append _
  | @enrolled resp i _ hissued _ =>
    have hsave : s.nvs = .empty ∨ (∀ key, st.write.Holds key) ∨ ∀ key, ¬ st.write.Holds key := by
      rcases hwhole with hno | hwhole
      · rw [hissued] at hno
        cases hno
      · exact hwhole
    rw [hissued]
    exact storedFrom_save hinv.stored resp hsave

/-- What a start goes on with is stored after it, and was stored before it or is issued to it. -/
theorem started_with {st : Start} {nvs : Nvs} {i : Identity}
    (h : (initIdentity build st nvs).1 = some .ok)
    (hi : (initIdentity build st nvs).2.identity = i) :
    load (initIdentity build st nvs).2.nvs = .ok i ∧
      (load nvs = .ok i ∨ st.issued build nvs = some i) := by
  have hstarted := initIdentity_started build st nvs
  generalize initIdentity build st nvs = after at hstarted h hi
  cases hstarted with
  | loaded hno hissued =>
    obtain rfl : (st.loaded nvs).2 = i := hi
    have hload := loaded_ok (Option.some.inj h)
    exact ⟨hload, .inl hload⟩
  | refused _ hret _ => exact absurd (Option.some.inj h) hret
  | @enrolled resp j _ hissued hj =>
    obtain rfl : j = i := hi
    rw [hj h]
    refine ⟨?_, .inr hissued⟩
    rw [save_of_holds (holds_of_saveRet h)]
    rfl

/-- The state that a start leads to. -/
theorem running_start {s s' : Life} {st : Start} {i : Identity}
    (hst : s.step build (.start st) = some s') (hi : s'.running = some i) :
    (initIdentity build st s.nvs).1 = some .ok ∧
      (initIdentity build st s.nvs).2.identity = i := by
  obtain rfl := Option.some.inj hst
  rw [Life.running] at hi
  obtain ⟨c, hc, hsome⟩ := Option.bind_eq_some_iff.mp hi
  obtain ⟨ret, hret, rfl⟩ := Option.map_eq_some_iff.mp hc
  split_ifs at hsome with hok
  rw [← show ret = .ok from hok]
  exact ⟨hret, Option.some.inj hsome⟩

/-- Erasing leaves a part of what was stored. -/
theorem eraseInto_nvs (env : EraseEnv) (s : Store) :
    (eraseInto env s).2.nvs = s.nvs ∨ ∃ keys, (eraseInto env s).2.nvs = s.nvs.without keys := by
  rw [eraseInto]
  split_ifs
  · exact .inl rfl
  · exact .inl rfl
  · exact .inl rfl
  · exact .inr ⟨fun key => decide (env.commit = .done) || env.gone key, rfl⟩

theorem StoredFrom.without {issued : List Identity} {nvs : Nvs} (h : StoredFrom issued nvs)
    (keys : NvsKey → Bool) : StoredFrom issued (nvs.without keys) := by
  obtain rfl | ⟨i, hi, hpart⟩ := h
  · exact .inl (Nvs.without_empty keys)
  · exact .inr ⟨i, hi, hpart.without keys⟩

/-- **Step lemma**: any step of a life whose enrollments are not cut short. -/
theorem LifeInv.step {s s' : Life} {h : LifeLog} {a : LifeAct} (hinv : LifeInv s h)
    (hwhole : WholeSave build (s, h) a) (hst : s.step build a = some s') :
    LifeInv s' (LifeLog.update build s a s' h) := by
  cases a with
  | start st =>
    have hstored := hinv.stored_start hwhole
    refine ⟨?_, ?_⟩
    · obtain rfl := Option.some.inj hst
      exact hstored
    · intro i hi
      rcases List.mem_append.mp hi with hold | hnew
      · exact List.mem_append_left _ (hinv.used i hold)
      · obtain ⟨hok, hident⟩ := running_start hst (Option.mem_toList.mp hnew)
        exact hstored.mem (started_with hok hident).1
  | erase env =>
    refine ⟨?_, hinv.used⟩
    obtain rfl := Option.some.inj hst
    rcases eraseInto_nvs env ⟨(s.creds.map Prod.snd).getD .unset, s.nvs⟩ with heq | ⟨keys, heq⟩
    · show StoredFrom h.issued (eraseInto env _).2.nvs
      rw [heq]
      exact hinv.stored
    · show StoredFrom h.issued (eraseInto env _).2.nvs
      rw [heq]
      exact hinv.stored.without keys
  | powerOff =>
    obtain rfl := Option.some.inj hst
    exact ⟨hinv.stored, hinv.used⟩

/-- **Every identity that a device starts with was issued to it, as a whole.** In every life whose
enrollments are not cut short while they replace another identity, with resets, failures of NVS and
erasures anywhere, each identity that `init` goes on with, and each that the next `load` can
return, is one that the platform has issued to this device. -/
theorem identity_issued (build : Build) {p : Life × LifeLog}
    (h : (lifecycle build).ReachBy (WholeSave build) p) :
    (∀ i ∈ p.2.used, i ∈ p.2.issued) ∧ ∀ i, load p.1.nvs = .ok i → i ∈ p.2.issued := by
  have hinv : LifeInv p.1 p.2 := by
    refine h.invariant (I := fun p => LifeInv p.1 p.2) ⟨.inl rfl, by rintro i ⟨⟩⟩ ?_
    rintro ⟨s, h⟩ a ⟨s', h'⟩ - hI hg hst
    obtain rfl : h' = LifeLog.update build s a s' h := (Lts.withHist_step hst).2
    exact LifeInv.step hI hg (Lts.withHist_step hst).1
  exact ⟨hinv.used, fun i hload => hinv.stored.mem hload⟩

def buildSample : Build := ⟨infoSample, ascii "https://api"⟩

/-- A start with a pairing token, and one without it. -/
def tokenStart (reEnroll : Bool) (write : NvsEnv) : Start where
  cfg := ⟨none, some (ascii "tok"), none, reEnroll⟩
  read := ⟨none, fun _ => none⟩
  http := httpSample responseSample
  write := write

def plainStart (read : ReadEnv) : Start where
  cfg := ⟨none, none, none, false⟩
  read := read
  http := httpSample responseSample
  write := .allDone

/-- The first enrollment is cut short after the device id; the second one is not. -/
def lifeSample : List LifeAct :=
  [.start (tokenStart false ⟨.done, fun key => if key = .deviceId then .done else .reset, .reset,
      fun _ => false⟩),
    .start (tokenStart false .allDone), .powerOff, .start (plainStart ⟨some 1, fun _ => none⟩),
    .start (plainStart ⟨none, fun _ => none⟩)]

/-- The device starts twice with the identity it was issued. -/
theorem identity_issued_sample :
    ∃ p : Life × LifeLog, (lifecycle buildSample).ReachBy (WholeSave buildSample) p ∧
      p.2.used.length = 2 ∧ ∀ i ∈ p.2.used, i ∈ p.2.issued := by
  have hrun : ((lifecycle buildSample).runBy (WholeSave buildSample) (lifecycle buildSample).init
      lifeSample).map (fun p => decide (p.2.used.length = 2)) = some true := by
    decide +kernel
  obtain ⟨p, hp, hcheck⟩ := Lts.exists_reachBy_of_runBy hrun
  exact ⟨p, hp, of_decide_eq_true hcheck, (identity_issued buildSample hp).1⟩

/-! ## What changes an identity -/

theorem getStr_ne_notFound {content : NvsContent} {key : NvsKey} (n : Nat)
    (h : content.value key ≠ .error .notFound) : content.getStr key n ≠ .error .notFound := by
  rw [NvsContent.getStr]
  cases hvalue : content.value key with
  | error err =>
    intro herr
    cases herr
    exact h hvalue
  | ok s =>
    dsimp only
    split_ifs <;> rintro ⟨⟩

theorem stored_ne_notFound {content : NvsContent}
    (h : ∀ key, content.value key ≠ .error .notFound) : content.stored ≠ .error .notFound := by
  have hid := getStr_ne_notFound 16 (h .deviceId)
  have hpassword := getStr_ne_notFound 48 (h .password)
  have hurl := getStr_ne_notFound 160 (h .mqttUrl)
  rw [NvsContent.stored]
  intro herr
  cases hd : content.getStr .deviceId 16 with
  | error err =>
    rw [hd] at herr
    cases herr
    exact hid hd
  | ok deviceId =>
    cases hp : content.getStr .password 48 with
    | error err =>
      rw [hd, hp] at herr
      cases herr
      exact hpassword hp
    | ok password =>
      cases hu : content.getStr .mqttUrl 160 with
      | error err =>
        rw [hd, hp, hu] at herr
        cases herr
        exact hurl hu
      | ok mqttUrl =>
        rw [hd, hp, hu] at herr
        cases herr

theorem espErr_ne_notFound {err : NvsErr} (h : err ≠ .notFound) : err.espErr ≠ .notFound := by
  cases err with
  | notFound => exact absurd rfl h
  | invalidLength | other code => rintro ⟨⟩

/-- What is there is not reported as missing. -/
theorem readBy_ne_notFound {nvs : Nvs} {i : Identity} (h : load nvs = .ok i) (env : ReadEnv)
    (key : NvsKey) : (nvs.readBy env).value key ≠ .error .notFound := by
  have hvalue := value?_of_load h key
  unfold Nvs.readBy
  dsimp only
  cases env.getStr key with
  | some code => rintro ⟨⟩
  | none =>
    obtain ⟨deviceId, password, mqttUrl⟩ := nvs
    cases key with
    | deviceId =>
      cases deviceId with
      | none => cases hvalue
      | some s => rintro ⟨⟩
    | password =>
      cases password with
      | none => cases hvalue
      | some s => rintro ⟨⟩
    | mqttUrl =>
      cases mqttUrl with
      | none => cases hvalue
      | some s => rintro ⟨⟩

/-- A failure to read NVS is not taken for a missing identity. -/
theorem loaded_ne_notFound {st : Start} {nvs : Nvs} {i : Identity} (h : load nvs = .ok i) :
    (st.loaded nvs).1 ≠ .notFound := by
  have hstored := stored_ne_notFound (readBy_ne_notFound h st.read)
  rw [Start.loaded, loadInto]
  cases hopen : (nvs.readBy st.read).unopened with
  | some err =>
    obtain ⟨code, -, rfl⟩ := Option.map_eq_some_iff.mp hopen
    rintro ⟨⟩
  | none =>
    dsimp only
    cases hread : (nvs.readBy st.read).stored with
    | ok stored => rintro ⟨⟩
    | error err =>
      refine espErr_ne_notFound fun herr => hstored ?_
      rw [hread, herr]

/-- The device is neither told to enroll again nor to erase its identity. -/
def LifeAct.Keeps : LifeAct → Prop
  | .start st => st.cfg.reEnroll = false
  | .erase _ => False
  | .powerOff => True

/-- A start without `re_enroll` on a stored identity. -/
theorem start_keeps (build : Build) {st : Start} {nvs : Nvs} {i : Identity}
    (hload : load nvs = .ok i) (hkeeps : st.cfg.reEnroll = false) :
    st.issued build nvs = none ∧ (initIdentity build st nvs).2.nvs = nvs := by
  have hno : ¬ st.cfg.Enrolls (st.loaded nvs).1 := by
    rintro ⟨hret | hre, -⟩
    · exact loaded_ne_notFound hload hret
    · rw [hkeeps] at hre
      cases hre
  constructor
  · exact if_neg hno
  · rw [initIdentity]
    rw [if_neg hno]

theorem keeps_step {p p' : Life × LifeLog} {a : LifeAct} {i : Identity}
    (hload : load p.1.nvs = .ok i) (hkeeps : a.Keeps)
    (hst : (lifecycle build).step p a = some p') :
    p'.1.nvs = p.1.nvs ∧ p'.2.issued = p.2.issued ∧
      ∃ n, p'.2.used = p.2.used ++ List.replicate n i := by
  obtain ⟨s, h⟩ := p
  obtain ⟨s', h'⟩ := p'
  have hstep : s.step build a = some s' := (Lts.withHist_step hst).1
  obtain rfl : h' = LifeLog.update build s a s' h := (Lts.withHist_step hst).2
  cases a with
  | start st =>
    obtain ⟨hissued, hnvs⟩ := start_keeps build hload hkeeps
    refine ⟨?_, ?_, ?_⟩
    · obtain rfl := Option.some.inj hstep
      exact hnvs
    · show h.issued ++ (st.issued build s.nvs).toList = h.issued
      rw [hissued]
      exact List.append_nil _
    · show ∃ n, h.used ++ s'.running.toList = _
      cases hrun : s'.running with
      | none => exact ⟨0, rfl⟩
      | some j =>
        obtain ⟨hok, hident⟩ := running_start hstep hrun
        have hj := (started_with hok hident).1
        rw [hnvs, hload] at hj
        cases hj
        exact ⟨1, rfl⟩
  | erase env => exact hkeeps.elim
  | powerOff =>
    obtain rfl := Option.some.inj hstep
    exact ⟨rfl, rfl, 0, (List.append_nil _).symm⟩

theorem keeps_run {i : Identity} : ∀ {p p' : Life × LifeLog} {as : List LifeAct},
    load p.1.nvs = .ok i → (∀ a ∈ as, a.Keeps) → (lifecycle build).runFrom p as = some p' →
    p'.1.nvs = p.1.nvs ∧ p'.2.issued = p.2.issued ∧
      ∃ n, p'.2.used = p.2.used ++ List.replicate n i
  | p, p', [], _, _, hrun => by
    obtain rfl := Option.some.inj hrun
    exact ⟨rfl, rfl, 0, (List.append_nil _).symm⟩
  | p, p', a :: as, hload, hkeeps, hrun => by
    obtain ⟨q, hst, hrest⟩ := Option.bind_eq_some_iff.mp hrun
    obtain ⟨hnvs, hissued, n, hused⟩ := keeps_step hload (hkeeps a List.mem_cons_self) hst
    obtain ⟨hnvs', hissued', m, hused'⟩ := keeps_run (p := q) (hnvs ▸ hload)
      (fun b hb => hkeeps b (List.mem_cons_of_mem _ hb)) hrest
    refine ⟨hnvs'.trans hnvs, hissued'.trans hissued, n + m, ?_⟩
    rw [hused', hused, List.append_assoc, List.replicate_append_replicate]

/-- The identity in use is the stored one, or has been erased. -/
def Life.Agrees (s : Life) : Prop :=
  ∀ i, s.running = some i → i = .unset ∨ load s.nvs = .ok i

/-- `erase` forgets the identity in use once NVS is open. -/
theorem eraseInto_identity (env : EraseEnv) (s : Store) :
    (eraseInto env s).2 = s ∨ (eraseInto env s).2.identity = .unset := by
  rw [eraseInto]
  split_ifs
  · exact .inl rfl
  · exact .inl rfl
  · exact .inr rfl
  · exact .inr rfl

theorem Life.Agrees.step {s s' : Life} {a : LifeAct} (hinv : s.Agrees)
    (hst : s.step build a = some s') : s'.Agrees := by
  intro i hi
  cases a with
  | start st =>
    obtain ⟨hok, hident⟩ := running_start hst hi
    have hload := (started_with hok hident).1
    obtain rfl := Option.some.inj hst
    exact .inr hload
  | erase env =>
    obtain rfl := Option.some.inj hst
    obtain ⟨c, hc, hsome⟩ := Option.bind_eq_some_iff.mp hi
    obtain ⟨ret, hret, hcreds⟩ := Option.bind_eq_some_iff.mp hc
    obtain ⟨c', hc', rfl⟩ := Option.map_eq_some_iff.mp hcreds
    split_ifs at hsome with hok
    have hident := Option.some.inj hsome
    rcases eraseInto_identity env ⟨(s.creds.map Prod.snd).getD .unset, s.nvs⟩ with heq | hunset
    · -- NVS could not be opened: nothing has changed.
      have hsame : s.running = some i := by
        rw [Life.running, hc']
        rw [← hident, heq, hc']
        exact if_pos hok
      show _ ∨ load (eraseInto env _).2.nvs = .ok i
      rw [heq]
      exact hinv i hsame
    · exact .inl (hident.symm.trans hunset)
  | powerOff =>
    obtain rfl := Option.some.inj hst
    cases hi

/-- **An enrolled device keeps its identity.** In any life, what a start goes on with is what the
next `load` returns, until it is erased. And once an identity is stored, no sequence of starts,
resets, failed reads of NVS and offered pairing tokens changes it, asks the platform for another
one, or lets the device start with another one, unless the device is told to enroll again or to
erase it. -/
theorem identity_kept (build : Build) {p : Life × LifeLog} (h : (lifecycle build).Reach p) :
    p.1.Agrees ∧ ∀ i, load p.1.nvs = .ok i → ∀ as p', (∀ a ∈ as, LifeAct.Keeps a) →
      (lifecycle build).runFrom p as = some p' →
      p'.1.nvs = p.1.nvs ∧ p'.2.issued = p.2.issued ∧
        ∃ n, p'.2.used = p.2.used ++ List.replicate n i := by
  constructor
  · refine h.invariant (I := fun p => p.1.Agrees) (by rintro i ⟨⟩) ?_
    rintro ⟨s, h⟩ a ⟨s', h'⟩ - hI - hst
    exact Life.Agrees.step hI (Lts.withHist_step hst).1
  · intro i hload as p' hkeeps hrun
    exact keeps_run hload hkeeps hrun

/-- A device that has enrolled, and its next start with another token. -/
theorem identity_kept_sample :
    ∃ p : Life × LifeLog, (lifecycle buildSample).Reach p ∧ load p.1.nvs = .ok identitySample ∧
      p.1.Agrees ∧ ∀ p', (lifecycle buildSample).runFrom p
        [.powerOff, .start (tokenStart false .allDone)] = some p' → p'.1.nvs = p.1.nvs := by
  have hrun : ((lifecycle buildSample).run lifeSample).map
      (fun p => decide (p.1.nvs = .ofIdentity identitySample)) = some true := by
    decide +kernel
  obtain ⟨p, hp, hcheck⟩ := Lts.exists_reach_of_run hrun
  have hnvs : p.1.nvs = .ofIdentity identitySample := of_decide_eq_true hcheck
  have hload : load p.1.nvs = .ok identitySample := by
    rw [hnvs]
    rfl
  obtain ⟨hagrees, hkept⟩ := identity_kept buildSample hp
  refine ⟨p, hp, hload, hagrees, fun p' hrun' => ?_⟩
  refine (hkept identitySample hload _ p' ?_ hrun').1
  intro a ha
  rcases List.mem_cons.mp ha with rfl | ha
  · trivial
  · rw [List.mem_singleton.mp ha]
    rfl

end Credentials

end SoulCloud
