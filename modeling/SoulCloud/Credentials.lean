import SoulCloud.Config

/-!
# The stored identity (`sc_credentials`)

An enrollment replaces the device id, the password and the broker URL in NVS one after
the other; the next start reads the three back. What NVS does is an environment: every
call is done, fails without effect, or is never reached because the device resets before
it, and a key replaced without a commit may or may not be there afterwards.

- `Nvs`: the three keys of namespace "soulcloud", each in the size it is stored with.
- `save`, `load`, `enroll`: the code, up to what it leaves in NVS.
- `NvsEnv.Holds`: the keys that hold the new identity's value in the end, by what NVS did.
- `load_whole_iff`: when the next `load` cannot return a mixture of two enrollments.
-/

namespace SoulCloud

namespace Credentials

open Bytes

/-- `sc_enroll_response`, the identity. -/
structure Identity where
  deviceId : CStr 16
  password : CStr 48
  mqttUrl : CStr 160
  deriving DecidableEq

/-- The keys of namespace "soulcloud". -/
inductive NvsKey where
  | deviceId
  | password
  | mqttUrl
  deriving DecidableEq, Repr

/-- What the namespace holds. -/
structure Nvs where
  deviceId : Option (CStr 16)
  password : Option (CStr 48)
  mqttUrl : Option (CStr 160)
  deriving DecidableEq

namespace Nvs

def empty : Nvs := ⟨none, none, none⟩

/-- A complete identity. -/
def ofIdentity (i : Identity) : Nvs := ⟨some i.deviceId, some i.password, some i.mqttUrl⟩

/-- The namespace `nvs` with the keys in `keys` taken from `i`. -/
def replace (nvs : Nvs) (i : Identity) (keys : NvsKey → Bool) : Nvs where
  deviceId := if keys .deviceId then some i.deviceId else nvs.deviceId
  password := if keys .password then some i.password else nvs.password
  mqttUrl := if keys .mqttUrl then some i.mqttUrl else nvs.mqttUrl

end Nvs

/-- The value of an identity for a key. -/
def Identity.value (i : Identity) : NvsKey → Bytes
  | .deviceId => i.deviceId.bytes
  | .password => i.password.bytes
  | .mqttUrl => i.mqttUrl.bytes

/-! ## Reading -/

/-- `nvs_get_str`. `ESP_ERR_NVS_NOT_FOUND` is its only error here: what is stored under a
key has the size of the array it is read into. -/
def nvsGetStr {n : Nat} (stored : Option (CStr n)) : Except EspErr (CStr n) :=
  match stored with
  | some value => .ok value
  | none => .error .notFound

/-- `sc_credentials::load` on a readable namespace; one that was never created counts as
empty. The first key that is missing decides. -/
def load (nvs : Nvs) : Except EspErr Identity := do
  let deviceId ← nvsGetStr nvs.deviceId
  let password ← nvsGetStr nvs.password
  let mqttUrl ← nvsGetStr nvs.mqttUrl
  return ⟨deviceId, password, mqttUrl⟩

/-! ## Writing -/

/-- What becomes of one NVS call. -/
inductive NvsOutcome where
  | done
  /-- The call fails and changes nothing. -/
  | failed (code : Nat)
  /-- The device resets before the call. -/
  | reset
  deriving DecidableEq, Repr

/-- What NVS does during one `save`. -/
structure NvsEnv where
  nvsOpen : NvsOutcome
  setStr : NvsKey → NvsOutcome
  commit : NvsOutcome
  /-- Whether a replaced key survives without a commit. -/
  survives : NvsKey → Bool

/-- How far `save` is. -/
structure SaveRun where
  /-- The outcome so far: a call that is not `done` ends the save. -/
  ret : NvsOutcome
  replaced : NvsKey → Bool
  committed : Bool

namespace SaveRun

/-- `ret = ret ?: nvs_set_str(nvs, key, …)`. -/
def setStr (run : SaveRun) (env : NvsEnv) (key : NvsKey) : SaveRun :=
  if run.ret = .done then
    { run with
      ret := env.setStr key
      replaced := fun k => run.replaced k || (decide (k = key) && decide (env.setStr key = .done)) }
  else run

/-- `ret = ret ?: nvs_commit(nvs)`. -/
def commit (run : SaveRun) (env : NvsEnv) : SaveRun :=
  if run.ret = .done then
    { run with ret := env.commit, committed := decide (env.commit = .done) }
  else run

end SaveRun

/-- `sc_credentials::save`, up to its last call. -/
def saveRun (env : NvsEnv) : SaveRun :=
  let run : SaveRun := ⟨env.nvsOpen, fun _ => false, false⟩
  (((run.setStr env .deviceId).setStr env .password).setStr env .mqttUrl).commit env

/-- What `save` leaves in NVS. -/
def save (env : NvsEnv) (nvs : Nvs) (resp : Identity) : Nvs :=
  let run := saveRun env
  nvs.replace resp fun key => run.replaced key && (run.committed || env.survives key)

/-- What `sc_credentials::enroll` leaves in NVS, where `resp` is the decoded response of the
platform or the error that ended the exchange: nothing is written before the response is
complete. -/
def enroll (env : NvsEnv) (nvs : Nvs) (resp : Except EspErr Identity) : Nvs :=
  match resp with
  | .error _ => nvs
  | .ok resp => save env nvs resp

/-! ## What survives -/

namespace NvsEnv

/-- Every call of `save` up to and including the one that sets `key` is done. -/
def Sets (env : NvsEnv) : NvsKey → Prop
  | .deviceId => env.nvsOpen = .done ∧ env.setStr .deviceId = .done
  | .password => (env.nvsOpen = .done ∧ env.setStr .deviceId = .done) ∧
      env.setStr .password = .done
  | .mqttUrl => ((env.nvsOpen = .done ∧ env.setStr .deviceId = .done) ∧
      env.setStr .password = .done) ∧ env.setStr .mqttUrl = .done

/-- The keys that hold the new identity's value in the end. -/
def Holds (env : NvsEnv) (key : NvsKey) : Prop :=
  env.Sets key ∧ (env.Sets .mqttUrl ∧ env.commit = .done ∨ env.survives key = true)

end NvsEnv

/-- How far `save` comes, by the outcomes of its calls. -/
theorem saveRun_holds (env : NvsEnv) (key : NvsKey) :
    ((saveRun env).replaced key && ((saveRun env).committed || env.survives key)) = true ↔
      env.Holds key := by
  unfold NvsEnv.Holds
  -- Each call either goes on to the one after it or ends the save.
  by_cases ho : env.nvsOpen = .done
  · by_cases hd : env.setStr .deviceId = .done
    · by_cases hp : env.setStr .password = .done
      · by_cases hu : env.setStr .mqttUrl = .done
        · cases key <;>
            simp [saveRun, SaveRun.setStr, SaveRun.commit, NvsEnv.Sets, ho, hd, hp, hu]
        · cases key <;>
            simp [saveRun, SaveRun.setStr, SaveRun.commit, NvsEnv.Sets, ho, hd, hp, hu]
      · cases key <;> simp [saveRun, SaveRun.setStr, SaveRun.commit, NvsEnv.Sets, ho, hd, hp]
    · cases key <;> simp [saveRun, SaveRun.setStr, SaveRun.commit, NvsEnv.Sets, ho, hd]
  · cases key <;> simp [saveRun, SaveRun.setStr, SaveRun.commit, NvsEnv.Sets, ho]

/-- What is stored under a key. -/
def Nvs.value? (nvs : Nvs) : NvsKey → Option Bytes
  | .deviceId => nvs.deviceId.map CStr.bytes
  | .password => nvs.password.map CStr.bytes
  | .mqttUrl => nvs.mqttUrl.map CStr.bytes

theorem value?_replace (nvs : Nvs) (i : Identity) (keys : NvsKey → Bool) (key : NvsKey) :
    (nvs.replace i keys).value? key = if keys key then some (i.value key) else nvs.value? key := by
  cases key <;> exact apply_ite (Option.map CStr.bytes) _ _ _

theorem Identity.eq_of_value {i j : Identity} (h : ∀ key, i.value key = j.value key) : i = j := by
  obtain ⟨deviceId, password, mqttUrl⟩ := i
  obtain ⟨deviceId', password', mqttUrl'⟩ := j
  rw [Identity.mk.injEq]
  exact ⟨CStr.eq_iff.mpr (h .deviceId), CStr.eq_iff.mpr (h .password),
    CStr.eq_iff.mpr (h .mqttUrl)⟩

/-- What loads is what is stored. -/
theorem value?_of_load {nvs : Nvs} {i : Identity} (h : load nvs = .ok i) (key : NvsKey) :
    nvs.value? key = some (i.value key) := by
  obtain ⟨deviceId, password, mqttUrl⟩ := nvs
  cases deviceId with
  | none => cases h
  | some deviceId =>
    cases password with
    | none => cases h
    | some password =>
      cases mqttUrl with
      | none => cases h
      | some mqttUrl =>
        cases h
        cases key <;> rfl

theorem load_eq_notFound_iff {nvs : Nvs} :
    load nvs = .error .notFound ↔ ∃ key, nvs.value? key = none := by
  obtain ⟨deviceId, password, mqttUrl⟩ := nvs
  cases deviceId with
  | none => exact iff_of_true rfl ⟨.deviceId, rfl⟩
  | some deviceId =>
    cases password with
    | none => exact iff_of_true rfl ⟨.password, rfl⟩
    | some password =>
      cases mqttUrl with
      | none => exact iff_of_true rfl ⟨.mqttUrl, rfl⟩
      | some mqttUrl =>
        refine iff_of_false (by rintro ⟨⟩) ?_
        rintro ⟨key, hkey⟩
        cases key <;> cases hkey

/-- Either all keys are stored or one is missing. -/
theorem load_cases (nvs : Nvs) : (∃ i, load nvs = .ok i) ∨ load nvs = .error .notFound := by
  obtain ⟨deviceId, password, mqttUrl⟩ := nvs
  cases deviceId <;> cases password <;> cases mqttUrl <;>
    first | exact .inl ⟨_, rfl⟩ | exact .inr rfl

theorem load_eq_ok_iff {nvs : Nvs} {i : Identity} :
    load nvs = .ok i ↔ ∀ key, nvs.value? key = some (i.value key) := by
  constructor
  · exact fun h key => value?_of_load h key
  · intro h
    rcases load_cases nvs with ⟨j, hload⟩ | hnone
    · have heq : j = i := Identity.eq_of_value fun key =>
        Option.some.inj ((value?_of_load hload key).symm.trans (h key))
      rw [hload, heq]
    · obtain ⟨key, hkey⟩ := load_eq_notFound_iff.mp hnone
      rw [h key] at hkey
      cases hkey

/-- What is stored after `save`: the new identity's value under the keys that hold it, and under
the others what was there before. -/
theorem value?_save (env : NvsEnv) (nvs : Nvs) (new : Identity) (key : NvsKey) :
    (env.Holds key → (save env nvs new).value? key = some (new.value key)) ∧
      (¬ env.Holds key → (save env nvs new).value? key = nvs.value? key) := by
  rw [save]
  rw [value?_replace]
  constructor
  · intro hholds
    rw [if_pos ((saveRun_holds env key).mpr hholds)]
  · intro hnot
    rw [if_neg fun hkey => hnot ((saveRun_holds env key).mp hkey)]

/-- The property of one enrollment: the next `load` returns the identity that was stored
before, the new one, or `ESP_ERR_NOT_FOUND`. -/
def LoadsWhole (nvs : Nvs) (resp : Except EspErr Identity) (after : Nvs) : Prop :=
  (∃ i, load nvs = .ok i ∧ load after = .ok i) ∨ (∃ i, resp = .ok i ∧ load after = .ok i) ∨
    load after = .error .notFound

/-- What is as it was before loads as it did. -/
theorem loadsWhole_of_value {nvs after : Nvs} (h : ∀ key, after.value? key = nvs.value? key)
    (resp : Except EspErr Identity) : LoadsWhole nvs resp after := by
  rcases load_cases nvs with ⟨i, hload⟩ | hnone
  · refine .inl ⟨i, hload, load_eq_ok_iff.mpr fun key => ?_⟩
    rw [h]
    exact load_eq_ok_iff.mp hload key
  · obtain ⟨key, hkey⟩ := load_eq_notFound_iff.mp hnone
    exact .inr (.inr (load_eq_notFound_iff.mpr ⟨key, (h key).trans hkey⟩))

/-- **What survives decides.** After an enrollment over anything that NVS holds, stopped anywhere,
the next `load` returns a whole identity or none exactly if no response came, or a key that does
not hold the new value was never stored, or the keys that hold the new value held it before, or
the other keys held it before. -/
theorem load_whole_iff (env : NvsEnv) (nvs : Nvs) (resp : Except EspErr Identity) :
    LoadsWhole nvs resp (enroll env nvs resp) ↔
      ∀ new, resp = .ok new →
        (∃ key, ¬ env.Holds key ∧ nvs.value? key = none) ∨
          (∀ key, env.Holds key → nvs.value? key = some (new.value key)) ∨
            ∀ key, ¬ env.Holds key → nvs.value? key = some (new.value key) := by
  cases resp with
  | error err =>
    constructor
    · rintro - new ⟨⟩
    · intro _
      exact loadsWhole_of_value (fun _ => rfl) _
  | ok new =>
    have hafter := value?_save env nvs new
    rw [enroll]
    constructor
    · rintro hwhole new' ⟨⟩
      rcases hwhole with ⟨i, hold, hnew⟩ | ⟨i, hi, hnew⟩ | hnone
      · -- All of the old identity is still there.
        refine .inr (.inl fun key hholds => ?_)
        rw [load_eq_ok_iff.mp hold key, ← load_eq_ok_iff.mp hnew key]
        exact (hafter key).1 hholds
      · cases hi
        refine .inr (.inr fun key hnot => ?_)
        rw [← (hafter key).2 hnot]
        exact load_eq_ok_iff.mp hnew key
      · obtain ⟨key, hkey⟩ := load_eq_notFound_iff.mp hnone
        have hnot : ¬ env.Holds key := by
          intro hholds
          rw [(hafter key).1 hholds] at hkey
          cases hkey
        exact .inl ⟨key, hnot, ((hafter key).2 hnot).symm.trans hkey⟩
    · intro h
      rcases h new rfl with ⟨key, hnot, hkey⟩ | hheld | hothers
      · exact .inr (.inr (load_eq_notFound_iff.mpr ⟨key, ((hafter key).2 hnot).trans hkey⟩))
      · refine loadsWhole_of_value (fun key => ?_) _
        by_cases hholds : env.Holds key
        · rw [(hafter key).1 hholds, hheld key hholds]
        · exact (hafter key).2 hholds
      · refine .inr (.inl ⟨new, rfl, load_eq_ok_iff.mpr fun key => ?_⟩)
        by_cases hholds : env.Holds key
        · exact (hafter key).1 hholds
        · rw [(hafter key).2 hholds, hothers key hholds]

/-- Re-enrolling with a reset right after the device id was replaced: the new device id is
loaded with the old password. -/
theorem load_mixed :
    let old : Identity := ⟨⟨ascii "a1", by decide, by decide⟩, ⟨ascii "p1", by decide, by decide⟩,
      ⟨ascii "wss://h", by decide, by decide⟩⟩
    let new : Identity := ⟨⟨ascii "b2", by decide, by decide⟩, ⟨ascii "p2", by decide, by decide⟩,
      ⟨ascii "wss://h", by decide, by decide⟩⟩
    let env : NvsEnv :=
      ⟨.done, fun key => if key = .deviceId then .done else .reset, .reset, fun _ => true⟩
    load (enroll env (.ofIdentity old) (.ok new)) =
        .ok ⟨new.deviceId, old.password, old.mqttUrl⟩ ∧
      ¬ LoadsWhole (.ofIdentity old) (.ok new) (enroll env (.ofIdentity old) (.ok new)) := by
  intro old new env
  have hload : load (enroll env (.ofIdentity old) (.ok new)) =
      .ok ⟨new.deviceId, old.password, old.mqttUrl⟩ := by rfl
  refine ⟨hload, ?_⟩
  unfold LoadsWhole
  rw [hload]
  rintro (⟨i, hi, h⟩ | ⟨i, hi, h⟩ | h)
  · cases hi
    exact absurd (congrArg (·.deviceId.bytes) (Except.ok.inj h)) (by decide)
  · cases hi
    exact absurd (congrArg (·.password.bytes) (Except.ok.inj h)) (by decide)
  · cases h

end Credentials

end SoulCloud
