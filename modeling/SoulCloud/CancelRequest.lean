import SoulCloud.Builtins

/-!
# Which update a request cancels (`ota.cancel`)

The handler of `ota.cancel` compares what `get_str` has left in a buffer, whether it has
succeeded or not.

- `JsonReader.bufferAt`: what `str_at` leaves in a buffer of zeros.
- `otaCancel`: the handler.
- `Mistaken`: a request that leaves an id in the buffer without naming it.
- `cancel_iff`: only a request that names the running update cancels it, exactly when the
  request does not leave the id of that update in the buffer in another way.
-/

namespace SoulCloud

open Bytes Json

namespace JsonReader

variable (r : JsonReader)

/-- What `str_at` leaves in a `char[cap]` of zeros, before the first byte it has not written. -/
def bufferAt (tok : Option Nat) (cap : Nat) : Bytes :=
  match r.token? tok with
  | some t =>
    if t.type ≠ .string ∨ cap < 1 then [] else emitted (cap - 1) (r.slice t.start t.stop)
  | none => []

/-- When `str_at` succeeds this is what it has decoded. -/
theorem bufferAt_of_strAt {tok : Option Nat} {cap : Nat} {text : Bytes}
    (h : r.strAt tok cap = some text) : r.bufferAt tok cap = text := by
  rw [strAt] at h
  rw [bufferAt]
  cases htok : r.token? tok with
  | none =>
    rw [htok] at h
    cases h
  | some t =>
    rw [htok] at h
    dsimp only at h ⊢
    split_ifs at h ⊢
    obtain ⟨hspells, hle⟩ := spells_of_unescape h
    rw [emitted_of_spells hspells, List.take_of_length_le hle]

/-- The id that the handler of `ota.cancel` compares. -/
def cancelId : Bytes := cstr (r.bufferAt (r.find (some 0) (ascii "taskId")) 40)

/-- The request leaves the id in the buffer without naming it. -/
inductive Mistaken (id : Bytes) : Prop
  /-- There is no string member `taskId`, and the buffer stays empty. -/
  | missing (hnone : r.stringMember (ascii "taskId") = none) (hempty : id = [])
  /-- The value goes on behind the id, with a NUL or where the buffer ends. -/
  | longer {value : Bytes} (hvalue : r.HasString (ascii "taskId") value) (hbegins : id <+: value)
      (hlonger : value.length ≠ id.length) (hends : value[id.length]? = some 0 ∨ id.length = 39)

variable {r}

theorem Mistaken.not_hasString {id : Bytes} (h : r.Mistaken id) :
    ¬ r.HasString (ascii "taskId") id := by
  intro hnames
  cases h with
  | missing hnone hempty =>
    obtain ⟨t, ht, -⟩ := hnames
    cases hnone.symm.trans ht
  | longer hvalue hbegins hlonger hends =>
    exact hlonger (congrArg List.length (hvalue.unique hnames))

theorem cancelId_of_none (h : r.stringMember (ascii "taskId") = none) : r.cancelId = [] := by
  rw [stringMember, Option.filter_eq_none_iff] at h
  rw [cancelId, bufferAt]
  cases ht : r.token? (r.find (some 0) (ascii "taskId")) with
  | none => rfl
  | some t =>
    have htype : t.type ≠ .string := by simpa using h t ht
    dsimp only
    rw [if_pos (.inl htype)]
    rfl

theorem cancelId_of_hasString {value : Bytes} (h : r.HasString (ascii "taskId") value) :
    r.cancelId = cstr (value.take 39) := by
  obtain ⟨t, ht, hspells⟩ := h
  obtain ⟨htok, htype⟩ := Option.filter_eq_some_iff.mp ht
  rw [cancelId, bufferAt, htok]
  dsimp only
  rw [if_neg (by rw [beq_iff_eq.mp htype]; decide), emitted_of_spells hspells]

/-- **What is compared.** The buffer of an accepted request holds the id iff the request names
it or is mistaken for one that does. -/
theorem cancelId_eq_iff {json id : Bytes} (hok : (r.parse json).1 = .ok) (hno : 0 ∉ id)
    (hlen : id.length ≤ 39) :
    (r.parse json).2.cancelId = id ↔
      (r.parse json).2.HasString (ascii "taskId") id ∨ (r.parse json).2.Mistaken id := by
  cases htok : (r.parse json).2.stringMember (ascii "taskId") with
  | none =>
    rw [cancelId_of_none htok]
    constructor
    · rintro rfl
      exact .inr (.missing htok rfl)
    · rintro (⟨t, ht, -⟩ | hmistaken)
      · cases htok.symm.trans ht
      · cases hmistaken with
        | missing hnone hempty => exact hempty.symm
        | longer hvalue hbegins hlonger hends =>
          obtain ⟨t, ht, -⟩ := hvalue
          cases htok.symm.trans ht
  | some t =>
    obtain ⟨value, hvalue⟩ := hasString_of_member hok htok
    rw [cancelId_of_hasString hvalue, cstr_take_eq_iff hno hlen]
    constructor
    · rintro ⟨hbegins, hends⟩
      by_cases hsame : value.length = id.length
      · obtain rfl : id = value := hbegins.eq_of_length hsame.symm
        exact .inl hvalue
      · exact .inr (.longer hvalue hbegins hsame (hends.resolve_left hsame))
    · rintro (hnames | hmistaken)
      · obtain rfl := hvalue.unique hnames
        exact ⟨List.prefix_refl _, .inl rfl⟩
      · cases hmistaken with
        | missing hnone hempty => cases hnone.symm.trans htok
        | longer hvalue' hbegins hlonger hends =>
          obtain rfl := hvalue.unique hvalue'
          exact ⟨hbegins, .inr hends⟩

end JsonReader

/-! ## The handler -/

/-- `sc_ota::cancel` as a whole. The request task alone starts updates, so what it compares
does not change before it stores `cancel_requested`. -/
def Ota.cancelNow (s : Ota) (taskId : Bytes) : EspErr × Ota :=
  if ¬ s.running ∨ taskId ≠ s.params.taskId.bytes then (.notFound, s)
  else (.ok, { s.call .cancelAccepted with cancelRequested := true })

/-- It is the two steps of `cancel` in the interleaving with the update task. -/
theorem Ota.cancelNow_steps (port : OtaPort) {s : Ota} (hcan : s.cancelling = false)
    (hpc : s.pc ≠ .restarted) (taskId : Bytes) :
    (s.step port (.cancel taskId)).bind
        (fun s' => if s'.cancelling then s'.step port .cancelStore else some s') =
      some (s.cancelNow taskId).2 := by
  obtain ⟨params, running, requested, percent, time, pc, cancelling, written, hash, calls⟩ := s
  obtain rfl : cancelling = false := hcan
  cases pc with
  | restarted => exact absurd rfl hpc
  | _ =>
    show (some (cancel _ taskId)).bind _ = _
    rw [Option.bind_some, cancel, cancelNow]
    dsimp only
    by_cases hrefused : ¬ running ∨ taskId ≠ params.taskId.bytes
    · rw [if_pos hrefused, if_pos hrefused]
      rfl
    · rw [if_neg hrefused, if_neg hrefused]
      rfl

/-- The handler of `ota.cancel`. -/
def otaCancel : Handler BuiltinState := fun _ params s =>
  match s.ota.cancelNow params.cancelId with
  | (.ok, ota) => (⟨[], [], .ok⟩, { s with ota })
  | (_, ota) => (⟨[], [ascii "no such update running"], .notFound⟩, { s with ota })

theorem otaCancel_explained (method : Bytes) (params : JsonReader) (s : BuiltinState) :
    Explained (otaCancel method params s).1 := by
  rw [otaCancel, Ota.cancelNow]
  split_ifs
  · exact .refused nofun (by decide)
  · exact .done

theorem otaCancel_ok {method : Bytes} {params : JsonReader} {s : BuiltinState} :
    (otaCancel method params s).1.ret = .ok ↔
      s.ota.running = true ∧ params.cancelId = s.ota.params.taskId.bytes := by
  rw [otaCancel, Ota.cancelNow]
  cases s.ota.running with
  | false => exact ⟨nofun, nofun⟩
  | true =>
    by_cases hid : params.cancelId = s.ota.params.taskId.bytes
    · rw [if_neg (by simp [hid])]
      exact ⟨fun _ => ⟨rfl, hid⟩, fun _ => rfl⟩
    · rw [if_pos (.inr hid)]
      exact ⟨nofun, fun h => absurd h.2 hid⟩

/-- A refused request leaves the updater as it is. -/
theorem otaCancel_state {method : Bytes} {params : JsonReader} {s : BuiltinState}
    (h : (otaCancel method params s).1.ret ≠ .ok) : (otaCancel method params s).2 = s := by
  rw [otaCancel, Ota.cancelNow] at h ⊢
  split_ifs at h ⊢
  · rfl
  · exact absurd rfl h

/-! ## The request -/

section Request

variable {payloadMax resultMax : Nat} {errName : EspErr → Bytes}
  {methods : MethodTable BuiltinState} {slot : Slot payloadMax} {respBuf : Buf resultMax}
  {s : BuiltinState}

/-- The request is answered `ok:true`, or the update has been asked to stop. -/
def Cancelled (before : Ota) (answer : Bytes × BuiltinState) : Prop :=
  AnsweredOk answer.1 ∨ before.cancelRequested = false ∧ answer.2.ota.cancelRequested = true

/-- What is cancelled is the running update, if the buffer holds its id. -/
theorem cancelled_iff (hmax : 256 ≤ resultMax)
    (hfind : findMethod methods slot.method.cstr = some otaCancel) (hrun : s.ota.running = true) :
    Cancelled s.ota (handle errName methods slot respBuf s) ↔
      slot.Decodable ∧ slot.params.2.cancelId = s.ota.params.taskId.bytes := by
  obtain ⟨hanswer, -⟩ : (AnsweredOk (handle errName methods slot respBuf s).1 ↔ _) ∧ _ :=
    handle_explained hmax hfind (otaCancel_explained _ _ s)
  have hret : (runHandler otaCancel slot s).1.ret = .ok ↔
      slot.params.2.cancelId = s.ota.params.taskId.bytes :=
    otaCancel_ok.trans (and_iff_right hrun)
  rw [hret] at hanswer
  constructor
  · rintro (hok | ⟨hbefore, hafter⟩)
    · obtain ⟨hsmall, hparse, hid⟩ := hanswer.mp hok
      exact ⟨⟨hsmall, hparse⟩, hid⟩
    · by_cases hruns : slot.Decodable
      · refine ⟨hruns, hret.mp ?_⟩
        by_contra hrefused
        rw [handle_state_of_runs hfind hruns.1 hruns.2] at hafter
        rw [show (runHandler otaCancel slot s).2 = s from otaCancel_state hrefused, hbefore]
          at hafter
        cases hafter
      · rw [handle_state_of_not_decodable hfind hruns, hbefore] at hafter
        cases hafter
  · rintro ⟨hruns, hid⟩
    exact .inl (hanswer.mpr ⟨hruns.1, hruns.2, hid⟩)

/-- **`ota.cancel`.** While an update is running, only a request with a string member `taskId`
that stands for the id of that update is answered `ok:true` or stops it, if and only if it is
not the case that the request has no such member and the id is empty, or a member that begins
with the id and goes on with a NUL or behind the 39 bytes that are compared. -/
theorem cancel_iff (hmax : 256 ≤ resultMax)
    (hfind : findMethod methods slot.method.cstr = some otaCancel) (hrun : s.ota.running = true) :
    (Cancelled s.ota (handle errName methods slot respBuf s) →
        slot.params.2.HasString (ascii "taskId") s.ota.params.taskId.bytes) ↔
      ¬ (slot.Decodable ∧ slot.params.2.Mistaken s.ota.params.taskId.bytes) := by
  have hcancelled : Cancelled s.ota (handle errName methods slot respBuf s) ↔ _ :=
    cancelled_iff hmax hfind hrun
  have hlen : s.ota.params.taskId.bytes.length ≤ 39 :=
    Nat.le_of_lt_succ s.ota.params.taskId.length_lt
  have hid (hruns : slot.Decodable) :=
    JsonReader.cancelId_eq_iff (r := .new 32) hruns.2 s.ota.params.taskId.nul hlen
  rw [hcancelled]
  constructor
  · rintro hall ⟨hruns, hmistaken⟩
    exact hmistaken.not_hasString (hall ⟨hruns, (hid hruns).mpr (.inr hmistaken)⟩)
  · rintro hno ⟨hruns, hcancel⟩
    exact ((hid hruns).mp hcancel).resolve_right fun hmistaken => hno ⟨hruns, hmistaken⟩

end Request

/-- The method table of the samples. -/
def cancelMethods : MethodTable BuiltinState := [some (ascii "ota.cancel", otaCancel)]

/-- A request to cancel an update. -/
def cancelRequestSample (taskId : Bytes) (h : taskId.length ≤ 40 := by decide) : Slot 256 :=
  requestSample (ascii "ota.cancel") (ascii "\x7b\"taskId\":\"" ++ taskId ++ ascii "\"\x7d") (by
    rw [List.length_append, List.length_append]
    have hopen : (ascii "\x7b\"taskId\":\"").length = 11 := by decide
    have hclose : (ascii "\"\x7d").length = 2 := by decide
    omega)

/-- A running update. -/
def BuiltinState.updating (taskId : CStr 40) : BuiltinState :=
  { BuiltinState.sample with
    ota := { Ota.init with running := true, params := { OtaParams.empty with taskId } } }

theorem find_cancelRequest (taskId : Bytes) (h : taskId.length ≤ 40) :
    findMethod cancelMethods (cancelRequestSample taskId h).method.cstr = some otaCancel := by
  have hname : (cancelRequestSample taskId h).method.cstr = ascii "ota.cancel" := by
    show (slotSample (ascii "ota.cancel")).method.cstr = _
    decide
  rw [hname]
  rfl

/-- The update is cancelled by its name. -/
theorem cancel_sample :
    let answer := handle errNameSample cancelMethods (cancelRequestSample (ascii "t1"))
      (.zero 256) (.updating ⟨ascii "t1", by decide, by decide⟩)
    Cancelled (BuiltinState.updating ⟨ascii "t1", by decide, by decide⟩).ota answer ∧
      (cancelRequestSample (ascii "t1")).params.2.HasString (ascii "taskId") (ascii "t1") := by
  have hfind := find_cancelRequest (ascii "t1") (by decide)
  have hcancelled : Cancelled _ (handle errNameSample cancelMethods
      (cancelRequestSample (ascii "t1")) (.zero 256)
      (.updating ⟨ascii "t1", by decide, by decide⟩)) :=
    (cancelled_iff (by decide) hfind rfl).mpr ⟨by decide +kernel, by decide +kernel⟩
  have hnames : (cancelRequestSample (ascii "t1")).params.2.HasString (ascii "taskId")
      (ascii "t1") :=
    ⟨⟨.string, 11, 13, 0⟩, by decide +kernel,
      ((@JsonReader.unescape_eq_some_iff 39 _ _).mp (by decide +kernel)).1⟩
  exact ⟨hcancelled, (cancel_iff (by decide) hfind rfl).mpr
    (fun hmistaken => hmistaken.2.not_hasString hnames) hcancelled⟩

/-- An id of 39 bytes is taken for one of 40 bytes that begins with it. -/
theorem cancel_mistaken :
    ¬ ∀ (slot : Slot 256) (s : BuiltinState),
      findMethod cancelMethods slot.method.cstr = some otaCancel → s.ota.running = true →
      Cancelled s.ota (handle errNameSample cancelMethods slot (.zero 256) s) →
      slot.params.2.HasString (ascii "taskId") s.ota.params.taskId.bytes := by
  intro hall
  have hfind := find_cancelRequest (List.replicate 40 97) (by decide)
  obtain ⟨t, ht, hspells⟩ := hall (cancelRequestSample (List.replicate 40 97))
    (.updating ⟨List.replicate 39 97, by decide, by decide⟩) hfind rfl
    ((cancelled_iff (by decide) hfind rfl).mpr ⟨by decide +kernel, by decide +kernel⟩)
  have htok : (cancelRequestSample (List.replicate 40 97)).params.2.stringMember (ascii "taskId") =
      some ⟨.string, 11, 51, 0⟩ := by
    decide +kernel
  obtain rfl : JsmnToken.mk .string 11 51 0 = t := Option.some.inj (htok.symm.trans ht)
  have hvalue := hspells.unescape_eq 40
  revert hvalue
  decide +kernel

end SoulCloud
