import Mathlib.Logic.Function.Basic
import SoulCloud.Lib.Lts
import SoulCloud.Publish

/-!
# Publishing from several tasks

The request task, the log task, the update task and the application all publish through one
client, and the MQTT 5 properties of a publish are set by a call of its own before it.
`Publish.lean` takes a publish for one step; here it is the several steps that it is, of any number
of tasks, with the connection coming and going between any two of them.

- `publishing`: the tasks, the mutex and the properties that esp-mqtt keeps for the next publish.
- `Guarded`: the properties that wait are those of the task that holds the mutex.
- `publishes_atomic`: every publish is one `publishTopic`, and the messages reach esp-mqtt in the
  order in which their publishes end.
-/

namespace SoulCloud

open Bytes

/-- The arguments of `publish_topic`. -/
structure PublishCall where
  topic : Bytes
  data : Bytes
  qos : Nat
  props : Option PublishProps

/-- A publish that has returned. -/
structure PublishDone where
  call : PublishCall
  ret : EspErr
  /-- What reached `esp_mqtt_client_publish`. -/
  out : Option Published

/-- Where a task is inside `publish_topic`. -/
inductive PublishPc where
  | idle
  /-- The topic is under `d/<id>/up/` and the client was connected: about to take the mutex. -/
  | locking (c : PublishCall)
  /-- Holds the mutex: about to set the properties. -/
  | setting (c : PublishCall)
  | sending (c : PublishCall)
  /-- About to give the mutex back. -/
  | giving (done : PublishDone)

namespace PublishPc

/-- Between taking the mutex and giving it back. -/
def Inside : PublishPc → Prop
  | .idle | .locking _ => False
  | .setting _ | .sending _ | .giving _ => True

/-- The properties that this task has set for its own publish. -/
def waiting : PublishPc → Option PublishProps
  | .sending c => c.props
  | _ => none

/-- The message of a publish that has not returned yet. -/
def given : PublishPc → List Published
  | .giving done => done.out.toList
  | _ => []

end PublishPc

/-- The state that publishing tasks share, and where each of them is. -/
structure Publishing (Task : Type) where
  isConnected : Bool
  /-- The task that holds `publish_lock`. -/
  holder : Option Task
  /-- What `esp_mqtt5_client_set_publish_property` was given last: esp-mqtt uses it for the next
  publish and for no other. -/
  next : Option PublishProps
  pc : Task → PublishPc
  /-- The messages that reached `esp_mqtt_client_publish`. -/
  wire : List Published
  /-- The publishes that have returned. -/
  done : List PublishDone

inductive PublishAct (Task : Type) where
  /-- `publish_topic` up to the load of `is_connected`. -/
  | call (t : Task) (c : PublishCall)
  | lock (t : Task)
  /-- `PUBLISH_LOCK_MS` have passed. -/
  | lockTimeout (t : Task)
  /-- `esp_mqtt5_client_set_publish_property`, if there are properties, returns `ret`. -/
  | setProperty (t : Task) (ret : EspErr)
  /-- `esp_mqtt_client_publish` returns `msgId`. -/
  | send (t : Task) (msgId : Int)
  | give (t : Task)
  /-- The MQTT task stores `is_connected`. -/
  | connection (up : Bool)

namespace Publishing

variable {Task : Type} [DecidableEq Task]

def init : Publishing Task := ⟨false, none, none, fun _ => .idle, [], []⟩

/-- Task `t` moves on. -/
def goto (s : Publishing Task) (t : Task) (pc : PublishPc) : Publishing Task :=
  { s with pc := Function.update s.pc t pc }

/-- Task `t` returns. -/
def finish (s : Publishing Task) (t : Task) (done : PublishDone) : Publishing Task :=
  { s.goto t .idle with done := s.done ++ [done] }

def step (cfg : Config) (s : Publishing Task) : PublishAct Task → Option (Publishing Task)
  | .call t c =>
    match s.pc t with
    | .idle =>
      if ¬ cfg.upTopic <+: c.topic then some (s.finish t ⟨c, .invalidArg, none⟩)
      else if ¬ s.isConnected then some (s.finish t ⟨c, .invalidState, none⟩)
      else some (s.goto t (.locking c))
    | _ => none
  | .lock t =>
    match s.pc t, s.holder with
    | .locking c, none => some { s.goto t (.setting c) with holder := some t }
    | _, _ => none
  | .lockTimeout t =>
    match s.pc t with
    | .locking c => some (s.finish t ⟨c, .timeout, none⟩)
    | _ => none
  | .setProperty t ret =>
    match s.pc t with
    | .setting c =>
      match c.props with
      | none => some (s.goto t (.sending c))
      | some props =>
        if ret = .ok then some { s.goto t (.sending c) with next := some props }
        else some (s.goto t (.giving ⟨c, ret, none⟩))
    | _ => none
  | .send t msgId =>
    match s.pc t with
    | .sending c =>
      -- The message leaves with whatever properties wait, not with those of `c`.
      let out : Published := ⟨c.topic, c.data, c.qos, s.next⟩
      some
        { s.goto t (.giving ⟨c, msgIdRet msgId, some out⟩) with
          next := none, wire := s.wire ++ [out] }
    | _ => none
  | .give t =>
    match s.pc t with
    | .giving done => some { s.finish t done with holder := none }
    | _ => none
  | .connection up => some { s with isConnected := up }

/-- The steps by label. -/
inductive Step (cfg : Config) (s : Publishing Task) : PublishAct Task → Publishing Task → Prop
  | foreign {t : Task} {c : PublishCall} (hpc : s.pc t = .idle) (hup : ¬ cfg.upTopic <+: c.topic) :
      Step cfg s (.call t c) (s.finish t ⟨c, .invalidArg, none⟩)
  | offline {t : Task} {c : PublishCall} (hpc : s.pc t = .idle) (hup : cfg.upTopic <+: c.topic)
      (hconn : s.isConnected = false) :
      Step cfg s (.call t c) (s.finish t ⟨c, .invalidState, none⟩)
  | call {t : Task} {c : PublishCall} (hpc : s.pc t = .idle) (hup : cfg.upTopic <+: c.topic) :
      Step cfg s (.call t c) (s.goto t (.locking c))
  | lock {t : Task} {c : PublishCall} (hpc : s.pc t = .locking c) (hfree : s.holder = none) :
      Step cfg s (.lock t) { s.goto t (.setting c) with holder := some t }
  | lockTimeout {t : Task} {c : PublishCall} (hpc : s.pc t = .locking c) :
      Step cfg s (.lockTimeout t) (s.finish t ⟨c, .timeout, none⟩)
  | noProperty {t : Task} {c : PublishCall} {ret : EspErr} (hpc : s.pc t = .setting c)
      (hprops : c.props = none) : Step cfg s (.setProperty t ret) (s.goto t (.sending c))
  | setProperty {t : Task} {c : PublishCall} {props : PublishProps} (hpc : s.pc t = .setting c)
      (hprops : c.props = some props) :
      Step cfg s (.setProperty t .ok) { s.goto t (.sending c) with next := some props }
  | refused {t : Task} {c : PublishCall} {props : PublishProps} {ret : EspErr}
      (hpc : s.pc t = .setting c) (hprops : c.props = some props) (hret : ret ≠ .ok) :
      Step cfg s (.setProperty t ret) (s.goto t (.giving ⟨c, ret, none⟩))
  | send {t : Task} {c : PublishCall} {msgId : Int} (hpc : s.pc t = .sending c) :
      Step cfg s (.send t msgId)
        { s.goto t (.giving ⟨c, msgIdRet msgId, some ⟨c.topic, c.data, c.qos, s.next⟩⟩) with
          next := none, wire := s.wire ++ [⟨c.topic, c.data, c.qos, s.next⟩] }
  | give {t : Task} {done : PublishDone} (hpc : s.pc t = .giving done) :
      Step cfg s (.give t) { s.finish t done with holder := none }
  | connection {up : Bool} : Step cfg s (.connection up) { s with isConnected := up }

theorem step_cases {cfg : Config} {s s' : Publishing Task} {a : PublishAct Task}
    (h : s.step cfg a = some s') : Step cfg s a s' := by
  unfold step at h
  split at h
  · rename_i t c
    split at h
    · rename_i hpc
      by_cases hup : cfg.upTopic <+: c.topic
      · rw [if_neg (not_not.mpr hup)] at h
        split at h
        · rename_i hconn
          cases h
          exact .offline hpc hup (Bool.eq_false_iff.mpr hconn)
        · cases h
          exact .call hpc hup
      · rw [if_pos hup] at h
        cases h
        exact .foreign hpc hup
    · cases h
  · split at h
    · rename_i hpc hfree
      cases h
      exact .lock hpc hfree
    · cases h
  · split at h
    · rename_i hpc
      cases h
      exact .lockTimeout hpc
    · cases h
  · split at h
    · rename_i hpc
      split at h
      · rename_i hprops
        cases h
        exact .noProperty hpc hprops
      · rename_i hprops
        split at h
        · rename_i hret
          subst hret
          cases h
          exact .setProperty hpc hprops
        · rename_i hret
          cases h
          exact .refused hpc hprops hret
    · cases h
  · split at h
    · rename_i hpc
      cases h
      exact .send hpc
    · cases h
  · split at h
    · rename_i hpc
      cases h
      exact .give hpc
    · cases h
  · cases h
    exact .connection

end Publishing

/-- Any number of tasks that publish. -/
def publishing (cfg : Config) (Task : Type) [DecidableEq Task] :
    Lts (Publishing Task) (PublishAct Task) :=
  ⟨Publishing.init, Publishing.step cfg⟩

/-! ## The mutex -/

namespace Publishing

variable {cfg : Config} {Task : Type} [DecidableEq Task]

/-- Where the task that holds the mutex is. -/
def heldBy (s : Publishing Task) : PublishPc :=
  match s.holder with
  | none => .idle
  | some t => s.pc t

/-- The publish has the result and the effect of one `publishTopic`. -/
def Atomic (cfg : Config) (d : PublishDone) : Prop :=
  ∃ isConnected env, publishTopic cfg isConnected env d.call.topic d.call.data d.call.qos
    d.call.props = (d.ret, d.out)

/-- What is true of a task at this point of `publish_topic`. -/
def Allowed (cfg : Config) : PublishPc → Prop
  | .idle => True
  | .locking c | .setting c | .sending c => cfg.upTopic <+: c.topic
  | .giving d => Atomic cfg d

/-- The task that holds the mutex is the one inside, its properties are those that wait, and what
has reached esp-mqtt is what was published before and by it. -/
structure Guarded (cfg : Config) (s : Publishing Task) : Prop where
  inside : ∀ t, (s.pc t).Inside ↔ s.holder = some t
  next : s.next = s.heldBy.waiting
  wire : s.wire = s.done.flatMap (fun d => d.out.toList) ++ s.heldBy.given
  allowed : ∀ t, Allowed cfg (s.pc t)
  done : ∀ d ∈ s.done, Atomic cfg d

section Goto

variable {s : Publishing Task} {t : Task} {p : PublishPc}

omit [DecidableEq Task] in
theorem heldBy_of_holder (h : s.holder = some t) : s.heldBy = s.pc t := by
  rw [heldBy]
  rw [h]

theorem heldBy_goto (h : s.holder = some t) : (s.goto t p).heldBy = p :=
  (heldBy_of_holder (s := s.goto t p) h).trans (Function.update_self _ _ _)

theorem heldBy_goto_of_ne (h : s.holder ≠ some t) : (s.goto t p).heldBy = s.heldBy := by
  have hholder : (s.goto t p).holder = s.holder := rfl
  rw [heldBy, heldBy, hholder]
  cases hs : s.holder with
  | none => rfl
  | some t' =>
    rw [hs] at h
    have hne : t' ≠ t := fun heq => h (congrArg some heq)
    exact Function.update_of_ne hne _ _

/-- A task that moves takes nobody else in or out. -/
theorem inside_goto (h : ∀ t, (s.pc t).Inside ↔ s.holder = some t)
    (hpc : p.Inside ↔ s.holder = some t) (t' : Task) :
    ((s.goto t p).pc t').Inside ↔ s.holder = some t' := by
  show (Function.update s.pc t p t').Inside ↔ _
  by_cases heq : t' = t
  · rw [heq, Function.update_self]
    exact hpc
  · rw [Function.update_of_ne heq]
    exact h t'

theorem allowed_goto (h : ∀ t, Allowed cfg (s.pc t)) (hpc : Allowed cfg p) (t' : Task) :
    Allowed cfg ((s.goto t p).pc t') := by
  show Allowed cfg (Function.update s.pc t p t')
  by_cases heq : t' = t
  · rw [heq, Function.update_self]
    exact hpc
  · rw [Function.update_of_ne heq]
    exact h t'

/-- A task outside of the mutex moves and stays outside. -/
theorem Guarded.outside (h : Guarded cfg s) (ht : ¬ (s.pc t).Inside) (hpc : ¬ p.Inside)
    (hallowed : Allowed cfg p) : Guarded cfg (s.goto t p) := by
  have hholder : s.holder ≠ some t := fun heq => ht ((h.inside t).mpr heq)
  refine ⟨inside_goto h.inside ⟨fun hin => absurd hin hpc, fun heq => absurd heq hholder⟩, ?_, ?_,
    allowed_goto h.allowed hallowed, h.done⟩
  · rw [heldBy_goto_of_ne hholder]
    exact h.next
  · rw [heldBy_goto_of_ne hholder]
    exact h.wire

omit [DecidableEq Task] in
/-- A publish that nothing came of returns. -/
theorem Guarded.returned {d : PublishDone} (h : Guarded cfg s) (hd : Atomic cfg d)
    (hout : d.out = none) : Guarded cfg { s with done := s.done ++ [d] } := by
  refine ⟨h.inside, h.next, ?_, h.allowed, ?_⟩
  · show s.wire = (s.done ++ [d]).flatMap (fun d => d.out.toList) ++ s.heldBy.given
    rw [List.flatMap_append, List.flatMap_singleton, hout, Option.toList_none, List.append_nil]
    exact h.wire
  · intro e he
    rcases List.mem_append.mp he with hold | hnew
    · exact h.done e hold
    · rw [List.mem_singleton.mp hnew]
      exact hd

/-- The task that holds the mutex moves inside it. -/
theorem Guarded.within (h : Guarded cfg s) {pc₀ : PublishPc} (hpc₀ : s.pc t = pc₀)
    (hin : pc₀.Inside) (hgiven : pc₀.given = []) (hpc : p.Inside) (hallowed : Allowed cfg p)
    {next : Option PublishProps} {wire : List Published} (hnext : next = p.waiting)
    (hwire : wire = s.wire ++ p.given) : Guarded cfg { s.goto t p with next, wire } := by
  have hholder : s.holder = some t := (h.inside t).mp (hpc₀ ▸ hin)
  refine ⟨inside_goto h.inside ⟨fun _ => hholder, fun _ => hpc⟩, ?_, ?_,
    allowed_goto h.allowed hallowed, h.done⟩
  · exact hnext.trans (congrArg PublishPc.waiting (heldBy_goto hholder).symm)
  · have hbefore : s.wire = s.done.flatMap fun d => d.out.toList := by
      rw [h.wire, heldBy_of_holder hholder, hpc₀, hgiven, List.append_nil]
    show wire = s.done.flatMap (fun d => d.out.toList) ++ (s.goto t p).heldBy.given
    rw [heldBy_goto hholder, ← hbefore, hwire]

end Goto

variable {s s' : Publishing Task}

theorem atomic_refused {c : PublishCall} {props : PublishProps} {ret : EspErr}
    (hup : cfg.upTopic <+: c.topic) (hprops : c.props = some props) (hret : ret ≠ .ok) :
    Atomic cfg ⟨c, ret, none⟩ := by
  refine ⟨true, ⟨true, ret, 0⟩, ?_⟩
  have hrefused : ¬ propertyRet ⟨true, ret, 0⟩ (some props) = .ok := hret
  rw [hprops, publishTopic]
  rw [if_neg (not_not.mpr hup), if_neg (not_not.mpr rfl), if_neg (not_not.mpr rfl),
    if_neg hrefused]
  rfl

theorem atomic_sent {c : PublishCall} (hup : cfg.upTopic <+: c.topic) (msgId : Int) :
    Atomic cfg ⟨c, msgIdRet msgId, some ⟨c.topic, c.data, c.qos, c.props⟩⟩ := by
  refine ⟨true, ⟨true, .ok, msgId⟩, ?_⟩
  have hok : propertyRet ⟨true, .ok, msgId⟩ c.props = .ok := by
    rw [propertyRet]
    split <;> rfl
  rw [publishTopic]
  rw [if_neg (not_not.mpr hup), if_neg (not_not.mpr rfl), if_neg (not_not.mpr rfl), if_pos hok]

/-- **Step lemma**: any task moves, or the connection changes. -/
theorem Guarded.step {a : PublishAct Task} (h : Guarded cfg s) (hst : s.step cfg a = some s') :
    Guarded cfg s' := by
  cases step_cases hst with
  | @foreign t c hpc hup =>
    have hatomic : Atomic cfg ⟨c, .invalidArg, none⟩ :=
      ⟨false, ⟨false, .ok, 0⟩, publishTopic_foreign hup⟩
    refine (h.outside (t := t) (p := .idle) ?_ id trivial).returned hatomic rfl
    rw [hpc]
    exact id
  | @offline t c hpc hup hconn =>
    have hatomic : Atomic cfg ⟨c, .invalidState, none⟩ := by
      refine ⟨false, ⟨false, .ok, 0⟩, ?_⟩
      rw [publishTopic]
      rw [if_neg (not_not.mpr hup), if_pos Bool.false_ne_true]
    refine (h.outside (t := t) (p := .idle) ?_ id trivial).returned hatomic rfl
    rw [hpc]
    exact id
  | @call t c hpc hup =>
    refine h.outside ?_ id hup
    rw [hpc]
    exact id
  | @lockTimeout t c hpc =>
    have hup : cfg.upTopic <+: c.topic := by
      have hallowed := h.allowed t
      rw [hpc] at hallowed
      exact hallowed
    have hatomic : Atomic cfg ⟨c, .timeout, none⟩ := by
      refine ⟨true, ⟨false, .ok, 0⟩, ?_⟩
      rw [publishTopic]
      rw [if_neg (not_not.mpr hup), if_neg (not_not.mpr rfl), if_pos Bool.false_ne_true]
    refine (h.outside (t := t) (p := .idle) ?_ id trivial).returned hatomic rfl
    rw [hpc]
    exact id
  | @lock t c hpc hfree =>
    have hallowed := h.allowed t
    rw [hpc] at hallowed
    have hidle : s.heldBy = .idle := by
      rw [heldBy]
      rw [hfree]
    -- Nobody was inside, so the one that goes in is alone.
    refine ⟨fun t' => ?_, ?_, ?_, allowed_goto h.allowed hallowed, h.done⟩
    · show (Function.update s.pc t (.setting c) t').Inside ↔ some t = some t'
      by_cases heq : t' = t
      · rw [heq, Function.update_self]
        exact ⟨fun _ => rfl, fun _ => trivial⟩
      · rw [Function.update_of_ne heq, h.inside t', hfree]
        exact ⟨fun hno => (by cases hno), fun hsame => absurd (Option.some.inj hsame).symm heq⟩
    · show s.next = PublishPc.waiting (Function.update s.pc t (.setting c) t)
      rw [Function.update_self, h.next, hidle]
      rfl
    · show s.wire = _ ++ PublishPc.given (Function.update s.pc t (.setting c) t)
      rw [Function.update_self, h.wire, hidle]
      rfl
  | @noProperty t c ret hpc hprops =>
    have hallowed := h.allowed t
    rw [hpc] at hallowed
    have hnext : s.next = c.props := by
      rw [h.next, heldBy_of_holder ((h.inside t).mp (by rw [hpc]; trivial)), hpc, hprops]
      rfl
    exact h.within (p := .sending c) hpc trivial rfl trivial hallowed hnext
      (List.append_nil _).symm
  | @setProperty t c props hpc hprops =>
    have hallowed := h.allowed t
    rw [hpc] at hallowed
    exact h.within (p := .sending c) hpc trivial rfl trivial hallowed hprops.symm
      (List.append_nil _).symm
  | @refused t c props ret hpc hprops hret =>
    have hallowed := h.allowed t
    rw [hpc] at hallowed
    have hnext : s.next = none := by
      rw [h.next, heldBy_of_holder ((h.inside t).mp (by rw [hpc]; trivial)), hpc]
      rfl
    exact h.within (p := .giving ⟨c, ret, none⟩) hpc trivial rfl trivial
      (atomic_refused hallowed hprops hret) hnext (List.append_nil _).symm
  | @send t c msgId hpc =>
    have hallowed := h.allowed t
    rw [hpc] at hallowed
    have hnext : s.next = c.props := by
      rw [h.next, heldBy_of_holder ((h.inside t).mp (by rw [hpc]; trivial)), hpc]
      rfl
    -- What waits are the task's own properties, so the message leaves as it was passed.
    rw [hnext]
    exact h.within (p := .giving ⟨c, msgIdRet msgId, some ⟨c.topic, c.data, c.qos, c.props⟩⟩) hpc
      trivial rfl trivial (atomic_sent hallowed msgId) rfl rfl
  | @give t d hpc =>
    have hallowed := h.allowed t
    have hholder := (h.inside t).mp (by rw [hpc]; trivial)
    rw [hpc] at hallowed
    refine ⟨fun t' => ?_, ?_, ?_, allowed_goto (p := .idle) h.allowed trivial, fun e he => ?_⟩
    · show (Function.update s.pc t .idle t').Inside ↔ none = some t'
      by_cases heq : t' = t
      · rw [heq, Function.update_self]
        exact ⟨False.elim, fun hno => (by cases hno)⟩
      · rw [Function.update_of_ne heq, h.inside t', hholder]
        exact ⟨fun hsame => absurd (Option.some.inj hsame).symm heq, fun hno => (by cases hno)⟩
    · show s.next = none
      rw [h.next, heldBy_of_holder hholder, hpc]
      rfl
    · show s.wire = (s.done ++ [d]).flatMap (fun d => d.out.toList) ++ []
      rw [h.wire, heldBy_of_holder hholder, hpc, List.flatMap_append, List.flatMap_singleton,
        List.append_nil]
      rfl
    · rcases List.mem_append.mp he with hold | hnew
      · exact h.done e hold
      · rw [List.mem_singleton.mp hnew]
        exact hallowed
  | connection => exact ⟨h.inside, h.next, h.wire, h.allowed, h.done⟩

/-- The invariant holds in every reachable state. -/
theorem guarded_reach (h : (publishing cfg Task).Reach s) : Guarded cfg s := by
  have hinit : Guarded cfg (publishing cfg Task).init := by
    refine ⟨fun t => ⟨False.elim, fun hno => (by cases hno)⟩, rfl, rfl, fun _ => trivial, ?_⟩
    rintro d ⟨⟩
  exact h.invariant hinit fun _ hI _ hst => hI.step hst

end Publishing

/-- **Publishes are atomic**, for any number of tasks and any interleaving: each one that has
returned had the result and the effect of one `publishTopic`, so its message left with its own
properties; a task has the mutex exactly between taking it and giving it back, on every way through
`publish_topic`; and the messages have reached esp-mqtt in the order in which their publishes
return. -/
theorem publishes_atomic (cfg : Config) (Task : Type) [DecidableEq Task] {s : Publishing Task}
    (h : (publishing cfg Task).Reach s) :
    (∀ d ∈ s.done, Publishing.Atomic cfg d) ∧
      (∀ t, (s.pc t).Inside ↔ s.holder = some t) ∧
      s.wire = s.done.flatMap (fun d => d.out.toList) ++ s.heldBy.given := by
  have hinv := Publishing.guarded_reach h
  exact ⟨hinv.done, hinv.inside, hinv.wire⟩

/-- A publish of the sample device with a correlation. -/
def callSample (correlation : Bytes) : PublishCall where
  topic := ascii "d/a1/up/res"
  data := ascii "\x7b\x7d"
  qos := 1
  props := some ⟨some contentType, correlation, none⟩

/-- Two tasks publish at the same time; the second one has to wait for the mutex. -/
def bothPublish : List (PublishAct Bool) :=
  [.connection true, .call true (callSample (ascii "1")), .call false (callSample (ascii "2")),
    .lock true, .setProperty true .ok, .connection false, .send true 7, .give true, .lock false,
    .setProperty false .ok, .send false 8, .give false]

/-- Each message leaves with its own correlation. -/
theorem publishes_atomic_both :
    ∃ s : Publishing Bool, s.done.length = 2 ∧ (∀ d ∈ s.done, Publishing.Atomic .sample d) ∧
      s.wire.map (fun p => p.props.map PublishProps.correlation) =
        [some (ascii "1"), some (ascii "2")] := by
  have hrun : ((publishing .sample Bool).run bothPublish).map
      (fun s => decide (s.done.length = 2 ∧
        s.wire.map (fun p => p.props.map PublishProps.correlation) =
          [some (ascii "1"), some (ascii "2")])) = some true := by
    decide
  obtain ⟨s, hs, hcheck⟩ := Lts.exists_reach_of_run hrun
  obtain ⟨hdone, hwire⟩ := of_decide_eq_true hcheck
  exact ⟨s, hdone, (publishes_atomic .sample Bool hs).1, hwire⟩

end SoulCloud
