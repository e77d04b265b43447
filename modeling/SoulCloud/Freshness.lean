import SoulCloud.Calls

/-!
# Freshness of answers across boots

The broker keeps the MQTT session while the device restarts, so an answer to a call of
an earlier boot may still be delivered, at any later point and more than once. What
tells it apart is its correlation data alone, which is the call counter as text, and
the counter starts at 0 in every boot.

- `World`: the link of the current boot, what was published and what the platform sent.
- `Fresh`: every fragment accepted so far was of an answer to the outstanding call.
- `fresh_of_distinct`: so it is as long as no answer arrives for another call with the
  same counter value; `stale_answer_accepted` is a run in which one does.
-/

namespace SoulCloud

open Bytes
open Device (TaskAct)

variable {cfg : Config}

/-! ## The correlation of a call -/

/-- The text of a 32-bit counter fits `correlation`. -/
theorem correlationOf_eq {n : Nat} (h : n < 2 ^ 32) :
    Rpc.correlationOf n = ascii "c" ++ decimal n := by
  have hlen := decimal_length h
  have hc : (ascii "c").length = 1 := by decide
  exact snprintf_of_lt (by rw [List.length_append, hc]; omega)

theorem correlationOf_length {n : Nat} (h : n < 2 ^ 32) : (Rpc.correlationOf n).length ≤ 64 := by
  have hlen := decimal_length h
  have hc : (ascii "c").length = 1 := by decide
  rw [correlationOf_eq h, List.length_append, hc]
  omega

/-- Distinct counter values have distinct correlations. -/
theorem correlationOf_inj {n m : Nat} (hn : n < 2 ^ 32) (hm : m < 2 ^ 32)
    (h : Rpc.correlationOf n = Rpc.correlationOf m) : n = m := by
  rw [correlationOf_eq hn, correlationOf_eq hm] at h
  exact decimal_injective (List.append_cancel_left h)

/-! ## The world around the device -/

/-- A call, identified by its boot and its number within the boot (from 1). -/
structure CallId where
  boot : Nat
  number : Nat
  deriving DecidableEq

/-- The value of `call_counter` in a call. -/
def CallId.counter (id : CallId) : Nat := id.number % 2 ^ 32

/-- The device and what is known of it outside. -/
structure World (cfg : Config) where
  link : Link cfg
  boot : Nat
  /-- The number of calls begun in this boot. -/
  callNo : Nat
  /-- The calls published so far, of all boots, with their correlation data. -/
  published : List (CallId × Bytes)
  /-- The messages the platform has sent in answer to a call, of all boots. -/
  answers : List (CallId × Message)
  /-- The call that the message being received answers, if it is an answer. -/
  receiving : Option CallId
  /-- Every fragment accepted so far: the outstanding call, and the call that the
  fragment's message answers. -/
  accepted : List (CallId × Option CallId)

/-- The number of calls begun after a step. -/
def LinkAct.number (a : LinkAct) (callNo : Nat) : Nat :=
  match a with
  | .task (.callBegin _ _) => callNo + 1
  | _ => callNo

namespace World

def init (cfg : Config) : World cfg := ⟨⟨Device.init cfg, none⟩, 0, 0, [], [], none, []⟩

/-- The last call begun. -/
def current (w : World cfg) : CallId := ⟨w.boot, w.callNo⟩

/-- The call that a step of the link publishes. -/
def publishing (w : World cfg) (a : LinkAct) : List (CallId × Bytes) :=
  match a, w.link.dev.taskPc with
  | .task (.callPublish env), .callPublish c =>
    ((w.link.dev.publishCall c env).2.bind Published.props).toList.map fun p =>
      (w.current, p.correlation)
  | _, _ => []

/-- The fragment that a step of the link accepts. -/
def accepting (w : World cfg) (a : LinkAct) : List (CallId × Option CallId) :=
  match a, w.link.dev.mqttPc with
  | .mqtt, .data _ => if w.link.Accepts then [(w.current, w.receiving)] else []
  | _, _ => []

/-- What a step of the link adds to the records. -/
def record (w : World cfg) (a : LinkAct) (link : Link cfg) : World cfg :=
  { w with
    link
    callNo := a.number w.callNo
    published := w.published ++ w.publishing a
    accepted := w.accepted ++ w.accepting a }

/-- The steps of the world. -/
inductive Act where
  /-- The device moves, or a message that is no response begins to arrive. -/
  | link (a : LinkAct)
  /-- The first `len` bytes of the `i`-th answer arrive. -/
  | deliver (i len : Nat)
  /-- The platform answers the `i`-th published call. -/
  | answer (i : Nat) (m : Message)
  /-- The device restarts; the session survives. -/
  | reboot

def step (w : World cfg) : Act → Option (World cfg)
  | .link (.first m len) =>
    if m.IsResponse cfg then none
    else (w.link.step (.first m len)).map fun link =>
      { w.record (.first m len) link with receiving := none }
  | .link a => (w.link.step a).map (w.record a)
  | .deliver i len =>
    match w.answers[i]? with
    | none => none
    | some (id, m) => (w.link.step (.first m len)).map fun link =>
        { w.record (.first m len) link with receiving := some id }
  | .answer i m =>
    match w.published[i]? with
    | none => none
    | some (id, correlation) =>
      -- Assumed of the platform: a response has exactly the correlation data of its request
      if m.IsResponse cfg ∧ m.property.map Property.correlationData = some correlation then
        some { w with answers := w.answers ++ [(id, m)] }
      else none
  | .reboot => some { w with
      link := ⟨Device.init cfg, none⟩, boot := w.boot + 1, callNo := 0, receiving := none }

/-- Step inversion: what each label needs and leaves. -/
inductive WorldStep (w : World cfg) : Act → World cfg → Prop
  | message {m : Message} {len : Nat} {l : Link cfg} (hm : ¬ m.IsResponse cfg)
      (hl : w.link.step (.first m len) = some l) :
      WorldStep w (.link (.first m len)) { w.record (.first m len) l with receiving := none }
  | link {a : LinkAct} {l : Link cfg} (ha : ∀ m len, a ≠ .first m len)
      (hl : w.link.step a = some l) : WorldStep w (.link a) (w.record a l)
  | deliver {i len : Nat} {id : CallId} {m : Message} {l : Link cfg}
      (hget : w.answers[i]? = some (id, m)) (hl : w.link.step (.first m len) = some l) :
      WorldStep w (.deliver i len) { w.record (.first m len) l with receiving := some id }
  | answer {i : Nat} {id : CallId} {m : Message} {correlation : Bytes}
      (hget : w.published[i]? = some (id, correlation)) (hres : m.IsResponse cfg)
      (hcorr : m.property.map Property.correlationData = some correlation) :
      WorldStep w (.answer i m) { w with answers := w.answers ++ [(id, m)] }
  | reboot :
      WorldStep w .reboot { w with
        link := ⟨Device.init cfg, none⟩, boot := w.boot + 1, callNo := 0, receiving := none }

theorem step_cases {w w' : World cfg} {a : Act} (hst : w.step a = some w') :
    WorldStep w a w' := by
  cases a with
  | link a =>
    by_cases hfirst : ∃ m len, a = .first m len
    · obtain ⟨m, len, rfl⟩ := hfirst
      simp only [step] at hst
      split at hst
      · cases hst
      · rename_i hm
        obtain ⟨l, hl, rfl⟩ := Option.map_eq_some_iff.mp hst
        exact .message hm hl
    · have hst' : (w.link.step a).map (w.record a) = some w' := by
        cases a with
        | first m len => exact absurd ⟨m, len, rfl⟩ hfirst
        | _ => exact hst
      obtain ⟨l, hl, rfl⟩ := Option.map_eq_some_iff.mp hst'
      exact .link (fun m len h => hfirst ⟨m, len, h⟩) hl
  | deliver i len =>
    simp only [step] at hst
    split at hst
    · cases hst
    · rename_i hget
      obtain ⟨l, hl, rfl⟩ := Option.map_eq_some_iff.mp hst
      exact .deliver hget hl
  | answer i m =>
    simp only [step] at hst
    split at hst
    · cases hst
    · rename_i hget
      split at hst
      · rename_i hok
        cases hst
        exact .answer hget hok.1 hok.2
      · cases hst
  | reboot =>
    cases hst
    exact .reboot

end World

/-- The world as a transition system. -/
def world (cfg : Config) : Lts (World cfg) World.Act := ⟨World.init cfg, World.step⟩

/-- Every accepted fragment belongs to an answer to the call that was outstanding. -/
def World.Fresh (w : World cfg) : Prop := ∀ e ∈ w.accepted, e.2 = some e.1

/-- No fragment is handled of an answer to another call with the same counter value as
the outstanding one: of the call with the same number (modulo 2^32) in another boot, or
of one a multiple of 2^32 calls earlier. -/
def World.Distinct (w : World cfg) (a : World.Act) : Prop :=
  match a, w.link.dev.mqttPc, w.receiving with
  | .link .mqtt, .data _, some id =>
    w.link.dev.taskPc.outstanding.isSome → id.counter = w.current.counter → id = w.current
  | _, _, _ => True

instance (w : World cfg) (a : World.Act) : Decidable (w.Distinct a) := by
  unfold World.Distinct
  split <;> infer_instance

/-! ## The records -/

/-- A call that reaches esp-mqtt is published with its own correlation. -/
theorem publishCall_props {s : Device cfg} {c : Call} {env : PublishEnv} {p : PublishProps}
    (h : (s.publishCall c env).2.bind Published.props = some p) :
    p.correlation = c.correlation := by
  obtain ⟨q, hq, hprops⟩ := Option.bind_eq_some_iff.mp h
  unfold Device.publishCall publish at hq
  split at hq
  · cases hq
  · obtain ⟨rfl, -, -⟩ := publishTopic_sent hq
    cases hprops
    rfl

namespace World

variable {w : World cfg} {a : LinkAct}

theorem mem_publishing {e : CallId × Bytes} (he : e ∈ w.publishing a) :
    ∃ c, w.link.dev.taskPc.outstanding = some c ∧ e = (w.current, c.correlation) := by
  unfold publishing at he
  split at he
  · rename_i env c hpc
    obtain ⟨p, hp, rfl⟩ := List.mem_map.mp he
    rw [Option.mem_toList] at hp
    exact ⟨c, by rw [hpc]; rfl, by rw [publishCall_props hp]⟩
  · cases he

theorem mem_accepting {e : CallId × Option CallId} (he : e ∈ w.accepting a) :
    a = .mqtt ∧ (∃ evt, w.link.dev.mqttPc = .data evt) ∧ w.link.Accepts ∧
      e = (w.current, w.receiving) := by
  unfold accepting at he
  split at he
  · rename_i evt hpc
    split at he
    · rename_i hacc
      exact ⟨rfl, ⟨evt, hpc⟩, hacc, List.mem_singleton.mp he⟩
    · cases he
  · cases he

end World

/-! ## The invariant -/

/-- The call's side of the device: what identifies the outstanding call. -/
structure Numbered (l : Link cfg) (callNo : Nat) : Prop where
  counter : l.dev.rpc.callCounter = callNo % 2 ^ 32
  correlation : l.dev.rpc.callCorrelation =
    (l.dev.taskPc.outstanding.map Call.correlation).getD []
  outstanding : ∀ c, l.dev.taskPc.outstanding = some c →
    c.correlation = Rpc.correlationOf (callNo % 2 ^ 32)

/-- Only the request task numbers calls. -/
theorem Numbered.step {l l' : Link cfg} {a : LinkAct} {callNo : Nat} (hs : l.dev.Settled)
    (hn : Numbered l callNo) (hst : Link.LinkStep l a l') :
    Numbered l' (a.number callNo) := by
  have hkeep : ∀ {l' : Link cfg}, l'.dev.rpc.callCounter = l.dev.rpc.callCounter →
      l'.dev.rpc.callCorrelation = l.dev.rpc.callCorrelation →
      l'.dev.taskPc.outstanding = l.dev.taskPc.outstanding → Numbered l' callNo := by
    intro l' hcounter hcorr hout
    refine ⟨hcounter.trans hn.counter, ?_, ?_⟩
    · rw [hcorr, hout]
      exact hn.correlation
    · rw [hout]
      exact hn.outstanding
  have hevent : ∀ e cur, Numbered ⟨l.dev.event e, cur⟩ callNo := by
    intro e cur
    obtain ⟨⟨q, hq⟩, htask, -⟩ := hs.event_frame e
    exact hkeep (by rw [hq]) (by rw [hq]) (by rw [htask])
  cases hst with
  | first => exact hevent _ _
  | next => exact hevent _ _
  | connected => exact hevent _ _
  | disconnected => exact hevent _ _
  | otherEvent => exact hn
  | mqtt hdev =>
    cases hs.mqttStep_cases hdev with
    | deliver hpc hres hrpc hsame =>
      rw [hsame]
      exact hkeep rfl rfl rfl
    | _ => exact hkeep rfl rfl rfl
  | task hdev =>
    cases hdev with
    | giveBack hpc hrpc =>
      obtain ⟨q, -, rfl⟩ := Option.map_eq_some_iff.mp hrpc
      exact hkeep rfl rfl (by rw [hpc]; rfl)
    | @callBegin method params hpc =>
      have hcounter : (l.dev.rpc.callCounter + 1) % 2 ^ 32 = (callNo + 1) % 2 ^ 32 := by
        rw [hn.counter, Nat.mod_add_mod]
      refine ⟨hcounter, rfl, ?_⟩
      rintro c ⟨⟩
      exact congrArg Rpc.correlationOf hcounter
    | callEnd hpc =>
      refine ⟨hn.counter, rfl, ?_⟩
      rintro c ⟨⟩
    | wake hpc => exact hkeep rfl rfl rfl
    | take hpc | handle hpc | respondOwnForeign hpc | respondOwn hpc | respondRes hpc
    | giveBackFull hpc | callClear hpc | callPublish hpc | callPublishFailed hpc | callWake hpc
    | callTimeout hpc | callReturn hpc => exact hkeep rfl rfl (by rw [hpc]; rfl)
  | requestReport => exact hkeep rfl rfl rfl
  | stop => exact hkeep rfl rfl rfl

/-- The invariant of the world. -/
structure World.Recorded (w : World cfg) : Prop where
  reach : (SoulCloud.link cfg).Reach w.link
  numbered : Numbered w.link w.callNo
  published : ∀ e ∈ w.published, e.2 = Rpc.correlationOf e.1.counter
  answers : ∀ e ∈ w.answers, e.2.IsResponse cfg ∧
    Property.responseCorrelation e.2.property = Rpc.correlationOf e.1.counter
  receiving : ∀ m off, w.link.cur = some (m, off) → m.IsResponse cfg →
    ∃ id, w.receiving = some id ∧ (id, m) ∈ w.answers

/-- A step that starts no message goes on with the one being received, or drops it. -/
theorem Link.cur_of_step {l l' : Link cfg} {a : LinkAct} (hst : Link.LinkStep l a l')
    (ha : ∀ m len, a ≠ .first m len) {m : Message} {off : Nat} (hcur : l'.cur = some (m, off)) :
    ∃ off, l.cur = some (m, off) := by
  cases hst with
  | first => exact absurd rfl (ha _ _)
  | next hidle hold hpos hlen =>
    cases hcur
    exact ⟨_, hold⟩
  | disconnected => cases hcur
  | connected | otherEvent | mqtt | task | requestReport | stop => exact ⟨off, hcur⟩

namespace World

/-- The device's part of a step. -/
theorem Recorded.record {w : World cfg} {a : LinkAct} {l : Link cfg} (hr : w.Recorded)
    (hst : w.link.step a = some l) :
    (SoulCloud.link cfg).Reach l ∧ Numbered l (a.number w.callNo) ∧
      ∀ e ∈ (w.record a l).published, e.2 = Rpc.correlationOf e.1.counter := by
  have hk := Device.kept_reach (Link.reach_dev hr.reach)
  refine ⟨.step (a := a) hr.reach trivial hst,
    hr.numbered.step hk.settled (Link.step_cases hst), ?_⟩
  intro e he
  rcases List.mem_append.mp he with hold | hnew
  · exact hr.published e hold
  · obtain ⟨c, hout, rfl⟩ := mem_publishing hnew
    exact hr.numbered.outstanding c hout

/-- **Step lemma**: any step of the world. -/
theorem Recorded.step {w w' : World cfg} {a : Act} (hr : w.Recorded) (hst : w.step a = some w') :
    w'.Recorded := by
  cases step_cases hst with
  | @message m len l hm hl =>
    obtain ⟨hreach, hnum, hpub⟩ := hr.record hl
    refine ⟨hreach, hnum, hpub, hr.answers, ?_⟩
    intro m' off hcur hres
    cases Link.step_cases hl
    cases hcur
    exact absurd hres hm
  | @link a l ha hl =>
    obtain ⟨hreach, hnum, hpub⟩ := hr.record hl
    refine ⟨hreach, hnum, hpub, hr.answers, ?_⟩
    intro m off hcur hres
    obtain ⟨off', hold⟩ := Link.cur_of_step (Link.step_cases hl) ha hcur
    exact hr.receiving m off' hold hres
  | @deliver i len id m l hget hl =>
    obtain ⟨hreach, hnum, hpub⟩ := hr.record hl
    refine ⟨hreach, hnum, hpub, hr.answers, ?_⟩
    intro m' off hcur hres
    cases Link.step_cases hl
    cases hcur
    exact ⟨id, rfl, List.mem_of_getElem? hget⟩
  | @answer i id m correlation hget hres hcorr =>
    -- What was published for a call is its counter as text, so the answer carries it too.
    obtain ⟨p, hp, rfl⟩ := Option.map_eq_some_iff.mp hcorr
    have hid : p.correlationData = Rpc.correlationOf id.counter :=
      hr.published _ (List.mem_of_getElem? hget)
    have hlen := correlationOf_length (n := id.counter) (Nat.mod_lt _ (by norm_num))
    refine ⟨hr.reach, hr.numbered, hr.published, ?_, ?_⟩
    · intro e he
      rcases List.mem_append.mp he with hold | hnew
      · exact hr.answers e hold
      · rw [List.mem_singleton.mp hnew]
        refine ⟨hres, ?_⟩
        rw [hp, Property.responseCorrelation, hid, if_pos hlen]
    · intro m' off hcur hr'
      obtain ⟨id', hrecv, hmem⟩ := hr.receiving m' off hcur hr'
      exact ⟨id', hrecv, List.mem_append_left _ hmem⟩
  | reboot =>
    -- The device starts anew; what was published and answered stays.
    refine ⟨.init, ⟨rfl, rfl, ?_⟩, hr.published, hr.answers, ?_⟩
    · rintro c ⟨⟩
    · rintro m off ⟨⟩

theorem recorded_reach {g : World cfg → Act → Prop} {w : World cfg}
    (h : (world cfg).ReachBy g w) : w.Recorded := by
  refine h.invariant ⟨.init, ⟨rfl, rfl, ?_⟩, ?_, ?_, ?_⟩ fun _ hr _ hst => hr.step hst
  · rintro c ⟨⟩
  · rintro e ⟨⟩
  · rintro e ⟨⟩
  · rintro m off ⟨⟩

/-! ## Freshness -/

/-- **Step lemma**: an accepted fragment carries the correlation of the outstanding call,
so it answers a call with the same counter value. -/
theorem fresh_accepting {w : World cfg} {a : LinkAct} (hr : w.Recorded)
    (hg : w.Distinct (.link a)) : ∀ e ∈ w.accepting a, e.2 = some e.1 := by
  intro e he
  obtain ⟨rfl, ⟨evt, hpc⟩, ⟨hres, hours⟩, rfl⟩ := mem_accepting he
  have hears := Link.hears_reach hr.reach
  unfold Link.Hears at hears
  rw [hpc] at hears
  obtain ⟨m, off, len, hcur, rfl, -, -, hfrom⟩ := hears
  obtain ⟨hisres, hcorr⟩ := hfrom hres
  obtain ⟨id, hrecv, hmem⟩ := hr.receiving m (off + len) hcur hisres
  obtain ⟨-, hid⟩ := hr.answers (id, m) hmem
  have hcall := hr.numbered.correlation
  cases hout : w.link.dev.taskPc.outstanding with
  | none =>
    rw [hout] at hcall
    exact absurd hcall hours.1
  | some c =>
    rw [hout] at hcall
    have hsame : Rpc.correlationOf id.counter = Rpc.correlationOf w.current.counter := by
      calc Rpc.correlationOf id.counter
          = Property.responseCorrelation m.property := hid.symm
        _ = w.link.dev.mqtt.correlation := hcorr.symm
        _ = w.link.dev.rpc.callCorrelation := hours.2.2
        _ = c.correlation := hcall
        _ = Rpc.correlationOf w.current.counter := hr.numbered.outstanding c hout
    -- The correlation tells calls apart by their counters only.
    have hcounter : id.counter = w.current.counter :=
      correlationOf_inj (Nat.mod_lt _ (by norm_num)) (Nat.mod_lt _ (by norm_num)) hsame
    unfold Distinct at hg
    rw [hpc, hrecv] at hg
    show w.receiving = some w.current
    rw [hrecv, hg (by rw [hout]; rfl) hcounter]

/-- **Freshness**: every accepted fragment belongs to an answer to the call that was
outstanding, in every run in which no answer to another call with the same counter
value is being received meanwhile. -/
theorem fresh_of_distinct (cfg : Config) {w : World cfg} (h : (world cfg).ReachBy Distinct w) :
    w.Fresh := by
  refine h.invariant (I := Fresh) ?_ fun {w a w'} hw hI hg hst => ?_
  · rintro e ⟨⟩
  · have hr := recorded_reach hw
    have hlink : ∀ {b : LinkAct}, w.Distinct (.link b) →
        ∀ e ∈ w.accepted ++ w.accepting b, e.2 = some e.1 := by
      intro b hb e he
      rcases List.mem_append.mp he with hold | hnew
      · exact hI e hold
      · exact fresh_accepting hr hb e hnew
    cases step_cases hst with
    | message | link => exact hlink hg
    | @deliver i len id m l hget hl => exact hlink (b := .first m len) trivial
    | answer | reboot => exact hI

end World

/-- The first call of a boot, up to its publish. -/
def firstCall : List World.Act :=
  [.link (.connected true), .link .mqtt, .link (.task (.callBegin (ascii "time") (ascii "{}"))),
    .link (.task .callClear), .link (.task (.callPublish ⟨true, .ok, 1⟩))]

/-- A call and its answer. -/
def freshRun : List World.Act :=
  firstCall ++ [.answer 0 firstAnswer, .deliver 0 2, .link .mqtt, .link .mqtt]

/-- One fragment accepted, of the answer to the call. -/
theorem fresh_of_distinct_answered :
    ∃ w : World .sample, (world .sample).ReachBy World.Distinct w ∧ w.Fresh ∧
      w.accepted.length = 1 := by
  have hrun : ((world .sample).runBy World.Distinct (world .sample).init freshRun).map
      (fun w => decide (w.accepted.length = 1)) = some true := by
    decide +kernel
  obtain ⟨w, hw, hcheck⟩ := Lts.exists_reachBy_of_runBy hrun
  exact ⟨w, hw, World.fresh_of_distinct .sample hw, of_decide_eq_true hcheck⟩

/-- The answer to the first call of boot 0 is delivered while the first call of boot 1 is
outstanding. -/
def staleAnswerRun : List World.Act :=
  firstCall ++ [.answer 0 firstAnswer, .reboot] ++ firstCall ++
    [.deliver 0 2, .link .mqtt, .link .mqtt]

/-- It is accepted. -/
theorem stale_answer_accepted :
    ∃ w : World .sample, (world .sample).run staleAnswerRun = some w ∧ ¬ w.Fresh := by
  have hrun : ((world .sample).run staleAnswerRun).map
      (fun w => decide ((⟨1, 1⟩, some ⟨0, 1⟩) ∈ w.accepted)) = some true := by
    decide +kernel
  obtain ⟨w, hw, hcheck⟩ := Option.map_eq_some_iff.mp hrun
  refine ⟨w, hw, ?_⟩
  intro hfresh
  have := hfresh _ (of_decide_eq_true hcheck)
  cases this

end SoulCloud
