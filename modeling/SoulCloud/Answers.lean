import SoulCloud.Reassembly

/-!
# Answers to requests

What the request task makes of the submitted slots. Slots are reused without being
cleared and several requests are in flight, so the question is whether the slot that
`handle` and `respond` look at still holds what was submitted: `Kept.frame` says that
nobody writes it in between, and the invariant `Serving` follows each request from
`ready_slots` through `handle` to its answer.

- `submitted_due`: the due messages are submitted, exactly once and in order, and none of
  them gets lost on the way to `handle`.
- `Answers m p`: `p` is a proper answer to message `m`.
- `answers_match`: requests are handled once, in order, and answered at most once,
  each with its own topic and correlation.
-/

namespace SoulCloud

open Bytes
open Device (TaskAct)

variable {cfg : Config}

/-! ## What an answer is -/

/-- The device may publish on the response topic that the request names. -/
def MayUse (cfg : Config) (own : Bytes) : Prop := own ≠ [] ∧ cfg.upTopic <+: own

instance (cfg : Config) (own : Bytes) : Decidable (MayUse cfg own) :=
  inferInstanceAs (Decidable (_ ∧ _))

/-- The topic of the answer to a request: the one it names when that lies under
`d/<id>/up/`, and `d/<id>/up/res` otherwise. -/
def answerTopic (cfg : Config) (own : Bytes) : Bytes :=
  if MayUse cfg own then own else cfg.upTopic ++ ascii "res"

theorem upTopic_prefix_answerTopic (cfg : Config) (own : Bytes) :
    cfg.upTopic <+: answerTopic cfg own := by
  rw [answerTopic]
  split
  · rename_i h
    exact h.2
  · exact List.prefix_append _ _

/-- `p` answers the request in `slot`. -/
structure AnswersSlot (slot : Slot cfg.payloadMax) (p : Published) : Prop where
  topic : p.topic = answerTopic cfg slot.responseTopic.cstr
  props : p.props = some (Device.answerProps slot)

/-- `p` answers message `m`: on the topic it asked for, if that may be used, and with
its correlation data and no other. -/
structure Answers (cfg : Config) (m : Message) (p : Published) : Prop where
  topic : p.topic = answerTopic cfg (Property.ownTopic m.property)
  under : cfg.upTopic <+: p.topic
  props : p.props = some ⟨some contentType, Property.answerCorrelation m.property, none⟩

theorem AnswersSlot.answers {m : Message} {slot : Slot cfg.payloadMax} {p : Published}
    (h : AnswersSlot slot p) (hm : Carries cfg m slot) : Answers cfg m p where
  topic := by rw [h.topic, hm.responseTopic]
  under := by
    rw [h.topic]
    exact upTopic_prefix_answerTopic cfg _
  props := by
    rw [h.props, ← hm.correlation]
    rfl

namespace Device

variable {s : Device cfg} {idx : Nat} {body : Bytes} {env : PublishEnv}

theorem respondOwn_sent {p : Published} (h : (s.respondOwn idx body env).2 = some p) :
    AnswersSlot (s.rpc.slots idx) p := by
  unfold respondOwn at h
  dsimp only at h
  split at h
  · rename_i hne
    obtain ⟨rfl, hpre, -⟩ := publishTopic_sent h
    refine ⟨?_, rfl⟩
    rw [answerTopic, if_pos ⟨hne, hpre⟩]
  · cases h

/-- `respond` falls back to `res` only when nothing was sent and the request's own topic
may not be used, as long as esp-mqtt does not refuse the properties as an argument. -/
theorem respondOwn_invalidArg (henv : env.property ≠ .invalidArg)
    (h : (s.respondOwn idx body env).1 = .invalidArg) :
    (s.respondOwn idx body env).2 = none ∧ ¬ MayUse cfg (s.rpc.slots idx).responseTopic.cstr := by
  unfold respondOwn at h ⊢
  dsimp only at h ⊢
  by_cases hne : (s.rpc.slots idx).responseTopic.cstr ≠ []
  · rw [if_pos hne] at h ⊢
    have hforeign := publishTopic_invalidArg henv h
    rw [publishTopic_foreign hforeign]
    exact ⟨rfl, fun hown => hforeign hown.2⟩
  · rw [if_neg hne]
    exact ⟨rfl, fun hown => hne hown.1⟩

theorem respondRes_sent {p : Published}
    (hown : ¬ MayUse cfg (s.rpc.slots idx).responseTopic.cstr)
    (h : (s.respondRes idx body env).2 = some p) : AnswersSlot (s.rpc.slots idx) p := by
  rw [respondRes] at h
  rw [publish_of_short (by decide)] at h
  obtain ⟨rfl, -, -⟩ := publishTopic_sent h
  refine ⟨?_, rfl⟩
  rw [answerTopic, if_neg hown]

end Device

/-! ## The invariant -/

namespace TaskPc

/-- The slot whose answer has not been decided yet. -/
def answering : TaskPc → Option Nat
  | .responding idx _ => some idx
  | .respondingRes idx _ => some idx
  | _ => none

/-- The slot taken from `ready_slots` but not yet handled. -/
def unhandled : TaskPc → Option Nat
  | .handling idx => some idx
  | _ => none

theorem slot_of_answering {pc : TaskPc} {idx : Nat} (h : pc.answering = some idx) :
    pc.slot = some idx := by
  cases pc with
  | responding _ _ | respondingRes _ _ => exact h
  | _ => cases h

theorem slot_of_unhandled {pc : TaskPc} {idx : Nat} (h : pc.unhandled = some idx) :
    pc.slot = some idx := by
  cases pc with
  | handling _ => exact h
  | _ => cases h

end TaskPc

namespace Link

/-- The indices submitted but not yet handled, the oldest first. -/
def waiting (l : Link cfg) : List Nat :=
  l.dev.taskPc.unhandled.toList ++ l.dev.rpc.readySlots.items

end Link

/-- Each submitted slot is handled as it was submitted, in order. -/
def HandledInOrder (l : Link cfg) (h : RequestLog cfg) : Prop :=
  h.submitted = h.handled ++ l.waiting.map l.dev.rpc.slots

/-- What a step of anything but the request task does to the request task's half: it may put
slots on `ready_slots`, and the log records them. -/
structure Submits (l : Link cfg) (h : RequestLog cfg) (l' : Link cfg) (h' : RequestLog cfg)
    (new : List Nat) : Prop where
  task : l'.dev.taskPc = l.dev.taskPc
  ready : l'.dev.rpc.readySlots.items = l.dev.rpc.readySlots.items ++ new
  slots : ∀ i, i ∈ l.dev.rpc.readySlots.items ∨ l.dev.taskPc.slot = some i →
    l'.dev.rpc.slots i = l.dev.rpc.slots i
  submitted : h'.submitted = h.submitted ++ new.map l'.dev.rpc.slots
  handled : h'.handled = h.handled
  sent : h'.sent = h.sent

/-- A step that changes neither the request task nor what it looks at. -/
theorem HandledInOrder.congr {l l' : Link cfg} {h h' : RequestLog cfg} {new : List Nat}
    (hinv : HandledInOrder l h) (hnew : Submits l h l' h' new) : HandledInOrder l' h' := by
  obtain ⟨htask, hready, hslots, hsub, hhandled, -⟩ := hnew
  -- The slots that wait are not written.
  have hold : l.waiting.map l'.dev.rpc.slots = l.waiting.map l.dev.rpc.slots := by
    refine List.map_congr_left fun i hi => hslots i ?_
    rcases List.mem_append.mp hi with hun | hready
    · exact .inr (TaskPc.slot_of_unhandled (by simpa using hun))
    · exact .inl hready
  have hwaiting : l'.waiting = l.waiting ++ new := by
    unfold Link.waiting
    rw [htask, hready, List.append_assoc]
  rw [HandledInOrder] at hinv ⊢
  rw [hsub, hhandled, hinv, hwaiting, List.map_append, hold, List.append_assoc]

/-- **Step lemma**: the request task moves. -/
theorem HandledInOrder.task {l : Link cfg} {dev : Device cfg} {h : RequestLog cfg} {a : TaskAct}
    (hinv : HandledInOrder l h) (hst : Device.TaskStep l.dev a dev) :
    HandledInOrder ⟨dev, l.cur⟩ (RequestLog.onTask l.dev a h) := by
  have horder := hinv
  rw [HandledInOrder, Link.waiting] at horder
  unfold RequestLog.onTask
  cases hst with
  | @take idx rest hpc hready =>
    rw [hpc, hready] at horder
    exact horder
  | @handle idx body hpc =>
    -- The slot moves from the head of the waiting ones to the end of the handled ones.
    rw [hpc] at horder ⊢
    rw [HandledInOrder]
    rw [horder]
    simp [Link.waiting, TaskPc.unhandled]
  | @giveBack idx rpc hpc hrpc =>
    obtain ⟨q, -, rfl⟩ := Option.map_eq_some_iff.mp hrpc
    rw [hpc] at horder ⊢
    exact horder
  | wake hpc => exact horder
  | respondOwnForeign hpc | respondOwn hpc | respondRes hpc | giveBackFull hpc | callBegin hpc
  | callClear hpc | callPublish hpc | callPublishFailed hpc | callWake hpc | callTimeout hpc
  | callEnd hpc | callReturn hpc =>
    rw [hpc] at horder ⊢
    exact horder

/-- The request task's half of the invariant: the submitted slots are handled in order, and
the answers sent so far are those of handled requests. -/
structure Serving (l : Link cfg) (h : RequestLog cfg) : Prop where
  order : HandledInOrder l h
  current : ∀ idx, l.dev.taskPc.answering = some idx →
    h.handled.getLast? = some (l.dev.rpc.slots idx) ∧ ∀ e ∈ h.sent, e.1 + 1 < h.handled.length
  foreign : ∀ idx body, l.dev.taskPc = .respondingRes idx body →
    ¬ MayUse cfg (l.dev.rpc.slots idx).responseTopic.cstr
  sent : ∀ e ∈ h.sent, ∃ slot, h.handled[e.1]? = some slot ∧ AnswersSlot slot e.2
  once : (h.sent.map Prod.fst).Pairwise (· < ·)

/-- A step that changes neither the request task nor what it looks at. -/
theorem Serving.congr {l l' : Link cfg} {h h' : RequestLog cfg} {new : List Nat}
    (hinv : Serving l h) (hnew : Submits l h l' h' new) : Serving l' h' := by
  obtain ⟨horder, hcurrent, hforeign, hanswers, honce⟩ := hinv
  have horder' := horder.congr hnew
  obtain ⟨htask, -, hslots, -, hhandled, hsent⟩ := hnew
  refine ⟨horder', ?_, ?_, ?_, ?_⟩
  · intro idx hidx
    rw [htask] at hidx
    rw [hhandled, hsent, hslots idx (.inr (TaskPc.slot_of_answering hidx))]
    exact hcurrent idx hidx
  · intro idx body hpc
    rw [htask] at hpc
    rw [hslots idx (.inr (by rw [hpc]; rfl))]
    exact hforeign idx body hpc
  · rw [hhandled, hsent]
    exact hanswers
  · rw [hsent]
    exact honce

/-- What the MQTT task puts on `ready_slots` next. -/
def Link.submitting (l : Link cfg) : List Nat :=
  match l.dev.mqttPc with
  | .submit => l.dev.mqtt.rxSlot.toList
  | _ => []

/-- The event handler appends to `ready_slots` what the log records, and leaves the
request task's half alone. -/
theorem ready_mqtt {l : Link cfg} {dev : Device cfg} (h : RequestLog cfg)
    (hst : Device.MqttStep l.dev dev) :
    dev.taskPc = l.dev.taskPc ∧
      dev.rpc.readySlots.items = l.dev.rpc.readySlots.items ++ l.submitting ∧
      (RequestLog.onMqtt l h).submitted = h.submitted ++ l.submitting.map dev.rpc.slots ∧
      (RequestLog.onMqtt l h).handled = h.handled ∧ (RequestLog.onMqtt l h).sent = h.sent := by
  rw [RequestLog.onMqtt, Link.submitting]
  cases hst with
  | submit hpc hrx hitems =>
    rw [hpc, hrx]
    exact ⟨rfl, hitems, rfl, rfl, rfl⟩
  | submitNone hpc hrx =>
    rw [hpc, hrx]
    exact ⟨rfl, (List.append_nil _).symm, rfl, rfl, rfl⟩
  | deliver hpc hres hrpc hsame =>
    rw [hpc, hsame]
    dsimp only
    rw [List.append_nil, List.map_nil, List.append_nil]
    refine ⟨rfl, rfl, ?_⟩
    split <;> exact ⟨rfl, rfl, rfl⟩
  | append hpc | dropData hpc =>
    rw [hpc]
    dsimp only
    rw [List.append_nil, List.map_nil, List.append_nil]
    refine ⟨rfl, rfl, ?_⟩
    split <;> exact ⟨rfl, rfl, rfl⟩
  | takeSlot hpc | busy hpc | response hpc | ignored hpc | fill hpc | fillNone hpc
  | setRequest hpc | setCallDone hpc | setConnected hpc | dropSlot hpc | setDisconnected hpc =>
    rw [hpc]
    dsimp only
    rw [List.append_nil, List.map_nil, List.append_nil]
    exact ⟨rfl, rfl, rfl, rfl, rfl⟩

/-- esp-mqtt does not refuse the properties of an answer with `ESP_ERR_INVALID_ARG`. -/
def PropertiesAccepted (_ : Link cfg × RequestLog cfg) (a : LinkAct) : Prop :=
  match a with
  | .task (.respondOwn env) | .task (.respondRes env) => env.property ≠ .invalidArg
  | _ => True

instance (p : Link cfg × RequestLog cfg) (a : LinkAct) : Decidable (PropertiesAccepted p a) :=
  match a with
  | .task a =>
    match a with
    | .respondOwn _ | .respondRes _ => inferInstanceAs (Decidable (_ ≠ _))
    | .wake | .take | .handle _ | .giveBack | .callBegin _ _ | .callClear | .callPublish _
    | .callWake | .callTimeout | .callEnd | .callReturn => inferInstanceAs (Decidable True)
  | .first _ _ | .next _ | .connected _ | .disconnected | .otherEvent | .mqtt | .requestReport
  | .stop => inferInstanceAs (Decidable True)

/-- Recording the answer to the request handled last. -/
theorem Serving.record {l : Link cfg} {h : RequestLog cfg} {idx : Nat} (hinv : Serving l h)
    (hidx : l.dev.taskPc.answering = some idx) (p : Option Published)
    (hp : ∀ q, p = some q → AnswersSlot (l.dev.rpc.slots idx) q) :
    (∀ e ∈ (h.record p).sent, ∃ slot, h.handled[e.1]? = some slot ∧ AnswersSlot slot e.2) ∧
      ((h.record p).sent.map Prod.fst).Pairwise (· < ·) := by
  obtain ⟨hlast, hbefore⟩ := hinv.current idx hidx
  cases p with
  | none =>
    have hsent : (h.record none).sent = h.sent := List.append_nil _
    rw [hsent]
    exact ⟨hinv.sent, hinv.once⟩
  | some q =>
    have hsent : (h.record (some q)).sent = h.sent ++ [(h.handled.length - 1, q)] := rfl
    rw [hsent]
    constructor
    · intro e he
      rcases List.mem_append.mp he with hold | hnew
      · exact hinv.sent e hold
      · rw [List.mem_singleton.mp hnew]
        refine ⟨l.dev.rpc.slots idx, ?_, hp q rfl⟩
        rw [← List.getLast?_eq_getElem?]
        exact hlast
    · rw [List.map_append, List.pairwise_append]
      refine ⟨hinv.once, List.pairwise_singleton _ _, ?_⟩
      intro k hk n hn
      obtain ⟨e, he, rfl⟩ := List.mem_map.mp hk
      have hlt := hbefore e he
      rw [List.mem_singleton.mp hn]
      show e.1 < h.handled.length - 1
      omega

/-- **Step lemma**: the request task moves. -/
theorem Serving.task {l : Link cfg} {dev : Device cfg} {h : RequestLog cfg} {a : TaskAct}
    (hinv : Serving l h) (hg : PropertiesAccepted (l, h) (.task a))
    (hst : Device.TaskStep l.dev a dev) :
    Serving ⟨dev, l.cur⟩ (RequestLog.onTask l.dev a h) := by
  have horder := hinv.order.task hst
  unfold RequestLog.onTask at horder ⊢
  cases hst with
  | @take idx rest hpc hready =>
    rw [hpc] at horder ⊢
    exact ⟨horder, by rintro i ⟨⟩, by rintro i b ⟨⟩, hinv.sent, hinv.once⟩
  | @handle idx body hpc =>
    rw [hpc] at horder ⊢
    refine ⟨horder, ?_, by rintro idx body ⟨⟩, ?_, hinv.once⟩
    · rintro i ⟨⟩
      refine ⟨List.getLast?_concat, fun e he => ?_⟩
      obtain ⟨slot, hslot, -⟩ := hinv.sent e he
      obtain ⟨hlt, -⟩ := List.getElem?_eq_some_iff.mp hslot
      show e.1 + 1 < (h.handled ++ [_]).length
      rw [List.length_append]
      simp only [List.length_singleton]
      omega
    · intro e he
      obtain ⟨slot, hslot, hans⟩ := hinv.sent e he
      obtain ⟨hlt, -⟩ := List.getElem?_eq_some_iff.mp hslot
      exact ⟨slot, (List.getElem?_append_left hlt).trans hslot, hans⟩
  | @respondOwnForeign idx body env hpc hret =>
    -- The first publish reached nobody, so the second is the first to be recorded.
    have henv : env.property ≠ .invalidArg := hg
    obtain ⟨hnone, hown⟩ := Device.respondOwn_invalidArg henv hret
    have hsent : (h.record none).sent = h.sent := List.append_nil _
    rw [hpc] at horder ⊢
    dsimp only at horder ⊢
    rw [hnone] at horder ⊢
    refine ⟨horder, ?_, ?_, ?_, ?_⟩
    · rintro i ⟨⟩
      rw [hsent]
      exact hinv.current idx (by rw [hpc]; rfl)
    · rintro i b ⟨⟩
      exact hown
    · rw [hsent]
      exact hinv.sent
    · rw [hsent]
      exact hinv.once
  | @respondOwn idx body env hpc hret =>
    have hidx : l.dev.taskPc.answering = some idx := by rw [hpc]; rfl
    obtain ⟨hsent, honce⟩ := hinv.record hidx (l.dev.respondOwn idx body env).2
      fun q hq => Device.respondOwn_sent hq
    rw [hpc] at horder ⊢
    exact ⟨horder, by rintro i ⟨⟩, by rintro i b ⟨⟩, hsent, honce⟩
  | @respondRes idx body env hpc =>
    have hown := hinv.foreign idx body hpc
    have hidx : l.dev.taskPc.answering = some idx := by rw [hpc]; rfl
    obtain ⟨hsent, honce⟩ := hinv.record hidx (l.dev.respondRes idx body env).2
      fun q hq => Device.respondRes_sent hown hq
    rw [hpc] at horder ⊢
    exact ⟨horder, by rintro i ⟨⟩, by rintro i b ⟨⟩, hsent, honce⟩
  | @giveBack idx rpc hpc hrpc =>
    obtain ⟨q, -, rfl⟩ := Option.map_eq_some_iff.mp hrpc
    rw [hpc] at horder ⊢
    exact ⟨horder, by rintro i ⟨⟩, by rintro i b ⟨⟩, hinv.sent, hinv.once⟩
  | wake hpc => exact ⟨horder, hinv.current, hinv.foreign, hinv.sent, hinv.once⟩
  | giveBackFull hpc | callBegin hpc | callClear hpc | callPublish hpc | callPublishFailed hpc
  | callWake hpc | callTimeout hpc | callEnd hpc | callReturn hpc =>
    rw [hpc] at horder ⊢
    exact ⟨horder, by rintro i ⟨⟩, by rintro i b ⟨⟩, hinv.sent, hinv.once⟩

/-- A step of the link is one of the request task, or leaves its half to itself. -/
theorem task_or_submits {l l' : Link cfg} (h : RequestLog cfg) {a : LinkAct} (hk : l.dev.Kept)
    (hst : l.step a = some l') :
    (∃ t dev, a = .task t ∧ Device.TaskStep l.dev t dev ∧ l' = ⟨dev, l.cur⟩) ∨
      ∃ new, Submits l h l' (RequestLog.update l a l' h) new := by
  obtain ⟨b, hb⟩ := Link.step_dev hst
  have hframe := fun i => hk.frame (i := i) hb
  have hquiet : l'.dev.taskPc = l.dev.taskPc →
      l'.dev.rpc.readySlots = l.dev.rpc.readySlots → Submits l h l' h [] := by
    intro htask hready
    exact ⟨htask, by rw [hready, List.append_nil], hframe, (List.append_nil _).symm, rfl, rfl⟩
  have hevent : ∀ e, l'.dev = l.dev.event e → Submits l h l' h [] := by
    intro e he
    obtain ⟨⟨q, hq⟩, htask, -⟩ := hk.settled.event_frame e
    exact hquiet (by rw [he, htask]) (by rw [he, hq])
  cases Link.step_cases hst with
  | @first m len => exact .inr ⟨[], hevent (.data (m.fragment 0 len)) rfl⟩
  | @next m off len => exact .inr ⟨[], hevent (.data (m.fragment off len)) rfl⟩
  | @connected subscribed => exact .inr ⟨[], hevent (.connected subscribed) rfl⟩
  | disconnected => exact .inr ⟨[], hevent .disconnected rfl⟩
  | otherEvent | requestReport | stop => exact .inr ⟨[], hquiet rfl rfl⟩
  | @mqtt dev hdev =>
    obtain ⟨htask, hready, hsub, hhandled, hsent⟩ :=
      ready_mqtt h (hk.settled.mqttStep_cases hdev)
    exact .inr ⟨l.submitting, htask, hready, hframe, hsub, hhandled, hsent⟩
  | task hdev => exact .inl ⟨_, _, rfl, hdev, rfl⟩

/-- **Step lemma**: any step of the link. -/
theorem HandledInOrder.step {l l' : Link cfg} {h : RequestLog cfg} {a : LinkAct} (hk : l.dev.Kept)
    (hinv : HandledInOrder l h) (hst : l.step a = some l') :
    HandledInOrder l' (RequestLog.update l a l' h) := by
  rcases task_or_submits h hk hst with ⟨t, dev, rfl, hdev, rfl⟩ | ⟨new, hnew⟩
  · exact hinv.task hdev
  · exact hinv.congr hnew

/-- **Step lemma**: any step of the link. -/
theorem Serving.step {l l' : Link cfg} {h : RequestLog cfg} {a : LinkAct} (hk : l.dev.Kept)
    (hinv : Serving l h) (hg : PropertiesAccepted (l, h) a) (hst : l.step a = some l') :
    Serving l' (RequestLog.update l a l' h) := by
  rcases task_or_submits h hk hst with ⟨t, dev, rfl, hdev, rfl⟩ | ⟨new, hnew⟩
  · exact hinv.task hg hdev
  · exact hinv.congr hnew

/-- The order holds in every reachable state of the logged link. -/
theorem handledInOrder_reach {g : Link cfg × RequestLog cfg → LinkAct → Prop}
    {p : Link cfg × RequestLog cfg} (h : (logged cfg).ReachBy g p) : HandledInOrder p.1 p.2 := by
  have hinit : HandledInOrder ⟨Device.init cfg, none⟩ (RequestLog.empty cfg) := rfl
  refine h.invariant (I := fun p => HandledInOrder p.1 p.2) hinit ?_
  intro p a p' hp hI _ hst
  obtain ⟨hst', hlog⟩ := Lts.withHist_step hst
  rw [hlog]
  exact hI.step (Device.kept_reach (Link.reach_dev (Lts.reach_fst hp))) hst'

/-- **Reassembly.** In every reachable state the requests that arrived completely and
had found a free slot are, in order of arrival, the ones that were submitted, with
payload and length of the message or, when it is larger than the slot, `too_large` and
length 0; only the one that the event handler is about to submit may be missing, none
between two events. Each submitted slot has gone through `ready_slots` once: those that are
not handled yet are the one just taken and the ones in the queue, as they were submitted.
Nothing else was submitted and no write left its array. -/
theorem submitted_due (cfg : Config) {l : Link cfg} {h : RequestLog cfg}
    (hreach : (logged cfg).Reach (l, h)) :
    List.Forall₂ (Carries cfg) (h.due.take h.submitted.length) h.submitted ∧
      h.due.length ≤ h.submitted.length + 1 ∧
      (l.dev.mqttPc = .idle → List.Forall₂ (Carries cfg) h.due h.submitted) ∧
      l.dev.pastEnd = false ∧
      h.submitted = h.handled ++
        (l.dev.taskPc.unhandled.toList ++ l.dev.rpc.readySlots.items).map l.dev.rpc.slots := by
  obtain ⟨hsub, hlen, hidle⟩ := due_reach hreach
  have horder : HandledInOrder l h := handledInOrder_reach hreach
  have hkept := Device.kept_reach (Link.reach_dev (Lts.reach_fst hreach))
  exact ⟨hsub, hlen, hidle, hkept.pastEnd, horder⟩

/-- A request with parameters. -/
def echo : Message where
  topic := ascii "d/a1/down/req/echo"
  property := none
  payload := ascii "{}"

/-- Reassembly at work on a request that arrives in two fragments. -/
theorem submitted_due_echo :
    ∃ p : Link .sample × RequestLog .sample, (logged .sample).Reach p ∧ p.2.due.length = 1 ∧
      List.Forall₂ (Carries .sample) p.2.due p.2.submitted := by
  have hrun : ((logged .sample).run
      [.first echo 1, .mqtt, .mqtt, .mqtt, .next 1, .mqtt, .mqtt, .mqtt]).map
      (fun p => decide (p.2.due.length = 1) && p.1.dev.mqttPc.isIdle) = some true := by
    decide +kernel
  obtain ⟨p, hp, hcheck⟩ := Lts.exists_reach_of_run hrun
  obtain ⟨hdue, hidle⟩ := Bool.and_eq_true_iff.mp hcheck
  exact ⟨p, hp, of_decide_eq_true hdue,
    (submitted_due .sample hp).2.2.1 (MqttPc.eq_idle hidle)⟩

/-- Each submitted slot carries the due message of its place. -/
theorem carries_of_submitted {g : Link cfg × RequestLog cfg → LinkAct → Prop} {l : Link cfg}
    {h : RequestLog cfg} (hreach : (logged cfg).ReachBy g (l, h)) {k : Nat}
    {slot : Slot cfg.payloadMax} (hslot : h.submitted[k]? = some slot) :
    ∃ m, h.due[k]? = some m ∧ Carries cfg m slot := by
  obtain ⟨hall, -, -⟩ := due_reach hreach
  obtain ⟨hk, hget⟩ := List.getElem?_eq_some_iff.mp hslot
  have hkd : k < (h.due.take h.submitted.length).length := by
    rw [hall.length_eq]
    exact hk
  have hcarries := List.Forall₂.get hall hkd hk
  rw [List.get_eq_getElem, List.get_eq_getElem, List.getElem_take, hget] at hcarries
  exact ⟨_, List.getElem?_eq_getElem _, hcarries⟩

/-- The invariant holds in every reachable state of the logged link. -/
theorem serving_reach {p : Link cfg × RequestLog cfg}
    (h : (logged cfg).ReachBy PropertiesAccepted p) : Serving p.1 p.2 := by
  have hinit : Serving ⟨Device.init cfg, none⟩ (RequestLog.empty cfg) := by
    refine ⟨rfl, by rintro idx ⟨⟩, by rintro idx body ⟨⟩, ?_, .nil⟩
    intro e he
    cases he
  refine h.invariant (I := fun p => Serving p.1 p.2) hinit ?_
  intro p a p' hp hI hg hst
  obtain ⟨hst', hlog⟩ := Lts.withHist_step hst
  rw [hlog]
  exact hI.step (Device.kept_reach (Link.reach_dev (Lts.reach_fst hp))) hg hst'

/-- **Answers.** In every reachable state the requests handled so far are the first ones
submitted, in that order and as they were submitted, and the others are still waiting;
each handled request has made at most one message reach esp-mqtt, and that message
answers the very message that the request came from. -/
theorem answers_match (cfg : Config) {l : Link cfg} {h : RequestLog cfg}
    (hreach : (logged cfg).ReachBy PropertiesAccepted (l, h)) :
    h.handled <+: h.submitted ∧
      h.submitted.length = h.handled.length + l.dev.taskPc.unhandled.toList.length +
        l.dev.rpc.readySlots.items.length ∧
      (h.sent.map Prod.fst).Pairwise (· < ·) ∧
      ∀ k p, (k, p) ∈ h.sent → ∃ m slot, h.due[k]? = some m ∧ h.handled[k]? = some slot ∧
        Carries cfg m slot ∧ Answers cfg m p := by
  obtain ⟨horder, -, -, hsent, honce⟩ := serving_reach hreach
  dsimp only at horder hsent honce
  rw [HandledInOrder] at horder
  refine ⟨⟨_, horder.symm⟩, ?_, honce, ?_⟩
  · rw [horder]
    simp only [Link.waiting, List.length_append, List.length_map]
    omega
  · intro k p hkp
    obtain ⟨slot, hslot, hans⟩ := hsent (k, p) hkp
    obtain ⟨hk, -⟩ := List.getElem?_eq_some_iff.mp hslot
    have hsub : h.submitted[k]? = some slot := by
      rw [horder, List.getElem?_append_left hk]
      exact hslot
    obtain ⟨m, hdue, hcarries⟩ := carries_of_submitted hreach hsub
    exact ⟨m, slot, hdue, hslot, hcarries, hans.answers hcarries⟩

/-- A request that names its own response topic and a correlation. -/
def ask : Message where
  topic := ascii "d/a1/down/req/echo"
  property := some { correlationData := ascii "42", responseTopic := ascii "d/a1/up/inbox" }
  payload := ascii "{}"
  topic_nul := echo.topic_nul

/-- One request, answered. -/
theorem answers_match_ask :
    ∃ p : Link .sample × RequestLog .sample,
      (logged .sample).ReachBy PropertiesAccepted p ∧ p.2.handled <+: p.2.submitted ∧
        ∃ q m, (0, q) ∈ p.2.sent ∧ p.2.due[0]? = some m ∧ Answers .sample m q := by
  have hrun : ((logged .sample).runBy PropertiesAccepted (logged .sample).init
      [.connected true, .mqtt, .first ask 2, .mqtt, .mqtt, .mqtt, .mqtt, .mqtt, .task .take,
        .task (.handle (ascii "{}")), .task (.respondOwn ⟨true, .ok, 7⟩)]).map
      (fun p => decide (p.2.sent.map Prod.fst = [0])) = some true := by
    decide +kernel
  obtain ⟨p, hp, hcheck⟩ := Lts.exists_reachBy_of_runBy hrun
  obtain ⟨hpre, -, -, hans⟩ := answers_match .sample hp
  obtain ⟨e, he, he0⟩ := List.mem_map.mp
    (of_decide_eq_true hcheck ▸ List.mem_singleton_self 0 : (0 : Nat) ∈ p.2.sent.map Prod.fst)
  have hmem : (0, e.2) ∈ p.2.sent := he0 ▸ he
  obtain ⟨m, slot, hdue, -, -, hm⟩ := hans 0 e.2 hmem
  exact ⟨p, hp, hpre, e.2, m, hmem, hdue, hm⟩

end SoulCloud
