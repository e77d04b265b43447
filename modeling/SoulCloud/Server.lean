import SoulCloud.Desk

/-!
# The device as a server

`link cfg` leaves the answer to a request open. Here the request task runs the real `handle` on
the slot it took, with the method table, on the response buffer as the last answer left it, and
on a state that other tasks may change at any time.

- `serving`: the two tasks with the real `handle`.
- `atDesk`: what their state means when requests are served one after the other.
- `serving_step`: a step of the server is a step of the desk, or none.
- `serving_refines`, `served_sequentially`, `answers_whole`: what follows for every run.
-/

namespace SoulCloud

open Bytes
open Device (TaskAct)

variable {cfg : Config} {σ : Type}

/-! ## The two tasks with the real `handle` -/

/-- The device with what `handle` reads and writes. -/
structure Server (cfg : Config) (svc : Service σ) where
  link : Link cfg
  /-- `resp_buf`. -/
  respBuf : Buf svc.resultMax
  /-- What the handlers share with the rest of the firmware. -/
  app : σ

inductive ServerAct (σ : Type) where
  /-- Any step of the link but running a handler. -/
  | link (a : LinkAct)
  /-- The request task runs `handle` on the slot it took. -/
  | handle
  /-- Other tasks change what the handlers share with them. -/
  | outside (app : σ)

/-- This step of the link decides the body of an answer. -/
def LinkAct.runsHandler : LinkAct → Bool
  | .task (.handle _) => true
  | _ => false

namespace ServerAct

/-- A change that neither task makes. -/
def IsOutside : ServerAct σ → Prop
  | .outside _ => True
  | _ => False

instance (a : ServerAct σ) : Decidable a.IsOutside :=
  match a with
  | .outside _ => inferInstanceAs (Decidable True)
  | .link _ | .handle => inferInstanceAs (Decidable False)

end ServerAct

namespace Server

variable {svc : Service σ}

def step (s : Server cfg svc) : ServerAct σ → Option (Server cfg svc)
  | .link a =>
    if a.runsHandler then none else (s.link.step a).map fun link => { s with link }
  | .handle =>
    match s.link.dev.taskPc with
    | .handling idx =>
      let slot := s.link.dev.rpc.slots idx
      let handled := SoulCloud.handle svc.errName svc.methods slot s.respBuf s.app
      (s.link.step (.task (.handle handled.1))).map fun link =>
        ⟨link, svc.leftBuf slot s.respBuf s.app, handled.2⟩
    | _ => none
  | .outside app => some { s with app }

/-- The steps of the server by label. -/
inductive Step (s : Server cfg svc) : ServerAct σ → Server cfg svc → Prop
  | link {a : LinkAct} {link : Link cfg} (ha : a.runsHandler = false)
      (hst : s.link.step a = some link) : Step s (.link a) { s with link }
  | handle {idx : Nat} {body : Bytes} {app : σ} {link : Link cfg}
      (hpc : s.link.dev.taskPc = .handling idx)
      (hbody : SoulCloud.handle svc.errName svc.methods (s.link.dev.rpc.slots idx) s.respBuf s.app =
        (body, app))
      (hst : s.link.step (.task (.handle body)) = some link)
      (hlink : link = ⟨{ s.link.dev with taskPc := .responding idx body }, s.link.cur⟩) :
      Step s .handle ⟨link, svc.leftBuf (s.link.dev.rpc.slots idx) s.respBuf s.app, app⟩
  | outside {app : σ} : Step s (.outside app) { s with app }

theorem step_cases {s s' : Server cfg svc} {a : ServerAct σ} (h : s.step a = some s') :
    Step s a s' := by
  cases a with
  | link a =>
    simp only [step] at h
    split at h
    · cases h
    · rename_i ha
      obtain ⟨link, hst, rfl⟩ := Option.map_eq_some_iff.mp h
      exact .link (Bool.eq_false_iff.mpr ha) hst
  | handle =>
    simp only [step] at h
    split at h
    · rename_i idx hpc
      obtain ⟨link, hst, rfl⟩ := Option.map_eq_some_iff.mp h
      refine .handle hpc rfl hst ?_
      cases Link.step_cases hst with
      | task hdev =>
        cases hdev with
        | handle hpc' =>
          rw [hpc] at hpc'
          cases hpc'
          rfl
    · cases h
  | outside app =>
    cases h
    exact .outside

end Server

/-- What happened to the requests, and the bodies that `handle` passed to `respond`. -/
structure ServerLog (cfg : Config) where
  requests : RequestLog cfg
  bodies : List Bytes

namespace ServerLog

/-- The body that `respond` is about to publish. -/
def begun : TaskPc → Option Bytes
  | .responding _ body => some body
  | .respondingRes _ body => some body
  | _ => none

def update {svc : Service σ} (s : Server cfg svc) (a : ServerAct σ) (s' : Server cfg svc)
    (h : ServerLog cfg) : ServerLog cfg :=
  match a with
  | .link a => { h with requests := RequestLog.update s.link a s'.link h.requests }
  | .handle =>
    match begun s'.link.dev.taskPc with
    | some body =>
      ⟨RequestLog.update s.link (.task (.handle body)) s'.link h.requests, h.bodies ++ [body]⟩
    | none => h
  | .outside _ => h

end ServerLog

/-- The server, from a response buffer that `malloc` left as it was. -/
def serving (cfg : Config) (svc : Service σ) (respBuf : Buf svc.resultMax) (app : σ) :
    Lts (Server cfg svc × ServerLog cfg) (ServerAct σ) :=
  (Lts.mk ⟨⟨Device.init cfg, none⟩, respBuf, app⟩ Server.step).withHist
    ⟨RequestLog.empty cfg, []⟩ ServerLog.update

/-- esp-mqtt does not refuse the properties of an answer with `ESP_ERR_INVALID_ARG`. -/
def AnswersAccepted {svc : Service σ} (p : Server cfg svc × ServerLog cfg) : ServerAct σ → Prop
  | .link a => PropertiesAccepted (p.1.link, p.2.requests) a
  | _ => True

instance {svc : Service σ} (p : Server cfg svc × ServerLog cfg) (a : ServerAct σ) :
    Decidable (AnswersAccepted p a) :=
  match a with
  | .link a => inferInstanceAs (Decidable (PropertiesAccepted (p.1.link, p.2.requests) a))
  | .handle | .outside _ => inferInstanceAs (Decidable True)

/-- What the tasks' state means at the desk. -/
def atDesk {svc : Service σ} (p : Server cfg svc × ServerLog cfg) : Desk σ where
  waiting := p.2.requests.due.drop p.2.requests.handled.length
  app := p.1.app
  served := (p.2.requests.due.take p.2.requests.handled.length).zip p.2.bodies
  sent := p.2.requests.sent

/-! ## The run of the server is a run of the desk -/

variable {svc : Service σ} {respBuf : Buf svc.resultMax} {app : σ}

/-- A run of the server is one of the logged link. -/
theorem serving_logged {p : Server cfg svc × ServerLog cfg}
    (h : (serving cfg svc respBuf app).ReachBy AnswersAccepted p) :
    (logged cfg).ReachBy PropertiesAccepted (p.1.link, p.2.requests) := by
  refine h.map (T := logged cfg) (f := fun p => (p.1.link, p.2.requests)) rfl ?_
  rintro ⟨s, h⟩ a ⟨s', h'⟩ - - hg hst
  have hstep : s.step a = some s' := (Lts.withHist_step hst).1
  obtain rfl : h' = ServerLog.update s a s' h := (Lts.withHist_step hst).2
  have hlift : ∀ {b : LinkAct} {link : Link cfg}, s.link.step b = some link →
      (logged cfg).step (s.link, h.requests) b =
        some (link, RequestLog.update s.link b link h.requests) := by
    intro b link hb
    exact congrArg (Option.map _) hb
  cases Server.step_cases hstep with
  | @link b link hb hlink => exact .inr ⟨b, hg, hlift hlink⟩
  | @handle idx body app' link hpc hbody hlink heq =>
    subst heq
    exact .inr ⟨.task (.handle body), trivial, hlift hlink⟩
  | outside => exact .inl rfl

/-- The message being received is a request if it was noted to have found a slot. -/
def Sought (l : Link cfg) (found : Bool) : Prop :=
  (∀ evt, l.dev.mqttPc ≠ .route evt) → found = true →
    ∀ m off, l.cur = some (m, off) → m.IsRequest cfg

/-- **Step lemma**: any step of the link. -/
theorem Sought.step {l l' : Link cfg} {h : RequestLog cfg} {a : LinkAct}
    (hinv : Sought l h.found) (hst : l.step a = some l') :
    Sought l' (RequestLog.update l a l' h).found := by
  have hidle : l.dev.mqttPc = .idle → ∀ evt, l.dev.mqttPc ≠ .route evt := by
    rintro hpc evt hroute
    rw [hpc] at hroute
    cases hroute
  cases Link.step_cases hst with
  | @first m len hpc =>
    intro hno
    have hevent := l.dev.event_first (m.fragment 0 len) rfl
    exact absurd (congrArg Device.mqttPc hevent) (hno _)
  | @next m off len hpc hcur =>
    rintro - hfound m' off' ⟨⟩
    exact hinv (hidle hpc) hfound m off hcur
  | @connected subscribed hpc => exact fun _ => hinv (hidle hpc)
  | disconnected => rintro - - m off ⟨⟩
  | otherEvent | requestReport | stop => exact hinv
  | @mqtt dev hdev =>
    intro _ hfound m off hcur
    by_cases hroute : ∃ evt, l.dev.mqttPc = .route evt
    · obtain ⟨evt, hroute⟩ := hroute
      have hcur : l.cur = some (m, off) := hcur
      have hfinds : RequestLog.finds l = true := (RequestLog.onMqtt_route hroute).symm.trans hfound
      rw [finds_of_cur hcur, Bool.and_eq_true, decide_eq_true_eq] at hfinds
      exact hfinds.1
    · have hno : ∀ evt, l.dev.mqttPc ≠ .route evt := fun evt hpc => hroute ⟨evt, hpc⟩
      exact hinv hno ((RequestLog.onMqtt_found hno).symm.trans hfound) m off hcur
  | @task a dev hdev =>
    have hpc : dev.mqttPc = l.dev.mqttPc := by
      cases hdev <;> rfl
    intro hno hfound
    exact hinv (fun evt hroute => hno evt (hpc.trans hroute))
      ((RequestLog.onTask_received l.dev a h).1.symm.trans hfound)

theorem sought_reach {g : Link cfg × RequestLog cfg → LinkAct → Prop}
    {p : Link cfg × RequestLog cfg} (h : (logged cfg).ReachBy g p) : Sought p.1 p.2.found := by
  have hinit : Sought ⟨Device.init cfg, none⟩ (RequestLog.empty cfg).found := by
    rintro - ⟨⟩
  refine h.invariant (I := fun p => Sought p.1 p.2.found) hinit ?_
  intro p a p' _ hI _ hst
  obtain ⟨hst', hlog⟩ := Lts.withHist_step hst
  rw [hlog]
  exact hI.step hst'

/-- The bodies are those of the handled requests, and the request task is about to publish the
last one. -/
structure Bodied (l : Link cfg) (h : ServerLog cfg) : Prop where
  length : h.bodies.length = h.requests.handled.length
  begun : ∀ body, ServerLog.begun l.dev.taskPc = some body → h.bodies.getLast? = some body

/-- Only running a handler extends what was handled. -/
theorem onTask_handled (s : Device cfg) {a : TaskAct} (ha : (LinkAct.task a).runsHandler = false)
    (h : RequestLog cfg) : (RequestLog.onTask s a h).handled = h.handled := by
  unfold RequestLog.onTask
  split
  · cases ha
  · rfl
  · rfl
  · rfl

/-- A step of the link that does not run a handler: no more is handled, and no other body is
about to be published. -/
theorem update_handled {l l' : Link cfg} {a : LinkAct} (hk : l.dev.Kept) (h : RequestLog cfg)
    (ha : a.runsHandler = false) (hst : l.step a = some l') :
    (RequestLog.update l a l' h).handled = h.handled ∧
      ∀ body, ServerLog.begun l'.dev.taskPc = some body →
        ServerLog.begun l.dev.taskPc = some body := by
  rcases task_or_submits h hk hst with ⟨t, dev, rfl, hdev, rfl⟩ | ⟨new, hnew⟩
  · refine ⟨onTask_handled _ ha h, fun body hbody => ?_⟩
    cases hdev with
    | handle => cases ha
    | respondOwnForeign hpc =>
      rw [hpc]
      exact hbody
    | wake => exact hbody
    | _ => cases hbody
  · refine ⟨hnew.handled, fun body hbody => ?_⟩
    rw [hnew.task] at hbody
    exact hbody

/-- **Step lemma**: any step of the server. -/
theorem Bodied.step {s s' : Server cfg svc} {h : ServerLog cfg} {a : ServerAct σ}
    (hk : s.link.dev.Kept) (hinv : Bodied s.link h) (hst : s.step a = some s') :
    Bodied s'.link (ServerLog.update s a s' h) := by
  cases Server.step_cases hst with
  | @link b link hb hlink =>
    obtain ⟨hhandled, hbegun⟩ := update_handled hk h.requests hb hlink
    refine ⟨?_, fun body hbody => hinv.begun body (hbegun body hbody)⟩
    show h.bodies.length = (RequestLog.update s.link b link h.requests).handled.length
    rw [hhandled]
    exact hinv.length
  | @handle idx body app link hpc hbody hlink heq =>
    subst heq
    have hlog : RequestLog.onTask s.link.dev (.handle body) h.requests =
        { h.requests with
          handled := h.requests.handled ++ [s.link.dev.rpc.slots idx] } := by
      rw [RequestLog.onTask]
      rw [hpc]
    constructor
    · show (h.bodies ++ [body]).length =
        (RequestLog.onTask s.link.dev (.handle body) h.requests).handled.length
      rw [hlog, List.length_append, List.length_append, hinv.length]
      rfl
    · rintro body' ⟨⟩
      exact List.getLast?_concat
  | outside => exact hinv

/-- The invariant holds in every reachable state of the server. -/
theorem bodied_reach {p : Server cfg svc × ServerLog cfg}
    (h : (serving cfg svc respBuf app).ReachBy AnswersAccepted p) : Bodied p.1.link p.2 := by
  have hinit : Bodied ⟨Device.init cfg, none⟩ ⟨RequestLog.empty cfg, []⟩ := ⟨rfl, by rintro b ⟨⟩⟩
  refine h.invariant (I := fun p => Bodied p.1.link p.2) hinit ?_
  intro p a p' hp hI _ hst
  obtain ⟨hst', hlog⟩ := Lts.withHist_step hst
  rw [hlog]
  exact hI.step (Device.kept_reach (Link.reach_dev (Lts.reach_fst (serving_logged hp)))) hst'

/-- What reaches esp-mqtt when an answer is published is that answer. -/
theorem AnswersSlot.answerTo {m : Message} {slot : Slot cfg.payloadMax} {p : Published}
    {body : Bytes} (h : AnswersSlot slot p) (hm : Carries cfg m slot) (hdata : p.data = body)
    (hqos : p.qos = 1) : p = answerTo cfg m body := by
  obtain ⟨topic, data, qos, props⟩ := p
  obtain ⟨htopic, -, hprops⟩ := h.answers hm
  dsimp only at hdata hqos htopic hprops
  rw [SoulCloud.answerTo, htopic, hdata, hqos, hprops]

theorem respondOwn_body {s : Device cfg} {idx : Nat} {body : Bytes} {env : PublishEnv}
    {p : Published} (h : (s.respondOwn idx body env).2 = some p) : p.data = body ∧ p.qos = 1 := by
  unfold Device.respondOwn at h
  dsimp only at h
  split at h
  · obtain ⟨rfl, -⟩ := publishTopic_sent h
    exact ⟨rfl, rfl⟩
  · cases h

theorem respondRes_body {s : Device cfg} {idx : Nat} {body : Bytes} {env : PublishEnv}
    {p : Published} (h : (s.respondRes idx body env).2 = some p) : p.data = body ∧ p.qos = 1 := by
  rw [Device.respondRes] at h
  rw [publish_of_short (by decide)] at h
  obtain ⟨rfl, -⟩ := publishTopic_sent h
  exact ⟨rfl, rfl⟩

/-- A step of the request task other than running a handler: it publishes the answer to the
request handled last, or nothing. -/
theorem sent_task {l : Link cfg} {dev : Device cfg} {h : RequestLog cfg} {a : TaskAct}
    (hinv : Serving l h) (hg : PropertiesAccepted (l, h) (.task a))
    (hst : Device.TaskStep l.dev a dev) :
    (RequestLog.onTask l.dev a h).sent = h.sent ∨
      ∃ idx body p, l.dev.taskPc.answering = some idx ∧
        ServerLog.begun l.dev.taskPc = some body ∧ AnswersSlot (l.dev.rpc.slots idx) p ∧
        p.data = body ∧ p.qos = 1 ∧
        (RequestLog.onTask l.dev a h).sent = h.sent ++ [(h.handled.length - 1, p)] := by
  unfold RequestLog.onTask
  cases hst with
  | @respondOwnForeign idx body env hpc hret =>
    have henv : env.property ≠ .invalidArg := hg
    left
    rw [hpc]
    dsimp only
    rw [(Device.respondOwn_invalidArg henv hret).1]
    exact List.append_nil _
  | @respondOwn idx body env hpc hret =>
    rw [hpc]
    dsimp only
    cases hp : (l.dev.respondOwn idx body env).2 with
    | none => exact .inl (List.append_nil _)
    | some p =>
      obtain ⟨hdata, hqos⟩ := respondOwn_body hp
      exact .inr ⟨idx, body, p, rfl, rfl, Device.respondOwn_sent hp, hdata, hqos, rfl⟩
  | @respondRes idx body env hpc =>
    have hown := hinv.foreign idx body hpc
    rw [hpc]
    dsimp only
    cases hp : (l.dev.respondRes idx body env).2 with
    | none => exact .inl (List.append_nil _)
    | some p =>
      obtain ⟨hdata, hqos⟩ := respondRes_body hp
      exact .inr ⟨idx, body, p, rfl, rfl, Device.respondRes_sent hown hp, hdata, hqos, rfl⟩
  | @handle idx body hpc =>
    rw [hpc]
    exact .inl rfl
  | wake hpc | take hpc | giveBack hpc | giveBackFull hpc | callBegin hpc | callClear hpc
  | callPublish hpc | callPublishFailed hpc | callWake hpc | callTimeout hpc | callEnd hpc
  | callReturn hpc => exact .inl rfl

/-- A request becomes due with its last fragment. -/
theorem due_onMqtt (l : Link cfg) (h : RequestLog cfg) :
    (RequestLog.onMqtt l h).due = h.due ∨
      ∃ evt m off, l.dev.mqttPc = .data evt ∧ h.found = true ∧ l.cur = some (m, off) ∧
        (RequestLog.onMqtt l h).due = h.due ++ [m] := by
  rw [RequestLog.onMqtt]
  split
  · exact .inl rfl
  · rename_i evt hpc
    split
    · rename_i hlast
      obtain ⟨hfound, hcomplete⟩ := Bool.and_eq_true_iff.mp hlast
      cases hcur : l.cur with
      | none =>
        rw [RequestLog.complete] at hcomplete
        rw [hcur] at hcomplete
        cases hcomplete
      | some cur => exact .inr ⟨evt, cur.1, cur.2, hpc, hfound, rfl, rfl⟩
    · exact .inl rfl
  · exact .inl rfl
  · exact .inl rfl

/-- Whatever was handled had arrived. -/
theorem handled_le_due {g : Link cfg × RequestLog cfg → LinkAct → Prop} {l : Link cfg}
    {h : RequestLog cfg} (hreach : (logged cfg).ReachBy g (l, h)) :
    h.handled.length ≤ h.due.length := by
  have horder : HandledInOrder l h := handledInOrder_reach hreach
  obtain ⟨-, done, hdone, hall⟩ := assembling_reach hreach
  have hlen := hall.length_eq
  dsimp only at hdone hlen
  rw [hdone, List.length_append, hlen, horder, List.length_append]
  omega

/-- The handled request of a number, and the message it came from. -/
theorem due_of_handled {g : Link cfg × RequestLog cfg → LinkAct → Prop} {l : Link cfg}
    {h : RequestLog cfg} (hreach : (logged cfg).ReachBy g (l, h)) {k : Nat}
    {slot : Slot cfg.payloadMax} (hslot : h.handled[k]? = some slot) :
    ∃ m, h.due[k]? = some m ∧ Carries cfg m slot := by
  have horder : HandledInOrder l h := handledInOrder_reach hreach
  obtain ⟨hk, -⟩ := List.getElem?_eq_some_iff.mp hslot
  refine carries_of_submitted hreach ?_
  rw [horder, List.getElem?_append_left hk]
  exact hslot

/-- What is at the desk: a request that has arrived waits until it is handled. -/
theorem atDesk_arrive {q : Server cfg svc} {h h' : ServerLog cfg} {s' : Server cfg svc}
    {m : Message} (hle : h.requests.handled.length ≤ h.requests.due.length)
    (happ : s'.app = q.app) (hdue : h'.requests.due = h.requests.due ++ [m])
    (hhandled : h'.requests.handled = h.requests.handled)
    (hsent : h'.requests.sent = h.requests.sent) (hbodies : h'.bodies = h.bodies)
    (hreq : m.IsRequest cfg) :
    (atDesk (q, h)).step cfg svc (.arrive m) = some (atDesk (s', h')) := by
  rw [Desk.step]
  rw [if_pos hreq]
  simp only [atDesk, happ, hdue, hhandled, hsent, hbodies]
  rw [List.drop_append_of_le_length hle, List.take_append_of_le_length hle]

/-- What is at the desk does not depend on anything else. -/
theorem atDesk_congr {q s' : Server cfg svc} {h h' : ServerLog cfg} (happ : s'.app = q.app)
    (hdue : h'.requests.due = h.requests.due)
    (hhandled : h'.requests.handled = h.requests.handled)
    (hsent : h'.requests.sent = h.requests.sent) (hbodies : h'.bodies = h.bodies) :
    atDesk (s', h') = atDesk (q, h) := by
  simp only [atDesk, happ, hdue, hhandled, hsent, hbodies]

/-- The answer that is published is the one to the request served last, which has none yet. -/
theorem atDesk_answer {s s' : Server cfg svc} {h h' : ServerLog cfg} {idx : Nat} {body : Bytes}
    {p : Published} (hreach : (logged cfg).ReachBy PropertiesAccepted (s.link, h.requests))
    (hbodied : Bodied s.link h) (hidx : s.link.dev.taskPc.answering = some idx)
    (hbody : h.bodies.getLast? = some body)
    (hp : ∀ m, Carries cfg m (s.link.dev.rpc.slots idx) → p = answerTo cfg m body)
    (happ : s'.app = s.app) (hdue : h'.requests.due = h.requests.due)
    (hhandled : h'.requests.handled = h.requests.handled)
    (hsent : h'.requests.sent = h.requests.sent ++ [(h.requests.handled.length - 1, p)])
    (hbodies : h'.bodies = h.bodies) :
    (atDesk (s, h)).step cfg svc .answer = some (atDesk (s', h')) := by
  obtain ⟨hlast, hbefore⟩ := (serving_reach hreach).current idx hidx
  dsimp only at hlast hbefore
  rw [List.getLast?_eq_getElem?] at hlast hbody
  obtain ⟨m, hm, hcarries⟩ := due_of_handled hreach hlast
  have hlength : (atDesk (s, h)).served.length = h.requests.handled.length := by
    show ((h.requests.due.take h.requests.handled.length).zip h.bodies).length = _
    rw [List.length_zip, List.length_take, hbodied.length,
      Nat.min_eq_left (handled_le_due hreach), Nat.min_self]
  have hserved : (atDesk (s, h)).served.getLast? = some (m, body) := by
    rw [List.getLast?_eq_getElem?, hlength]
    show ((h.requests.due.take h.requests.handled.length).zip h.bodies)[_]? = _
    obtain ⟨hlt, -⟩ := List.getElem?_eq_some_iff.mp hlast
    rw [List.getElem?_zip_eq_some]
    constructor
    · rw [List.getElem?_take_of_lt hlt]
      exact hm
    · rw [← hbodied.length]
      exact hbody
  have hopen : (atDesk (s, h)).Unanswered := by
    intro e he
    rw [hlength]
    exact hbefore e he
  rw [Desk.step]
  rw [hserved]
  dsimp only
  rw [if_pos hopen, hlength, ← hp m hcarries]
  simp only [atDesk, happ, hdue, hhandled, hsent, hbodies]

/-- The request that `handle` runs on is the one that has waited longest. -/
theorem atDesk_serve {s : Server cfg svc} {h : ServerLog cfg} {idx : Nat} {body : Bytes} {app : σ}
    {link : Link cfg} (hreach : (logged cfg).ReachBy PropertiesAccepted (s.link, h.requests))
    (hbodied : Bodied s.link h) (hpc : s.link.dev.taskPc = .handling idx)
    (hbody : handle svc.errName svc.methods (s.link.dev.rpc.slots idx) s.respBuf s.app =
      (body, app))
    (hlink : link = ⟨{ s.link.dev with taskPc := .responding idx body }, s.link.cur⟩) :
    (atDesk (s, h)).step cfg svc .serve =
      some (atDesk (⟨link, svc.leftBuf (s.link.dev.rpc.slots idx) s.respBuf s.app, app⟩,
        ServerLog.update s .handle
          ⟨link, svc.leftBuf (s.link.dev.rpc.slots idx) s.respBuf s.app, app⟩ h)) := by
  have horder : HandledInOrder s.link h.requests := handledInOrder_reach hreach
  have hslot : h.requests.submitted[h.requests.handled.length]? =
      some (s.link.dev.rpc.slots idx) := by
    rw [horder, List.getElem?_append_right (Nat.le_refl _), Nat.sub_self]
    rw [Link.waiting]
    rw [hpc]
    rfl
  obtain ⟨m, hm, hcarries⟩ := carries_of_submitted hreach hslot
  obtain ⟨hlt, hget⟩ := List.getElem?_eq_some_iff.mp hm
  rw [svc.handle_carries hcarries] at hbody
  have hlog : RequestLog.onTask s.link.dev (.handle body) h.requests =
      { h.requests with handled := h.requests.handled ++ [s.link.dev.rpc.slots idx] } := by
    rw [RequestLog.onTask]
    rw [hpc]
  have hwaiting : h.requests.due.drop h.requests.handled.length =
      m :: h.requests.due.drop (h.requests.handled.length + 1) := by
    rw [List.drop_eq_getElem_cons hlt, hget]
  have hserved : (h.requests.due.take (h.requests.handled.length + 1)).zip (h.bodies ++ [body]) =
      (h.requests.due.take h.requests.handled.length).zip h.bodies ++ [(m, body)] := by
    rw [List.take_add_one, hm, List.zip_append]
    · rfl
    · rw [List.length_take, hbodied.length, Nat.min_eq_left hlt.le]
  subst hlink
  have hupdate : ServerLog.update s .handle
      ⟨⟨{ s.link.dev with taskPc := .responding idx body }, s.link.cur⟩,
        svc.leftBuf (s.link.dev.rpc.slots idx) s.respBuf s.app, app⟩ h =
      ⟨{ h.requests with handled := h.requests.handled ++ [s.link.dev.rpc.slots idx] },
        h.bodies ++ [body]⟩ := by
    rw [← hlog]
    rfl
  rw [hupdate, Desk.step]
  simp only [atDesk, List.length_append, List.length_singleton]
  rw [hwaiting, hserved]
  dsimp only
  rw [hbody]

/-- **Step lemma**: a step of the server is none at the desk or one, which is a change from outside
only when the server's is. -/
theorem serving_step {s s' : Server cfg svc} {h h' : ServerLog cfg} {a : ServerAct σ}
    (hp : (serving cfg svc respBuf app).ReachBy AnswersAccepted (s, h))
    (hg : AnswersAccepted (s, h) a)
    (hst : (serving cfg svc respBuf app).step (s, h) a = some (s', h')) :
    atDesk (s', h') = atDesk (s, h) ∨
      ∃ b : DeskAct σ, (b.IsOutside → a.IsOutside) ∧
        (atDesk (s, h)).step cfg svc b = some (atDesk (s', h')) := by
  have hstep : s.step a = some s' := (Lts.withHist_step hst).1
  obtain rfl : h' = ServerLog.update s a s' h := (Lts.withHist_step hst).2
  have hreach : (logged cfg).ReachBy PropertiesAccepted (s.link, h.requests) := serving_logged hp
  have hle := handled_le_due hreach
  have hbodied : Bodied s.link h := bodied_reach hp
  cases Server.step_cases hstep with
  | outside => exact .inr ⟨.outside _, id, rfl⟩
  | @handle idx body app link hpc hbody hlink heq =>
    exact .inr ⟨.serve, False.elim, atDesk_serve hreach hbodied hpc hbody heq⟩
  | @link b link hb hlink =>
    have hk := Device.kept_reach (Link.reach_dev (Lts.reach_fst hreach))
    obtain ⟨hhandled, -⟩ := update_handled hk h.requests hb hlink
    cases Link.step_cases hlink with
    | @mqtt dev hdev =>
      obtain ⟨-, -, -, -, hsent⟩ := ready_mqtt h.requests (hk.settled.mqttStep_cases hdev)
      rcases due_onMqtt s.link h.requests with hdue | ⟨evt, m, off, hpc, hfound, hcur, hdue⟩
      · exact .inl (atDesk_congr rfl hdue hhandled hsent rfl)
      · have hreq : m.IsRequest cfg := by
          refine sought_reach hreach ?_ hfound m off hcur
          rintro evt' hroute
          rw [hpc] at hroute
          cases hroute
        exact .inr ⟨.arrive m, False.elim, atDesk_arrive hle rfl hdue hhandled hsent rfl hreq⟩
    | @task t dev hdev =>
      have hdue := (RequestLog.onTask_received s.link.dev t h.requests).2.1
      rcases sent_task (serving_reach hreach) hg hdev with hsent | ⟨idx, body, q, hanswering,
        hbegun, hanswers, hdata, hqos, hsent⟩
      · exact .inl (atDesk_congr rfl hdue hhandled hsent rfl)
      · exact .inr ⟨.answer, False.elim, atDesk_answer hreach hbodied hanswering
          (hbodied.begun body hbegun) (fun m hm => hanswers.answerTo hm hdata hqos) rfl hdue
          hhandled hsent rfl⟩
    | first | next | connected | disconnected | otherEvent | requestReport | stop => exact .inl rfl

/-- **Run lemma**: a run of the server is one of the desk, with conditions on the steps carried
over. -/
theorem atDesk_reachBy {g : Server cfg svc × ServerLog cfg → ServerAct σ → Prop}
    {g' : Desk σ → DeskAct σ → Prop} (haccepted : ∀ p a, g p a → AnswersAccepted p a)
    (hg : ∀ p a d b, g p a → (b.IsOutside → a.IsOutside) → g' d b)
    {p : Server cfg svc × ServerLog cfg} (h : (serving cfg svc respBuf app).ReachBy g p) :
    (desk cfg svc app).ReachBy g' (atDesk p) := by
  refine Lts.ReachBy.map (T := desk cfg svc app) (f := atDesk) rfl ?_ h
  rintro ⟨s, h⟩ a ⟨s', h'⟩ hp - hga hst
  rcases serving_step (hp.mono haccepted) (haccepted _ _ hga) hst with hsame | ⟨b, hb, hstb⟩
  · exact .inl hsame
  · exact .inr ⟨b, hg _ _ _ _ hga hb, hstb⟩

/-- **The server is a desk**: in every run, with any interleaving of the two tasks, any fragments
and any use of the slots and of the response buffer, what has happened to the requests is what
happens to them when they are served one after the other in the order of arrival. -/
theorem serving_refines (respBuf : Buf svc.resultMax) {p : Server cfg svc × ServerLog cfg}
    (h : (serving cfg svc respBuf app).ReachBy AnswersAccepted p) :
    (desk cfg svc app).Reach (atDesk p) :=
  atDesk_reachBy (fun _ _ hg => hg) (fun _ _ _ _ _ _ => trivial) h

/-- Two requests arrive before the first one is answered. -/
def twoAsked : List (ServerAct Nat) :=
  [.link (.connected true), .link .mqtt, .link (.first ask 2), .link .mqtt, .link .mqtt,
    .link .mqtt, .link .mqtt, .link .mqtt, .link (.task .take), .link (.first ask 1), .link .mqtt,
    .handle, .link .mqtt, .link .mqtt, .link (.next 1), .link .mqtt, .link .mqtt, .link .mqtt,
    .link (.task (.respondOwn ⟨true, .ok, 7⟩)), .link (.task .giveBack), .link (.task .take),
    .handle, .link (.task (.respondOwn ⟨true, .ok, 8⟩))]

/-- Two requests, both answered. -/
theorem serving_refines_sample :
    ∃ p : Server .sample serviceSample × ServerLog .sample,
      (desk .sample serviceSample 0).Reach (atDesk p) ∧ (atDesk p).app = 2 ∧
        (atDesk p).sent.map (fun e => e.2.data) =
          [ascii "\x7b\"ok\":true,\"result\":\x7b\"n\":1\x7d\x7d",
            ascii "\x7b\"ok\":true,\"result\":\x7b\"n\":2\x7d\x7d"] := by
  have hrun : ((serving .sample serviceSample (.zero 768) 0).runBy AnswersAccepted
      (serving .sample serviceSample (.zero 768) 0).init twoAsked).map
      (fun p => decide ((atDesk p).app = 2 ∧ (atDesk p).sent.map (fun e => e.2.data) =
        [ascii "\x7b\"ok\":true,\"result\":\x7b\"n\":1\x7d\x7d",
          ascii "\x7b\"ok\":true,\"result\":\x7b\"n\":2\x7d\x7d"])) = some true := by
    decide +kernel
  obtain ⟨p, hp, hcheck⟩ := Lts.exists_reachBy_of_runBy hrun
  obtain ⟨happ, hsent⟩ := of_decide_eq_true hcheck
  exact ⟨p, serving_refines (.zero 768) hp, happ, hsent⟩

/-- The requests served at the desk are the handled ones, with their bodies. -/
theorem served_atDesk {p : Server cfg svc × ServerLog cfg}
    (h : (serving cfg svc respBuf app).ReachBy AnswersAccepted p) :
    (atDesk p).served.map Prod.fst = p.2.requests.due.take p.2.requests.handled.length ∧
      (atDesk p).served.map Prod.snd = p.2.bodies := by
  have hlength : (p.2.requests.due.take p.2.requests.handled.length).length =
      p.2.bodies.length := by
    rw [List.length_take, (bodied_reach h).length,
      Nat.min_eq_left (handled_le_due (serving_logged h))]
  exact ⟨List.map_fst_zip hlength.le, List.map_snd_zip hlength.ge⟩

/-- A request served at the desk is the one that arrived with its number. -/
theorem due_of_served {p : Server cfg svc × ServerLog cfg}
    (h : (serving cfg svc respBuf app).ReachBy AnswersAccepted p) {k : Nat} {m : Message}
    (hm : ((atDesk p).served.map Prod.fst)[k]? = some m) :
    p.2.requests.due[k]? = some m ∧
      ((atDesk p).served.map Prod.fst).take k = p.2.requests.due.take k := by
  rw [(served_atDesk h).1] at hm ⊢
  rw [List.getElem?_take] at hm
  split at hm
  · next hlt => exact ⟨hm, by rw [List.take_take, Nat.min_eq_left hlt.le]⟩
  · cases hm

/-- **Requests are served sequentially.** When nothing else changes what the handlers share, the
bodies of the answers and the state that the handlers have left are those of serving the arrived
requests one by one; and what was published for the request of a number is that request's own
answer with that body, at most once. -/
theorem served_sequentially (respBuf : Buf svc.resultMax) {p : Server cfg svc × ServerLog cfg}
    (h : (serving cfg svc respBuf app).ReachBy
      (fun p a => AnswersAccepted p a ∧ ¬ a.IsOutside) p) :
    svc.serveAll cfg (p.2.requests.due.take p.2.requests.handled.length) app =
        (p.2.bodies, p.1.app) ∧
      (p.2.requests.sent.map Prod.fst).Pairwise (· < ·) ∧
      ∀ k q, (k, q) ∈ p.2.requests.sent → ∃ m body, p.2.requests.due[k]? = some m ∧
        p.2.bodies[k]? = some body ∧ q = answerTo cfg m body := by
  have haccepted : (serving cfg svc respBuf app).ReachBy AnswersAccepted p :=
    h.mono fun _ _ hg => hg.1
  have hdesk : (desk cfg svc app).ReachBy (fun _ a => ¬ a.IsOutside) (atDesk p) :=
    atDesk_reachBy (fun _ _ hg => hg.1) (fun _ _ _ _ hg hout hno => hg.2 (hout hno)) h
  obtain ⟨hrequests, hbodies⟩ := served_atDesk haccepted
  have hall := Desk.served_all hdesk
  obtain ⟨hown, honce⟩ := Desk.answered_reach hdesk
  rw [hrequests, hbodies] at hall
  refine ⟨hall, honce, ?_⟩
  intro k q hkq
  obtain ⟨m, body, hserved, hq⟩ := hown (k, q) hkq
  have hm : ((atDesk p).served.map Prod.fst)[k]? = some m := by
    rw [List.getElem?_map, hserved]
    rfl
  have hbody : p.2.bodies[k]? = some body := by
    rw [← hbodies, List.getElem?_map, hserved]
    rfl
  exact ⟨m, body, (due_of_served haccepted hm).1, hbody, hq⟩

/-- The second request sees what the first one has left. -/
theorem served_sequentially_sample :
    ∃ p : Server .sample serviceSample × ServerLog .sample, p.2.bodies.length = 2 ∧
      serviceSample.serveAll .sample (p.2.requests.due.take p.2.requests.handled.length) 0 =
        (p.2.bodies, p.1.app) := by
  have hrun : ((serving .sample serviceSample (.zero 768) 0).runBy
      (fun p a => AnswersAccepted p a ∧ ¬ a.IsOutside)
      (serving .sample serviceSample (.zero 768) 0).init twoAsked).map
      (fun p => decide (p.2.bodies.length = 2)) = some true := by
    decide +kernel
  obtain ⟨p, hp, hcheck⟩ := Lts.exists_reachBy_of_runBy hrun
  exact ⟨p, of_decide_eq_true hcheck, (served_sequentially (.zero 768) hp).1⟩

/-- What was sent is what `serve` makes of some request in some state. -/
theorem sent_served {p : Server cfg svc × ServerLog cfg}
    (h : (serving cfg svc respBuf app).ReachBy AnswersAccepted p) :
    ∀ e ∈ p.2.requests.sent, ∃ m s, e.2.data = (svc.serve cfg m s).1 := by
  have hdesk : (desk cfg svc app).Reach (atDesk p) :=
    atDesk_reachBy (fun _ _ hg => hg) (fun _ _ _ _ _ _ => trivial) h
  intro e he
  obtain ⟨m, body, hserved, hq⟩ := (Desk.answered_reach hdesk).own e he
  obtain ⟨s, hbody⟩ := Desk.served_reach hdesk _ (List.mem_of_getElem? hserved)
  refine ⟨m, s, ?_⟩
  rw [hq]
  exact hbody

/-- **Every answer is a whole JSON object** in every run, whatever the requests, the handlers'
error texts and the changes from outside, once the response buffer has 690 bytes: then the longest
error text fits with every byte escaped. -/
theorem answers_whole (respBuf : Buf svc.resultMax) (hmax : 690 ≤ svc.resultMax)
    (hbalanced : Balanced svc.methods) {p : Server cfg svc × ServerLog cfg}
    (h : (serving cfg svc respBuf app).ReachBy AnswersAccepted p) :
    ∀ e ∈ p.2.requests.sent, IsWhole e.2.data := by
  intro e he
  obtain ⟨m, s, hdata⟩ := sent_served h e he
  rw [hdata]
  exact svc.whole_serve hmax hbalanced m s

/-- Two answers, both whole. -/
theorem answers_whole_sample :
    ∃ p : Server .sample serviceSample × ServerLog .sample, p.2.requests.sent.length = 2 ∧
      ∀ e ∈ p.2.requests.sent, IsWhole e.2.data := by
  have hrun : ((serving .sample serviceSample (.zero 768) 0).runBy AnswersAccepted
      (serving .sample serviceSample (.zero 768) 0).init twoAsked).map
      (fun p => decide (p.2.requests.sent.length = 2)) = some true := by
    decide +kernel
  obtain ⟨p, hp, hcheck⟩ := Lts.exists_reachBy_of_runBy hrun
  exact ⟨p, of_decide_eq_true hcheck,
    answers_whole (.zero 768) (by decide) balanced_countSample hp⟩

end SoulCloud
