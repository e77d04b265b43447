import SoulCloud.Calls
import SoulCloud.Codec

/-!
# What the first connection's calls lead to

On the first connection the request task asks the platform for the time (`sync_time`) and for a
pending update (`check_for_update`). `sc_rpc::call` parses the answer in `call_buf` and returns a
reader that goes on pointing there, so what the caller looks up is read from `call_buf` later,
beside the MQTT task.

- `parseAnswer`, `callResult`: the end of `call`, behind its last critical section.
- `FirstCall.use`: what each of the two callers makes of the result.
- `firstConnection`: the request task with the two calls, the MQTT task and the platform.
- `callBuf_link`: while a caller looks at an answer nothing is written to `call_buf`.
- `first_calls`: the clock is set and an update is started for what a response to that very call
  says, and for nothing else.
-/

namespace SoulCloud

open Bytes
open Device (TaskAct)

/-! ## The end of a call -/

/-- `call` up to `doc.parse`: the error it returns by then and the reader. -/
def parseAnswer (maxTokens : Nat) (ret : EspErr) (overflow : Bool) (text : Bytes) :
    EspErr × JsonReader :=
  if ret ≠ .ok then (ret, .new maxTokens)
  else if overflow then (.invalidSize, .new maxTokens)
  else (JsonReader.new maxTokens).parse text

/-- `call` behind `doc.parse`: what it returns and `result_tok`, which starts as -1. -/
def callResult (err : EspErr) (doc : JsonReader) : EspErr × Option Nat :=
  if err ≠ .ok then (err, none)
  else
    match doc.getBool (some 0) (ascii "ok") with
    | some true => (.ok, doc.find (some 0) (ascii "result"))
    | _ => (.fail, none)

/-- What the two callers do outside of `sc_rpc`. -/
inductive CallEffect where
  /-- `settimeofday`. -/
  | setClock (sec usec : Int)
  /-- `ota->start`. -/
  | startUpdate (params : OtaParams)
  deriving DecidableEq

/-- `sync_time` behind its call. A `time_t` holds the seconds of every `int64_t` of milliseconds. -/
def clockOf (doc : JsonReader) (result : EspErr × Option Nat) : List CallEffect :=
  if result.1 ≠ .ok then []
  else
    match doc.getInt result.2 (ascii "epochMs") with
    | none => []
    | some epochMs => [.setClock (epochMs.tdiv 1000) (epochMs.tmod 1000 * 1000)]

/-- `check_for_update` behind its call. -/
def updateOf (doc : JsonReader) (result : EspErr × Option Nat) : List CallEffect :=
  if result.1 ≠ .ok then []
  else
    let update := doc.find result.2 (ascii "update")
    if doc.isObject update = false then []
    else
      match doc.decodeOtaParams update with
      | none => []
      | some params => [.startUpdate params]

/-- The calls of the first connection. -/
inductive FirstCall where
  | time
  | check
  deriving DecidableEq

namespace FirstCall

def method : FirstCall → Bytes
  | time => ascii "time"
  | check => ascii "ota.check"

/-- The room of the caller's `sc_json_doc`. -/
def maxTokens : FirstCall → Nat
  | time => 16
  | check => 24

/-- What the caller makes of the reader. -/
def use (p : FirstCall) (err : EspErr) (doc : JsonReader) : List CallEffect :=
  match p with
  | time => clockOf doc (callResult err doc)
  | check => updateOf doc (callResult err doc)

/-- What an answer with this payload leads to. -/
def effects (p : FirstCall) (payload : Bytes) : List CallEffect :=
  let parsed := parseAnswer p.maxTokens .ok false payload
  p.use parsed.1 parsed.2

end FirstCall

theorem parseAnswer_failed (maxTokens : Nat) {ret : EspErr} {overflow : Bool} (text : Bytes)
    (h : ret ≠ .ok ∨ overflow = true) : (parseAnswer maxTokens ret overflow text).1 ≠ .ok := by
  rw [parseAnswer]
  by_cases hret : ret ≠ .ok
  · rw [if_pos hret]
    exact hret
  · rw [if_neg hret, if_pos (h.resolve_left hret)]
    rintro ⟨⟩

/-- A call that fails leads to nothing. -/
theorem FirstCall.use_failed (p : FirstCall) {err : EspErr} (doc : JsonReader) (h : err ≠ .ok) :
    p.use err doc = [] := by
  have hresult : callResult err doc = (err, none) := if_pos h
  cases p with
  | time =>
    show clockOf doc (callResult err doc) = []
    rw [hresult]
    exact if_pos h
  | check =>
    show updateOf doc (callResult err doc) = []
    rw [hresult]
    exact if_pos h

/-! ## The request task -/

/-- Where the request task is. -/
inductive FirstPc where
  /-- Before the first connection, or after its two calls: anything but a call. -/
  | before
  | after
  /-- About to make this call. -/
  | ready (p : FirstCall)
  /-- Inside the call, which began with the clock at `now`. -/
  | calling (p : FirstCall) (now : Int)
  /-- The answer is parsed; its values are about to be looked up. -/
  | parsed (p : FirstCall) (now : Int) (err : EspErr) (doc : JsonReader)

namespace FirstPc

/-- Where it is after a call. -/
def next : FirstCall → FirstPc
  | .time => ready .check
  | .check => after

/-- Other work of the request task. -/
def Free : FirstPc → Prop
  | before | after => True
  | ready _ | calling _ _ | parsed _ _ _ _ => False

instance (pc : FirstPc) : Decidable pc.Free :=
  match pc with
  | before | after => inferInstanceAs (Decidable True)
  | ready _ | calling _ _ | parsed _ _ _ _ => inferInstanceAs (Decidable False)

end FirstPc

/-- A call that is over. -/
structure FirstDone where
  purpose : FirstCall
  call : Call
  now : Int
  /-- What the wait returned, and what the last critical section read. -/
  ret : EspErr
  overflow : Bool
  effects : List CallEffect

/-- The link, with the request task on the first connection. -/
structure First (cfg : Config) where
  link : Link cfg
  pc : FirstPc
  log : List FirstDone

inductive FirstAct where
  /-- A step of the link that is not part of a call. -/
  | link (a : LinkAct)
  /-- The request task gets to `sync_time`. -/
  | connected
  /-- It makes the next call, with `time(nullptr)` at `now`. -/
  | call (now : Int)
  /-- A step inside `call`. -/
  | within (t : TaskAct)
  /-- `doc.parse` on `call_buf`. -/
  | parse
  /-- The caller looks up the values and acts on them. -/
  | use

/-- A step of `call`. -/
def Device.TaskAct.ofCall : TaskAct → Bool
  | .callBegin _ _ | .callClear | .callPublish _ | .callWake | .callTimeout | .callEnd
  | .callReturn => true
  | .wake | .take | .handle _ | .respondOwn _ | .respondRes _ | .giveBack => false

/-- A step of `call` between its first critical section and the parsing. -/
def Device.TaskAct.waits : TaskAct → Bool
  | .callClear | .callPublish _ | .callWake | .callTimeout | .callEnd => true
  | _ => false

/-- The clock has been set by somebody else. -/
def clockIsSet (now : Int) : Bool := decide (1700000000 < now)

namespace First

variable {cfg : Config}

def init (cfg : Config) : First cfg := ⟨⟨Device.init cfg, none⟩, .before, []⟩

/-- The link may move while the request task is here. -/
def Allows (pc : FirstPc) : LinkAct → Prop
  | .task t => pc.Free ∧ t.ofCall = false
  | _ => True

instance (pc : FirstPc) (a : LinkAct) : Decidable (Allows pc a) :=
  match a with
  | .task _ => inferInstanceAs (Decidable (_ ∧ _))
  | .first _ _ | .next _ | .connected _ | .disconnected | .otherEvent | .mqtt | .requestReport
  | .stop => inferInstanceAs (Decidable True)

/-- What the reader of the answer sees when it looks: its tokens, and the text that `call_buf`
holds by now. -/
def seen (s : First cfg) (doc : JsonReader) : JsonReader :=
  { doc with json := s.link.dev.rpc.callBuf.text doc.json.length }

def step (s : First cfg) : FirstAct → Option (First cfg)
  | .link a =>
    if Allows s.pc a then (s.link.step a).map fun link => { s with link } else none
  | .connected =>
    match s.pc, s.link.dev.taskPc with
    | .before, .idle => some { s with pc := .ready .time }
    | _, _ => none
  | .call now =>
    match s.pc with
    | .ready p =>
      -- A clock that is set already is left alone.
      if p = .time ∧ clockIsSet now then some { s with pc := .next p }
      else
        (s.link.step (.task (.callBegin p.method (ascii "{}")))).map fun link =>
          { s with link, pc := .calling p now }
    | _ => none
  | .within t =>
    match s.pc with
    | .calling _ _ =>
      if t.waits then (s.link.step (.task t)).map fun link => { s with link } else none
    | _ => none
  | .parse =>
    match s.pc, s.link.dev.taskPc with
    | .calling p now, .callParse _ ret overflow len =>
      let parsed := parseAnswer p.maxTokens ret overflow (s.link.dev.rpc.callBuf.text len)
      some { s with pc := .parsed p now parsed.1 parsed.2 }
    | _, _ => none
  | .use =>
    match s.pc, s.link.dev.taskPc with
    | .parsed p now err doc, .callParse c ret overflow _ =>
      (s.link.step (.task .callReturn)).map fun link =>
        { link
          pc := .next p
          log := s.log ++ [⟨p, c, now, ret, overflow, p.use err (s.seen doc)⟩] }
    | _, _ => none

/-- The step of the link that is part of a step. -/
def linkAct (s : First cfg) : FirstAct → Option LinkAct
  | .link a => some a
  | .call now =>
    match s.pc with
    | .ready p =>
      if p = .time ∧ clockIsSet now then none
      else some (.task (.callBegin p.method (ascii "{}")))
    | _ => none
  | .within t => some (.task t)
  | .use => some (.task .callReturn)
  | .connected | .parse => none

/-- The steps by label. -/
inductive Step (s : First cfg) : FirstAct → First cfg → Prop
  | link {a : LinkAct} {link : Link cfg} (ha : Allows s.pc a) (hst : s.link.step a = some link) :
      Step s (.link a) { s with link }
  | connected (hpc : s.pc = .before) (hidle : s.link.dev.taskPc = .idle) :
      Step s .connected { s with pc := .ready .time }
  | skip {now : Int} (hpc : s.pc = .ready .time) (hset : clockIsSet now = true) :
      Step s (.call now) { s with pc := .next .time }
  | call {p : FirstCall} {now : Int} {link : Link cfg} (hpc : s.pc = .ready p)
      (hset : ¬ (p = .time ∧ clockIsSet now = true))
      (hst : s.link.step (.task (.callBegin p.method (ascii "{}"))) = some link) :
      Step s (.call now) { s with link, pc := .calling p now }
  | within {p : FirstCall} {now : Int} {t : TaskAct} {link : Link cfg}
      (hpc : s.pc = .calling p now) (ht : t.waits = true)
      (hst : s.link.step (.task t) = some link) : Step s (.within t) { s with link }
  | parse {p : FirstCall} {now : Int} {c : Call} {ret : EspErr} {overflow : Bool} {len : Nat}
      {err : EspErr} {doc : JsonReader} (hpc : s.pc = .calling p now)
      (hparse : s.link.dev.taskPc = .callParse c ret overflow len)
      (hdoc : parseAnswer p.maxTokens ret overflow (s.link.dev.rpc.callBuf.text len) =
        (err, doc)) :
      Step s .parse { s with pc := .parsed p now err doc }
  | use {p : FirstCall} {now : Int} {err : EspErr} {doc : JsonReader} {c : Call} {ret : EspErr}
      {overflow : Bool} {len : Nat} {link : Link cfg} (hpc : s.pc = .parsed p now err doc)
      (hparse : s.link.dev.taskPc = .callParse c ret overflow len)
      (hst : s.link.step (.task .callReturn) = some link) :
      Step s .use
        ⟨link, .next p, s.log ++ [⟨p, c, now, ret, overflow, p.use err (s.seen doc)⟩]⟩

theorem step_cases {s s' : First cfg} {a : FirstAct} (h : s.step a = some s') : Step s a s' := by
  unfold step at h
  split at h
  · split at h
    · rename_i ha
      obtain ⟨link, hst, rfl⟩ := Option.map_eq_some_iff.mp h
      exact .link ha hst
    · cases h
  · split at h
    · rename_i hpc hidle
      cases h
      exact .connected hpc hidle
    · cases h
  · split at h
    · rename_i hpc
      split at h
      · rename_i hset
        obtain ⟨rfl, hset⟩ := hset
        cases h
        exact .skip hpc hset
      · rename_i hset
        obtain ⟨link, hst, rfl⟩ := Option.map_eq_some_iff.mp h
        exact .call hpc hset hst
    · cases h
  · split at h
    · rename_i hpc
      split at h
      · rename_i ht
        obtain ⟨link, hst, rfl⟩ := Option.map_eq_some_iff.mp h
        exact .within hpc ht hst
      · cases h
    · cases h
  · split at h
    · rename_i hpc hparse
      cases h
      exact .parse hpc hparse rfl
    · cases h
  · split at h
    · rename_i hpc hparse
      obtain ⟨link, hst, rfl⟩ := Option.map_eq_some_iff.mp h
      exact .use hpc hparse hst
    · cases h

end First

/-- The calls that `CallLog` sees. -/
def First.noteCalls {cfg : Config} (s : First cfg) (a : FirstAct) (s' : First cfg) (h : CallLog) :
    CallLog :=
  match s.linkAct a with
  | some b => CallLog.update s.link b s'.link h
  | none => h

/-- The first connection beside the MQTT task, with the log of the calls. -/
def firstConnection (cfg : Config) : Lts (First cfg × CallLog) FirstAct :=
  (Lts.mk (First.init cfg) First.step).withHist .empty First.noteCalls

/-- The steps of the link are in order. -/
def Ordered {cfg : Config} (p : First cfg × CallLog) (a : FirstAct) : Prop :=
  ∀ b ∈ p.1.linkAct a, InOrder (p.1.link, p.2) b

instance {cfg : Config} (p : First cfg × CallLog) (a : FirstAct) : Decidable (Ordered p a) :=
  inferInstanceAs (Decidable (∀ b ∈ p.1.linkAct a, InOrder (p.1.link, p.2) b))

/-! ## The buffer while an answer is looked at -/

variable {cfg : Config}

/-- What the MQTT task does between two calls: nothing to `call_buf`. -/
theorem callBuf_mqtt {s s' : Device cfg} (hcorr : s.rpc.callCorrelation = [])
    (hst : Device.MqttStep s s') : s'.rpc.callBuf = s.rpc.callBuf := by
  cases hst with
  | @deliver evt rpc hpc hres hrpc hsame =>
    obtain ⟨rpc', hrpc', -, hskip, -⟩ := s.rpc.deliverResponse_spec s.mqtt.correlation evt.data
      evt.currentDataOffset evt.totalDataLen
    obtain rfl : rpc = rpc' := congrArg Prod.fst (Option.some.inj (hrpc.symm.trans hrpc'))
    exact congrArg Rpc.callBuf (hskip fun hours => hours.1 hcorr)
  | takeSlot | busy | response | ignored | fill | fillNone | append | dropData | submit
  | submitNone | setRequest | setCallDone | setConnected | dropSlot | setDisconnected => rfl

/-- The same for every step that is not the request task's. -/
theorem callBuf_link {l l' : Link cfg} {a : LinkAct} (hs : l.dev.Settled)
    (hcorr : l.dev.rpc.callCorrelation = []) (ha : ∀ t, a ≠ .task t)
    (hst : l.step a = some l') : l'.dev.rpc.callBuf = l.dev.rpc.callBuf := by
  cases Link.step_cases hst with
  | @first m len => exact (event_call hs (.data (m.fragment 0 len))).1.1
  | @next m off len => exact (event_call hs (.data (m.fragment off len))).1.1
  | @connected subscribed => exact (event_call hs (.connected subscribed)).1.1
  | disconnected => exact (event_call hs .disconnected).1.1
  | otherEvent | requestReport | stop => rfl
  | mqtt hdev => exact callBuf_mqtt hcorr (hs.mqttStep_cases hdev)
  | task => exact absurd rfl (ha _)

/-- The request task stays where it is. -/
theorem taskPc_link {l l' : Link cfg} {a : LinkAct} (hs : l.dev.Settled) (ha : ∀ t, a ≠ .task t)
    (hst : l.step a = some l') : l'.dev.taskPc = l.dev.taskPc := by
  cases Link.step_cases hst with
  | @first m len => exact (event_call hs (.data (m.fragment 0 len))).2.1
  | @next m off len => exact (event_call hs (.data (m.fragment off len))).2.1
  | @connected subscribed => exact (event_call hs (.connected subscribed)).2.1
  | disconnected => exact (event_call hs .disconnected).2.1
  | otherEvent | requestReport | stop => rfl
  | mqtt hdev => cases hs.mqttStep_cases hdev <;> rfl
  | task => exact absurd rfl (ha _)

/-- Other work begins no call. -/
theorem calling_of_other {s s' : Device cfg} {t : TaskAct} (ht : t.ofCall = false)
    (hcall : s.taskPc.calling = none) (hst : Device.TaskStep s t s') :
    s'.taskPc.calling = none := by
  cases hst with
  | wake => exact hcall
  | callBegin | callClear | callPublish | callPublishFailed | callWake | callTimeout | callEnd
  | callReturn => cases ht
  | _ => rfl

/-- A call goes on until its answer is looked at. -/
theorem calling_of_waits {s s' : Device cfg} {t : TaskAct} {c : Call} (ht : t.waits = true)
    (hcall : s.taskPc.calling = some c) (hst : Device.TaskStep s t s') :
    s'.taskPc.calling = some c := by
  cases hst with
  | callClear hpc | callPublish hpc | callPublishFailed hpc | callWake hpc | callTimeout hpc
  | callEnd hpc =>
    rw [hpc] at hcall
    exact hcall
  | _ => cases ht

theorem text_length_text {n : Nat} (b : Buf n) (k : Nat) : b.text (b.text k).length = b.text k := by
  rw [Buf.text, Buf.text]
  rw [List.length_take, ← List.take_take, List.take_length]

/-- The reader points to the text it parsed. -/
theorem json_parse (r : JsonReader) (text : Bytes) : (r.parse text).2.json = text := by
  rw [JsonReader.parse]
  split
  · rfl
  · rfl
  · split <;> rfl

/-- A reader of `call_buf` sees what it parsed as long as the buffer is the same. -/
theorem seen_parse {n maxTokens len : Nat} {b : Buf n} {ret err : EspErr} {overflow : Bool}
    {doc : JsonReader} (h : parseAnswer maxTokens ret overflow (b.text len) = (err, doc)) :
    b.text doc.json.length = doc.json := by
  rw [parseAnswer] at h
  split at h
  · cases h
    rfl
  · split at h
    · cases h
      rfl
    · have hjson := json_parse (JsonReader.new maxTokens) (b.text len)
      rw [h] at hjson
      rw [show doc.json = b.text len from hjson]
      exact text_length_text b len

/-! ## The invariant -/

/-- A call is made for its purpose; one for the time only while the clock is not set. -/
structure MadeFor (p : FirstCall) (now : Int) (c : Call) : Prop where
  method : c.method = p.method
  unset : p = .time → now ≤ 1700000000

/-- What is true at each point of the request task. -/
def FirstAt (l : Link cfg) : FirstPc → Prop
  | .before | .after | .ready _ => l.dev.taskPc.calling = none
  | .calling p now => ∃ c, l.dev.taskPc.calling = some c ∧ MadeFor p now c
  | .parsed p now err doc => ∃ c ret overflow len, l.dev.taskPc = .callParse c ret overflow len ∧
      MadeFor p now c ∧
      parseAnswer p.maxTokens ret overflow (l.dev.rpc.callBuf.text len) = (err, doc)

/-- What a call that is over has led to. -/
structure LedTo (cfg : Config) (arrived : List Message) (e : FirstDone) : Prop where
  made : MadeFor e.purpose e.now e.call
  answered : e.ret = .ok → e.overflow = false →
    ∃ m, Response cfg arrived e.call m ∧ e.effects = e.purpose.effects m.payload
  failed : e.ret ≠ .ok ∨ e.overflow = true → e.effects = []

theorem LedTo.mono {arrived arrived' : List Message} {e : FirstDone}
    (h : LedTo cfg arrived e) (harr : ∀ m ∈ arrived, m ∈ arrived') :
    LedTo cfg arrived' e := by
  refine ⟨h.made, fun hret hover => ?_, h.failed⟩
  obtain ⟨m, hresp, heffects⟩ := h.answered hret hover
  exact ⟨m, hresp.mono harr, heffects⟩

/-- The calls that are still to come. -/
def FirstPc.remaining : FirstPc → List FirstCall
  | .before | .ready .time | .calling .time _ | .parsed .time _ _ _ => [.time, .check]
  | .ready .check | .calling .check _ | .parsed .check _ _ _ => [.check]
  | .after => []

theorem FirstPc.remaining_next (p : FirstCall) (pc : FirstPc)
    (hpc : pc = .ready p ∨ (∃ now, pc = .calling p now) ∨
      ∃ now err doc, pc = .parsed p now err doc) :
    pc.remaining = p :: (FirstPc.next p).remaining := by
  cases p with
  | time => rcases hpc with rfl | ⟨now, rfl⟩ | ⟨now, err, doc, rfl⟩ <;> rfl
  | check => rcases hpc with rfl | ⟨now, rfl⟩ | ⟨now, err, doc, rfl⟩ <;> rfl

structure First.Inv (s : First cfg) (h : CallLog) : Prop where
  place : FirstAt s.link s.pc
  log : ∀ e ∈ s.log, LedTo cfg h.arrived e
  order : (s.log.map FirstDone.purpose ++ s.pc.remaining).Sublist [.time, .check]

/-- A message that has arrived has arrived. -/
theorem CallLog.arrived_update (l l' : Link cfg) (a : LinkAct) (h : CallLog) :
    ∀ m ∈ h.arrived, m ∈ (CallLog.update l a l' h).arrived := by
  intro m hm
  unfold CallLog.update
  split
  · exact List.mem_cons_of_mem _ hm
  · split <;> exact hm
  · exact hm
  · exact hm

/-- What a caller that was woken and has room for the answer looks at. -/
theorem Calling.answer {l : Link cfg} {h : CallLog} (hinv : Calling l h) {c : Call} {len : Nat}
    (hpc : l.dev.taskPc = .callParse c .ok false len) :
    ∃ m, Response cfg h.arrived c m ∧ l.dev.rpc.callBuf.text len = m.payload := by
  have hcall : l.dev.taskPc.calling = some c := by rw [hpc]; rfl
  obtain ⟨hover, hlen⟩ := hinv.read c .ok false len hpc
  obtain ⟨m, hacc⟩ := hinv.woken.read c false len hpc rfl
  obtain ⟨hresp, -, htext⟩ := (hinv.buffered c hcall).acc m _ hacc
  obtain ⟨hcallLen, hbuf⟩ := htext hover.symm
  refine ⟨m, hresp, ?_⟩
  rw [hlen, hcallLen, hbuf, List.take_length]

/-- While an answer is looked at, no call is outstanding. -/
theorem Calling.closed {l : Link cfg} {h : CallLog} (hinv : Calling l h) {c : Call} {ret : EspErr}
    {overflow : Bool} {len : Nat} (hpc : l.dev.taskPc = .callParse c ret overflow len) :
    l.dev.rpc.callCorrelation = [] := by
  have hcorr := hinv.correlation
  rw [hpc] at hcorr
  exact hcorr

/-- A step of the link that the request task's place allows. -/
theorem FirstAt.link {l l' : Link cfg} {h : CallLog} {pc : FirstPc} {a : LinkAct}
    (hinv : FirstAt l pc) (hcalling : Calling l h) (hs : l.dev.Settled) (ha : First.Allows pc a)
    (hst : l.step a = some l') : FirstAt l' pc := by
  by_cases htask : ∃ t, a = .task t
  · obtain ⟨t, rfl⟩ := htask
    obtain ⟨hfree, ht⟩ := ha
    cases Link.step_cases hst with
    | task hdev =>
      cases pc with
      | before | after => exact calling_of_other ht hinv hdev
      | ready p | calling p now | parsed p now err doc => cases hfree
  · have hno : ∀ t, a ≠ .task t := fun t heq => htask ⟨t, heq⟩
    have hpc := taskPc_link hs hno hst
    cases pc with
    | before | after | ready p =>
      show l'.dev.taskPc.calling = none
      rw [hpc]
      exact hinv
    | calling p now =>
      obtain ⟨c, hcall, hmade⟩ := hinv
      exact ⟨c, hpc ▸ hcall, hmade⟩
    | parsed p now err doc =>
      obtain ⟨c, ret, overflow, len, hparse, hmade, hdoc⟩ := hinv
      have hbuf := callBuf_link hs (hcalling.closed hparse) hno hst
      exact ⟨c, ret, overflow, len, hpc.trans hparse, hmade, hbuf ▸ hdoc⟩

/-- What is logged when a caller has looked at its answer. -/
theorem ledTo_use {s : First cfg} {h : CallLog} {p : FirstCall} {now : Int} {err : EspErr}
    {doc : JsonReader} {c : Call} {ret : EspErr} {overflow : Bool} {len : Nat}
    (hcalling : Calling s.link h) (hmade : MadeFor p now c)
    (hparse : s.link.dev.taskPc = .callParse c ret overflow len)
    (hdoc : parseAnswer p.maxTokens ret overflow (s.link.dev.rpc.callBuf.text len) = (err, doc)) :
    LedTo cfg h.arrived ⟨p, c, now, ret, overflow, p.use err (s.seen doc)⟩ := by
  -- What is looked up now is what was parsed.
  have hseen : s.seen doc = doc := by
    rw [First.seen]
    rw [seen_parse hdoc]
  rw [hseen]
  refine ⟨hmade, ?_, ?_⟩
  · rintro rfl rfl
    obtain ⟨m, hresp, htext⟩ := hcalling.answer hparse
    refine ⟨m, hresp, ?_⟩
    rw [htext] at hdoc
    rw [FirstCall.effects]
    rw [hdoc]
  · intro hfailed
    have herr := parseAnswer_failed p.maxTokens (s.link.dev.rpc.callBuf.text len) hfailed
    rw [hdoc] at herr
    exact p.use_failed doc herr

/-- **Step lemma**: any step. -/
theorem First.Inv.step {s s' : First cfg} {h : CallLog} {a : FirstAct}
    (hs : s.link.dev.Settled) (hcalling : Calling s.link h) (hinv : First.Inv s h)
    (hst : s.step a = some s') : First.Inv s' (First.noteCalls s a s' h) := by
  obtain ⟨hplace, hlog, horder⟩ := hinv
  have hlater : ∀ (b : LinkAct) (link : Link cfg), ∀ e ∈ s.log,
      LedTo cfg (CallLog.update s.link b link h).arrived e := fun b link e he =>
    (hlog e he).mono (CallLog.arrived_update s.link link b h)
  cases First.step_cases hst with
  | @link b link hallows hlink =>
    exact ⟨hplace.link hcalling hs hallows hlink, hlater b link, horder⟩
  | connected hpc hidle =>
    rw [hpc] at horder
    refine ⟨?_, hlog, horder⟩
    show s.link.dev.taskPc.calling = none
    rw [hidle]
    rfl
  | @skip now hpc hset =>
    have hnote : First.noteCalls s (.call now) { s with pc := .next .time } h = h := by
      rw [First.noteCalls, First.linkAct]
      rw [hpc]
      dsimp only
      rw [if_pos ⟨rfl, hset⟩]
    rw [hnote]
    rw [hpc] at hplace horder
    refine ⟨hplace, hlog, List.Sublist.trans ?_ horder⟩
    exact List.Sublist.append (List.Sublist.refl _) (List.sublist_cons_self _ _)
  | @call p now link hpc hset hlink =>
    have hnote : First.noteCalls s (.call now) { s with link, pc := .calling p now } h =
        CallLog.update s.link (.task (.callBegin p.method (ascii "{}"))) link h := by
      rw [First.noteCalls, First.linkAct]
      rw [hpc]
      dsimp only
      rw [if_neg hset]
    rw [hnote]
    have hunset : p = .time → now ≤ 1700000000 := by
      intro hp
      by_contra hlt
      exact hset ⟨hp, decide_eq_true (not_le.mp hlt)⟩
    refine ⟨?_, hlater _ link, ?_⟩
    · cases Link.step_cases hlink with
      | task hdev =>
        cases hdev with
        | callBegin => exact ⟨_, rfl, rfl, hunset⟩
    · rw [FirstPc.remaining_next p s.pc (.inl hpc)] at horder
      rw [FirstPc.remaining_next p _ (.inr (.inl ⟨now, rfl⟩))]
      exact horder
  | @within p now t link hpc ht hlink =>
    rw [hpc] at hplace
    obtain ⟨c, hcall, hmade⟩ := hplace
    refine ⟨?_, hlater _ link, horder⟩
    show FirstAt link s.pc
    rw [hpc]
    cases Link.step_cases hlink with
    | task hdev => exact ⟨c, calling_of_waits ht hcall hdev, hmade⟩
  | @parse p now c ret overflow len err doc hpc hparse hdoc =>
    rw [hpc] at hplace
    obtain ⟨c', hcall, hmade⟩ := hplace
    rw [hparse] at hcall
    cases hcall
    refine ⟨⟨c, ret, overflow, len, hparse, hmade, hdoc⟩, hlog, ?_⟩
    rw [FirstPc.remaining_next p s.pc (.inr (.inl ⟨now, hpc⟩))] at horder
    rw [FirstPc.remaining_next p _ (.inr (.inr ⟨now, err, doc, rfl⟩))]
    exact horder
  | @use p now err doc c ret overflow len link hpc hparse hlink =>
    rw [hpc] at hplace
    obtain ⟨c', ret', overflow', len', hparse', hmade, hdoc⟩ := hplace
    rw [hparse] at hparse'
    cases hparse'
    refine ⟨?_, ?_, ?_⟩
    · have hidle : link.dev.taskPc.calling = none := by
        cases Link.step_cases hlink with
        | task hdev =>
          cases hdev with
          | callReturn => rfl
      cases p with
      | time => exact hidle
      | check => exact hidle
    · intro e he
      rcases List.mem_append.mp he with hold | hnew
      · exact hlater _ link e hold
      · rw [List.mem_singleton.mp hnew]
        exact (ledTo_use hcalling hmade hparse hdoc).mono
          (CallLog.arrived_update s.link link _ h)
    · rw [FirstPc.remaining_next p s.pc (.inr (.inr ⟨now, err, doc, hpc⟩))] at horder
      rw [List.map_append, List.map_singleton, List.append_assoc]
      exact horder

/-- A run is one of the link with the log of the calls. -/
theorem firstConnection_calls {p : First cfg × CallLog}
    (h : (firstConnection cfg).ReachBy Ordered p) :
    (callLogged cfg).ReachBy InOrder (p.1.link, p.2) := by
  refine Lts.ReachBy.map (T := callLogged cfg) (f := fun p => (p.1.link, p.2)) rfl ?_ h
  rintro ⟨s, h⟩ a ⟨s', h'⟩ - - hg hst
  have hstep : s.step a = some s' := (Lts.withHist_step hst).1
  obtain rfl : h' = First.noteCalls s a s' h := (Lts.withHist_step hst).2
  have hlift : ∀ {b : LinkAct}, s.linkAct a = some b → s.link.step b = some s'.link →
      (callLogged cfg).step (s.link, h) b = some (s'.link, First.noteCalls s a s' h) := by
    intro b hb hlink
    have hnote : First.noteCalls s a s' h = CallLog.update s.link b s'.link h := by
      rw [First.noteCalls]
      rw [hb]
    rw [hnote]
    exact congrArg (Option.map _) hlink
  cases First.step_cases hstep with
  | @link b link hallows hlink => exact .inr ⟨b, hg b rfl, hlift rfl hlink⟩
  | connected => exact .inl rfl
  | @skip now hpc hset =>
    have hno : s.linkAct (.call now) = none := by
      rw [First.linkAct]
      rw [hpc]
      exact if_pos ⟨rfl, hset⟩
    left
    dsimp only
    rw [First.noteCalls]
    rw [hno]
  | @call p now link hpc hset hlink =>
    have hact : s.linkAct (.call now) = some (.task (.callBegin p.method (ascii "{}"))) := by
      rw [First.linkAct]
      rw [hpc]
      exact if_neg hset
    exact .inr ⟨_, hg _ hact, hlift hact hlink⟩
  | @within p now t link hpc ht hlink => exact .inr ⟨_, hg _ rfl, hlift rfl hlink⟩
  | parse => exact .inl rfl
  | @use p now err doc c ret overflow len link hpc hparse hlink =>
    exact .inr ⟨_, hg _ rfl, hlift rfl hlink⟩

/-- The invariant holds in every reachable state. -/
theorem first_reach {p : First cfg × CallLog} (h : (firstConnection cfg).ReachBy Ordered p) :
    First.Inv p.1 p.2 := by
  have hinit : First.Inv (First.init cfg) .empty :=
    ⟨rfl, by rintro e ⟨⟩, List.Sublist.refl _⟩
  refine h.invariant (I := fun p => First.Inv p.1 p.2) hinit ?_
  rintro ⟨s, h⟩ a ⟨s', h'⟩ hp hI - hst
  obtain rfl : h' = First.noteCalls s a s' h := (Lts.withHist_step hst).2
  have hcalls := firstConnection_calls hp
  have hk := Device.kept_reach (Link.reach_dev (Lts.reach_fst hcalls))
  exact First.Inv.step hk.settled (calling_reach hcalls) hI (Lts.withHist_step hst).1

/-- **The calls of the first connection.** They are made at most once each, the time first and only
while the clock is not set. Whatever arrives meanwhile, what a call leads to is what its answer
says: the clock is set and an update is started for the payload of a response to that very call,
and a call without a whole response leads to nothing. -/
theorem first_calls (cfg : Config) {p : First cfg × CallLog}
    (h : (firstConnection cfg).ReachBy Ordered p) :
    (p.1.log.map FirstDone.purpose).Sublist [.time, .check] ∧
      ∀ e ∈ p.1.log, LedTo cfg p.2.arrived e := by
  have hinv := first_reach h
  exact ⟨(List.sublist_append_left _ _).trans hinv.order, hinv.log⟩

/-- The platform's answer to `time`. -/
def timeAnswer : Message :=
  { firstAnswer with
    payload := ascii "\x7b\"ok\":true,\"result\":\x7b\"epochMs\":1700000123456\x7d\x7d" }

/-- Its answer to `ota.check`: nothing is pending. -/
def checkAnswer : Message :=
  { firstAnswer with
    property := some ⟨ascii "c2", [], nul_notMem_nil⟩
    payload := ascii "\x7b\"ok\":true,\"result\":\x7b\"update\":null\x7d\x7d" }

/-- Both calls are answered; the second answer to the first comes while the caller looks at the
first one. -/
def firstRun : List FirstAct :=
  [.link (.connected true), .link .mqtt, .connected, .call 0, .within .callClear,
    .within (.callPublish ⟨true, .ok, 1⟩), .link (.first timeAnswer 20), .link .mqtt, .link .mqtt,
    .link (.next (timeAnswer.payload.length - 20)), .link .mqtt, .link .mqtt, .within .callWake,
    .within .callEnd, .parse, .link (.first timeAnswer timeAnswer.payload.length), .link .mqtt,
    .link .mqtt, .use, .call 1700000124, .within .callClear,
    .within (.callPublish ⟨true, .ok, 2⟩), .link (.first checkAnswer checkAnswer.payload.length),
    .link .mqtt, .link .mqtt, .link .mqtt, .within .callWake, .within .callEnd, .parse, .use]

/-- The clock is set from the first answer; the second leads to nothing. -/
theorem first_calls_sample :
    ∃ p : First .sample × CallLog, (firstConnection .sample).ReachBy Ordered p ∧
      p.1.log.map FirstDone.effects = [[.setClock 1700000123 456000], []] ∧
      ∀ e ∈ p.1.log, LedTo .sample p.2.arrived e := by
  have hrun : ((firstConnection .sample).runBy Ordered (firstConnection .sample).init firstRun).map
      (fun p => decide (p.1.log.map FirstDone.effects = [[.setClock 1700000123 456000], []])) =
        some true := by
    decide +kernel
  obtain ⟨p, hp, hcheck⟩ := Lts.exists_reachBy_of_runBy hrun
  exact ⟨p, hp, of_decide_eq_true hcheck, (first_calls .sample hp).2⟩

end SoulCloud
