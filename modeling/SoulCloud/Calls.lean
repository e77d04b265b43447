import SoulCloud.Delivery

/-!
# Calls to the platform

`sc_rpc::call` on the request task waits for `deliver_response` on the MQTT task.
The two share `call_buf`, its length, the correlation and `BIT_CALL_DONE`, in several
separate critical sections, and the bit is set outside of them.

A log beside the link numbers the calls and follows the fragments that are accepted.
`AnswerRead` is what a caller that was woken may expect of the last critical section.
It does not hold in every run: an answer to an earlier call can set the bit late
(`answer_read_stale`). It does in every run whose steps are `InOrder` (`answer_read`).
-/

namespace SoulCloud

open Bytes
open Device (TaskAct)

variable {cfg : Config}

namespace TaskPc

/-- The call that is outstanding: between its two critical sections. -/
def outstanding : TaskPc → Option Call
  | .callClear c => some c
  | .callPublish c => some c
  | .callWait c => some c
  | .callEnd c _ => some c
  | _ => none

/-- The call whose answer is in `call_buf`. -/
def calling : TaskPc → Option Call
  | .callParse c _ _ _ => some c
  | pc => pc.outstanding

theorem outstanding_of_calling {pc : TaskPc} {c : Call} (h : pc.calling = some c) :
    pc.outstanding = some c ∨ pc.outstanding = none := by
  cases pc with
  | callParse _ _ _ _ => exact .inr rfl
  | _ => exact .inl h

theorem calling_of_outstanding {pc : TaskPc} {c : Call} (h : pc.outstanding = some c) :
    pc.calling = some c := by
  cases pc with
  | callParse _ _ _ _ => cases h
  | _ => exact h

end TaskPc

/-! ## The log -/

/-- What happened to the calls so far. -/
structure CallLog where
  /-- The number of calls begun. -/
  callNo : Nat
  /-- The messages of which at least the first fragment has arrived. -/
  arrived : List Message
  /-- The call that was the last to begin when the first fragment of the current
  message was handled. -/
  startedIn : Nat
  /-- The call that was the last to begin when a fragment was last accepted. -/
  acceptedIn : Nat
  /-- The message whose fragment was accepted last in the current call, and where that
  fragment ended. -/
  acc : Option (Message × Nat)
  /-- The last fragment of a response has been accepted in the current call. -/
  ended : Bool
  /-- Since then fragments have been accepted, and the latest is not the last of its message. -/
  reopened : Bool

/-- Fragments of the message being received are accepted as an answer. -/
def Link.Accepts (l : Link cfg) : Prop :=
  l.dev.mqtt.rxResponse = true ∧ l.dev.rpc.Ours l.dev.mqtt.correlation

instance (l : Link cfg) : Decidable l.Accepts := inferInstanceAs (Decidable (_ ∧ _))

/-- Nothing of the message comes after this fragment. -/
def Event.isLast (evt : Event) : Bool :=
  decide (evt.totalDataLen ≤ evt.currentDataOffset + evt.data.length)

namespace CallLog

def empty : CallLog := ⟨0, [], 0, 0, none, false, false⟩

/-- `handle_data` on a fragment. -/
def onData (l : Link cfg) (evt : Event) (h : CallLog) : CallLog where
  callNo := h.callNo
  arrived := h.arrived
  startedIn := if evt.currentDataOffset = 0 then h.callNo else h.startedIn
  acceptedIn := if l.Accepts then h.callNo else h.acceptedIn
  acc := if l.Accepts then l.cur else h.acc
  ended := if l.Accepts then h.ended || evt.isLast else h.ended
  reopened := if l.Accepts then h.ended && !evt.isLast else h.reopened

def update (l : Link cfg) (a : LinkAct) (_ : Link cfg) (h : CallLog) : CallLog :=
  match a with
  | .first m _ => { h with arrived := m :: h.arrived }
  | .mqtt =>
    match l.dev.mqttPc with
    | .data evt => onData l evt h
    | _ => h
  | .task (.callBegin _ _) =>
    { h with callNo := h.callNo + 1, acc := none, ended := false, reopened := false }
  | _ => h

end CallLog

theorem Link.not_accepts {l : Link cfg} (hres : l.dev.mqtt.rxResponse = false) : ¬ l.Accepts := by
  intro ha
  rw [ha.1] at hres
  cases hres

theorem CallLog.onData_accepted {l : Link cfg} (ha : l.Accepts) (evt : Event) (h : CallLog) :
    onData l evt h = { h with
      startedIn := if evt.currentDataOffset = 0 then h.callNo else h.startedIn
      acceptedIn := h.callNo
      acc := l.cur
      ended := h.ended || evt.isLast
      reopened := h.ended && !evt.isLast } := by
  rw [onData]
  rw [if_pos ha, if_pos ha, if_pos ha, if_pos ha]

theorem CallLog.onData_other {l : Link cfg} (hn : ¬ l.Accepts) (evt : Event) (h : CallLog) :
    onData l evt h = { h with
      startedIn := if evt.currentDataOffset = 0 then h.callNo else h.startedIn } := by
  rw [onData]
  rw [if_neg hn, if_neg hn, if_neg hn, if_neg hn]

/-- The link with the log of calls. -/
def callLogged (cfg : Config) : Lts (Link cfg × CallLog) LinkAct :=
  (link cfg).withHist .empty CallLog.update

/-! ## What a woken caller reads -/

/-- Message `m` is one of the messages that arrived, and a response to call `c`. -/
structure Response (cfg : Config) (arrived : List Message) (c : Call) (m : Message) : Prop where
  mem : m ∈ arrived
  isResponse : m.IsResponse cfg
  correlation : Property.responseCorrelation m.property = c.correlation

/-- After the last critical section of a call that was woken by `BIT_CALL_DONE`: either
the overflow flag was read and a response to the call is too large for `call_buf`, or
`call_buf[0, len)` is the payload of a response to the call. -/
def AnswerRead (l : Link cfg) (h : CallLog) : Prop :=
  ∀ c overflow len, l.dev.taskPc = .callParse c .ok overflow len →
    if overflow then ∃ m, Response cfg h.arrived c m ∧ 1024 ≤ m.payload.length
    else ∃ m, Response cfg h.arrived c m ∧ len = m.payload.length ∧
      l.dev.rpc.callBuf.text len = m.payload

/-! ## The condition -/

/-- The MQTT task has delivered an answer and is about to set `BIT_CALL_DONE`. -/
def MqttPc.isSetCallDone : MqttPc → Bool
  | .setCallDone => true
  | _ => false

/-- The steps after which a woken caller reads its answer:
- when `call` clears `BIT_CALL_DONE`, the MQTT task is not about to set it for a
  fragment that it accepted for an earlier call;
- no fragment is accepted of a message whose first fragment came before the call began;
- when a woken call enters its last critical section with nothing too large for `call_buf`, the
  last fragment that was accepted since a response had ended, if any, ends its message too. -/
def InOrder (p : Link cfg × CallLog) (a : LinkAct) : Prop :=
  match a with
  | .task .callClear => p.1.dev.mqttPc.isSetCallDone = true → p.2.acceptedIn = p.2.callNo
  | .mqtt =>
    match p.1.dev.mqttPc with
    | .data evt =>
      p.1.Accepts → evt.currentDataOffset = 0 ∨ p.2.startedIn = p.2.callNo
    | _ => True
  | .task .callEnd =>
    match p.1.dev.taskPc with
    | .callEnd _ .ok => p.1.dev.rpc.callOverflow = false → p.2.reopened = false
    | _ => True
  | _ => True

instance (p : Link cfg × CallLog) (a : LinkAct) : Decidable (InOrder p a) :=
  match a with
  | .mqtt => by
    unfold InOrder
    dsimp only
    split
    · infer_instance
    · exact .isTrue trivial
  | .task .callClear => inferInstanceAs (Decidable (_ → _))
  | .task .callEnd => by
    unfold InOrder
    dsimp only
    split
    · infer_instance
    · exact .isTrue trivial
  | .task .wake | .task .take | .task (.handle _) | .task (.respondOwn _) | .task (.respondRes _)
  | .task .giveBack | .task (.callBegin _ _) | .task (.callPublish _) | .task .callWake
  | .task .callTimeout | .task .callReturn | .first _ _ | .next _ | .connected _ | .disconnected
  | .otherEvent | .requestReport | .stop => .isTrue trivial

/-! ## The invariant -/

/-- Where the fragments of the current message stand when they are accepted: what has
been accepted of it in this call is all that has arrived of it. -/
def Continues (l : Link cfg) (h : CallLog) : Prop :=
  match l.dev.mqttPc with
  | .route _ | .fill _ _ => True
  | .data evt =>
    evt.currentDataOffset ≠ 0 → h.startedIn = h.callNo → l.Accepts →
      ∀ m e, l.cur = some (m, e) → h.acc = some (m, evt.currentDataOffset)
  | .idle | .submit | .setRequest | .setCallDone | .setConnected | .dropSlot _
  | .setDisconnected =>
    h.startedIn = h.callNo → l.Accepts → ∀ m e, l.cur = some (m, e) → h.acc = some (m, e)

/-- What `call_buf`, `call_len` and `call_overflow` say about the fragments accepted. -/
structure Buffered (l : Link cfg) (h : CallLog) (c : Call) : Prop where
  acc : ∀ m e, h.acc = some (m, e) → Response cfg h.arrived c m ∧ e ≤ m.payload.length ∧
    (l.dev.rpc.callOverflow = false →
      l.dev.rpc.callLen = e ∧ l.dev.rpc.callBuf.text e = m.payload.take e)
  overflow : l.dev.rpc.callOverflow = true →
    ∃ m, Response cfg h.arrived c m ∧ 1024 ≤ m.payload.length

/-- What being woken says: a response has come in to its end in this call, and when the buffer is
read it is the one that is in it. -/
structure Woken (l : Link cfg) (h : CallLog) : Prop where
  /-- The bit is set, or about to be, for a response that is complete. -/
  waiting : ∀ c, l.dev.taskPc = .callPublish c ∨ l.dev.taskPc = .callWait c →
    l.dev.bits.callDone = true ∨ l.dev.mqttPc.isSetCallDone = true → h.ended = true
  ended : ∀ c, l.dev.taskPc = .callEnd c .ok → h.ended = true
  read : ∀ c overflow len, l.dev.taskPc = .callParse c .ok overflow len → overflow = false →
    ∃ m, h.acc = some (m, m.payload.length)

/-- The invariant of the runs whose steps are in order. -/
structure Calling (l : Link cfg) (h : CallLog) : Prop where
  arrived : ∀ m e, l.cur = some (m, e) → m ∈ h.arrived
  started : h.startedIn ≤ h.callNo
  accepted : h.acceptedIn ≤ h.callNo
  setting : l.dev.mqttPc.isSetCallDone = true → h.acceptedIn = h.callNo → 0 < h.callNo →
    h.ended = true
  whole : h.ended = true → h.reopened = false → ∃ m, h.acc = some (m, m.payload.length)
  correlation : l.dev.rpc.callCorrelation =
    (l.dev.taskPc.outstanding.map Call.correlation).getD []
  numbered : ∀ c, l.dev.taskPc.calling = some c → 0 < h.callNo
  continues : Continues l h
  buffered : ∀ c, l.dev.taskPc.calling = some c → Buffered l h c
  woken : Woken l h
  read : ∀ c ret overflow len, l.dev.taskPc = .callParse c ret overflow len →
    overflow = l.dev.rpc.callOverflow ∧ len = l.dev.rpc.callLen

/-! ### Steps that do not touch a call -/

theorem Continues.of_not_accepts {l : Link cfg} {h : CallLog} (hn : ¬ l.Accepts) :
    Continues l h := by
  rw [Continues]
  split
  · trivial
  · trivial
  · exact fun _ _ ha => absurd ha hn
  all_goals exact fun _ ha => absurd ha hn

/-- Without a call the rest of the invariant is about the messages only. -/
theorem Calling.uncalled {l l' : Link cfg} {h : CallLog} (hinv : Calling l h)
    (hpc : l'.dev.taskPc.calling = none) (hcorr : l'.dev.rpc.callCorrelation = [])
    (hmqtt : l'.dev.mqttPc = l.dev.mqttPc) (hcur : l'.cur = l.cur) : Calling l' h where
  arrived m e hm := hinv.arrived m e (hcur ▸ hm)
  started := hinv.started
  accepted := hinv.accepted
  setting := hmqtt ▸ hinv.setting
  whole := hinv.whole
  correlation := by
    have hout : l'.dev.taskPc.outstanding = none := by
      cases ht : l'.dev.taskPc with
      | callParse _ _ _ _ => rfl
      | _ =>
        rw [ht] at hpc
        exact hpc
    rw [hcorr, hout]
    rfl
  numbered c hc := by rw [hpc] at hc; cases hc
  continues := .of_not_accepts fun ha => ha.2.1 hcorr
  buffered c hc := by rw [hpc] at hc; cases hc
  woken :=
    { waiting := fun c hc => by rcases hc with hc | hc <;> rw [hc] at hpc <;> cases hpc
      ended := fun c hc => by rw [hc] at hpc; cases hpc
      read := fun c overflow len hc => by rw [hc] at hpc; cases hpc }
  read c ret overflow len hc := by rw [hc] at hpc; cases hpc

theorem Response.mono {arrived arrived' : List Message} {c : Call} {m : Message}
    (hr : Response cfg arrived c m) (harr : ∀ m ∈ arrived, m ∈ arrived') :
    Response cfg arrived' c m :=
  ⟨harr m hr.mem, hr.isResponse, hr.correlation⟩

/-- A step of the MQTT task that accepts nothing and does not set `BIT_CALL_DONE`. -/
theorem Calling.quiet {l l' : Link cfg} {h h' : CallLog} (hinv : Calling l h)
    (hrpc : l'.dev.rpc.callBuf = l.dev.rpc.callBuf ∧ l'.dev.rpc.callLen = l.dev.rpc.callLen ∧
      l'.dev.rpc.callOverflow = l.dev.rpc.callOverflow ∧
      l'.dev.rpc.callCorrelation = l.dev.rpc.callCorrelation)
    (htask : l'.dev.taskPc = l.dev.taskPc)
    (hbit : l'.dev.bits.callDone = l.dev.bits.callDone)
    (hset : l'.dev.mqttPc.isSetCallDone = true → l.dev.mqttPc.isSetCallDone = true)
    (hcur : ∀ m e, l'.cur = some (m, e) → m ∈ h'.arrived)
    (harr : ∀ m ∈ h.arrived, m ∈ h'.arrived)
    (hsame : h' = { h with arrived := h'.arrived, startedIn := h'.startedIn })
    (hstarted : h'.startedIn ≤ h'.callNo) (hcont : Continues l' h') : Calling l' h' := by
  obtain ⟨hbuf, hlen, hover, hcorr⟩ := hrpc
  have hno : h'.callNo = h.callNo := by rw [hsame]
  have haccepted : h'.acceptedIn = h.acceptedIn := by rw [hsame]
  have hacc : h'.acc = h.acc := by rw [hsame]
  have hended : h'.ended = h.ended := by rw [hsame]
  have hreopened : h'.reopened = h.reopened := by rw [hsame]
  refine ⟨hcur, hstarted, ?_, ?_, ?_, ?_, ?_, hcont, ?_, ?_, ?_⟩
  · rw [haccepted, hno]
    exact hinv.accepted
  · rw [haccepted, hno, hended]
    exact fun hpc => hinv.setting (hset hpc)
  · rw [hended, hreopened, hacc]
    exact hinv.whole
  · rw [hcorr, htask]
    exact hinv.correlation
  · intro c hc
    rw [hno]
    exact hinv.numbered c (htask ▸ hc)
  · intro c hc
    obtain ⟨hacc', hover'⟩ := hinv.buffered c (htask ▸ hc)
    constructor
    · intro m e hm
      obtain ⟨hresp, hle, htext⟩ := hacc' m e (hacc ▸ hm)
      refine ⟨hresp.mono harr, hle, ?_⟩
      intro ho
      rw [hlen, hbuf]
      exact htext (hover ▸ ho)
    · intro ho
      obtain ⟨m, hresp, hbig⟩ := hover' (hover ▸ ho)
      exact ⟨m, hresp.mono harr, hbig⟩
  · obtain ⟨hwaiting, hwoken, hread⟩ := hinv.woken
    rw [← htask] at hwaiting hwoken hread
    refine ⟨?_, ?_, ?_⟩
    · intro c hc hwake
      rw [hended]
      exact hwaiting c hc (hwake.imp (fun hb => hbit ▸ hb) hset)
    · rw [hended]
      exact hwoken
    · rw [hacc]
      exact hread
  · rw [htask, hover, hlen]
    exact hinv.read

/-! ### Events -/

/-- The call's half of the state after the arrival of an event. -/
theorem event_call {l : Link cfg} (hs : l.dev.Settled) (e : MqttEvent) :
    ((l.dev.event e).rpc.callBuf = l.dev.rpc.callBuf ∧
      (l.dev.event e).rpc.callLen = l.dev.rpc.callLen ∧
      (l.dev.event e).rpc.callOverflow = l.dev.rpc.callOverflow ∧
      (l.dev.event e).rpc.callCorrelation = l.dev.rpc.callCorrelation) ∧
    (l.dev.event e).taskPc = l.dev.taskPc ∧
    (l.dev.event e).bits.callDone = l.dev.bits.callDone := by
  obtain ⟨⟨q, hq⟩, htask, hbits⟩ := hs.event_frame e
  rw [hq, hbits]
  exact ⟨⟨rfl, rfl, rfl, rfl⟩, htask, rfl⟩

theorem Calling.first {l : Link cfg} {h : CallLog} (hinv : Calling l h) (hs : l.dev.Settled)
    (m : Message) (len : Nat) :
    Calling ⟨l.dev.event (.data (m.fragment 0 len)), some (m, len)⟩
      { h with arrived := m :: h.arrived } := by
  obtain ⟨hrpc, htask, hbit⟩ := event_call hs (.data (m.fragment 0 len))
  have hpc : (l.dev.event (.data (m.fragment 0 len))).mqttPc = .route (m.fragment 0 len) := by
    rw [l.dev.event_first (m.fragment 0 len) rfl]
  refine hinv.quiet hrpc htask hbit ?_ ?_ (fun _ hm => List.mem_cons_of_mem _ hm) rfl
    hinv.started ?_
  · dsimp only
    rw [hpc]
    rintro ⟨⟩
  · intro m' e hm
    cases hm
    exact List.mem_cons_self
  · rw [Continues]
    dsimp only
    rw [hpc]
    trivial

theorem Calling.next {l : Link cfg} {h : CallLog} (hinv : Calling l h) (hs : l.dev.Settled)
    (hidle : l.dev.mqttPc = .idle) {m : Message} {off len : Nat} (hcur : l.cur = some (m, off))
    (hoff : off ≠ 0) :
    Calling ⟨l.dev.event (.data (m.fragment off len)), some (m, off + len)⟩ h := by
  obtain ⟨hrpc, htask, hbit⟩ := event_call hs (.data (m.fragment off len))
  have hcont := hinv.continues
  rw [Continues] at hcont
  rw [hidle] at hcont
  rw [l.dev.event_later (m.fragment off len) hoff] at hrpc htask hbit ⊢
  refine hinv.quiet hrpc htask hbit (by rintro ⟨⟩) ?_ (fun _ hm => hm) rfl hinv.started ?_
  · intro m' e hm
    cases hm
    exact hinv.arrived m off hcur
  · intro _ hstarted haccepts m' e hm
    cases hm
    exact hcont hstarted haccepts m off hcur

/-- Connecting and disconnecting. -/
theorem Calling.connection {l : Link cfg} {h : CallLog} (hinv : Calling l h)
    (hs : l.dev.Settled) (hidle : l.dev.mqttPc = .idle) (subscribed : Bool) :
    Calling ⟨l.dev.event (.connected subscribed), l.cur⟩ h ∧
      Calling ⟨l.dev.event .disconnected, none⟩ h := by
  have hcont := hinv.continues
  rw [Continues] at hcont
  rw [hidle] at hcont
  constructor
  · obtain ⟨hrpc, htask, hbit⟩ := event_call hs (.connected subscribed)
    cases subscribed with
    | true =>
      exact hinv.quiet hrpc htask hbit (by rintro ⟨⟩) hinv.arrived (fun _ hm => hm) rfl
        hinv.started hcont
    | false => exact hinv
  · obtain ⟨hrpc, htask, hbit⟩ := event_call hs .disconnected
    refine hinv.quiet hrpc htask hbit (by rintro ⟨⟩) ?_ (fun _ hm => hm) rfl
      hinv.started ?_
    · rintro m e ⟨⟩
    · rintro - - m e ⟨⟩

/-! ### The event handler -/

theorem Calling.startedIn_le {l : Link cfg} {h : CallLog} (hinv : Calling l h) (evt : Event) :
    (if evt.currentDataOffset = 0 then h.callNo else h.startedIn) ≤ h.callNo := by
  split
  · exact Nat.le_refl _
  · exact hinv.started

/-- What was accepted before a fragment is everything before it. -/
theorem Calling.accepted_before {l : Link cfg} {h : CallLog} {m : Message} {off len : Nat}
    (hinv : Calling l h) (hg : InOrder (l, h) .mqtt)
    (hpc : l.dev.mqttPc = .data (m.fragment off len))
    (ha : l.Accepts) (hcur : l.cur = some (m, off + len)) (hoff : off ≠ 0) :
    h.acc = some (m, off) := by
  have hcont := hinv.continues
  rw [Continues] at hcont
  rw [hpc] at hcont
  have hstarted : h.startedIn = h.callNo := by
    rw [InOrder] at hg
    dsimp only at hg
    rw [hpc] at hg
    exact (hg ha).resolve_left hoff
  exact hcont hoff hstarted ha m (off + len) hcur

/-- A message that is accepted answers the call in progress. -/
theorem Calling.response {l : Link cfg} {h : CallLog} {m : Message} {e : Nat} {c : Call}
    (hinv : Calling l h) (ha : l.Accepts) (hcur : l.cur = some (m, e)) (hres : m.IsResponse cfg)
    (hcorr : l.dev.mqtt.correlation = Property.responseCorrelation m.property)
    (hc : l.dev.taskPc.calling = some c) : Response cfg h.arrived c m := by
  refine ⟨hinv.arrived m e hcur, hres, ?_⟩
  have hcall := hinv.correlation
  -- A fragment is accepted only while the call is outstanding.
  rcases TaskPc.outstanding_of_calling hc with hout | hout
  · rw [hout] at hcall
    exact hcorr.symm.trans (ha.2.2.2.trans hcall)
  · rw [hout] at hcall
    exact absurd hcall ha.2.1

/-- The buffer after a fragment that continues what is in it. -/
theorem Buffered.deliver {l : Link cfg} {h h' : CallLog} {c : Call} {m : Message} {off len : Nat}
    {rpc : Rpc cfg} {b : Bool} {pc : MqttPc} (hbuf : Buffered l h c) (ha : l.Accepts)
    (hresp : Response cfg h.arrived c m) (hlen : off + len ≤ m.payload.length)
    (hbefore : off ≠ 0 → h.acc = some (m, off))
    (hrpc : l.dev.rpc.deliverResponse l.dev.mqtt.correlation (m.fragment off len).data off
      m.payload.length = some (rpc, b))
    (harr : h'.arrived = h.arrived) (hacc' : h'.acc = some (m, off + len)) :
    Buffered ⟨{ l.dev with rpc, mqttPc := pc }, l.cur⟩ h' c := by
  obtain ⟨rpc', hrpc', -, -, hfits, hover⟩ := l.dev.rpc.deliverResponse_spec
    l.dev.mqtt.correlation (m.fragment off len).data off m.payload.length
  obtain rfl : rpc = rpc' := congrArg Prod.fst (Option.some.inj (hrpc.symm.trans hrpc'))
  rw [m.fragment_data_length hlen] at hfits hover
  obtain ⟨hacc, hbig⟩ := hbuf
  rw [← harr] at hresp hbig
  by_cases hfit : off + len < 1024
  · obtain ⟨hkeep, hnew, htext⟩ := hfits ha.2 hfit
    refine ⟨?_, fun ho => hbig (hkeep ▸ ho)⟩
    intro m' e hm
    rw [hacc'] at hm
    cases hm
    refine ⟨hresp, hlen, fun ho => ⟨hnew, ?_⟩⟩
    rw [hnew] at htext
    rw [show rpc.callBuf.text (off + len) = _ from htext, ← m.take_append_fragment]
    by_cases hoff : off = 0
    · rw [hoff]
      rfl
    · obtain ⟨-, -, hold⟩ := hacc m off (hbefore hoff)
      rw [(hold (hkeep ▸ ho)).2]
  · -- The flag is set, and the message is too large for the buffer.
    have hfull : rpc.callOverflow = true := by rw [hover ha.2 (by omega)]
    refine ⟨?_, fun _ => ⟨m, hresp, by omega⟩⟩
    intro m' e hm
    rw [hacc'] at hm
    cases hm
    refine ⟨hresp, hlen, ?_⟩
    intro ho
    rw [show rpc.callOverflow = false from ho] at hfull
    cases hfull

/-- A response fragment is accepted. -/
theorem Calling.deliver {l : Link cfg} {h : CallLog} {evt : Event} {rpc : Rpc cfg}
    (hinv : Calling l h) (hears : l.Hears) (hg : InOrder (l, h) .mqtt)
    (hpc : l.dev.mqttPc = .data evt) (ha : l.Accepts)
    (hrpc : l.dev.rpc.deliverResponse l.dev.mqtt.correlation evt.data evt.currentDataOffset
      evt.totalDataLen = some (rpc, decide (l.dev.rpc.Ours l.dev.mqtt.correlation ∧
        evt.totalDataLen ≤ evt.currentDataOffset + evt.data.length)))
    (pc : MqttPc) (hpc' : pc = .idle ∨ pc = .setCallDone ∧ evt.isLast = true) :
    Calling ⟨{ l.dev with rpc, mqttPc := pc }, l.cur⟩ (CallLog.onData l evt h) := by
  rw [Link.Hears] at hears
  rw [hpc] at hears
  obtain ⟨m, off, len, hcur, rfl, hlen, -, hresp⟩ := hears
  obtain ⟨hisres, hcorr⟩ := hresp ha.1
  have hcallcorr : rpc.callCorrelation = l.dev.rpc.callCorrelation := by
    obtain ⟨rpc', hrpc', hsame, -⟩ := l.dev.rpc.deliverResponse_spec
      l.dev.mqtt.correlation (m.fragment off len).data off m.payload.length
    obtain rfl : rpc = rpc' := congrArg Prod.fst (Option.some.inj (hrpc.symm.trans hrpc'))
    rw [hsame]
  -- While a fragment is accepted there is no call that has ended.
  have hnot : ∀ c ret overflow len', l.dev.taskPc ≠ .callParse c ret overflow len' := by
    intro c ret overflow len' hc
    have hout := hinv.correlation
    rw [hc] at hout
    exact ha.2.1 hout
  rw [CallLog.onData_accepted ha]
  refine ⟨hinv.arrived, hinv.startedIn_le _, Nat.le_refl _, ?_, ?_, ?_, hinv.numbered, ?_, ?_, ?_,
    ?_⟩
  · rintro hset - -
    rcases hpc' with rfl | ⟨-, hlast⟩
    · cases hset
    · exact Bool.or_eq_true_iff.mpr (.inr hlast)
  · -- Only the last fragment of a message leaves nothing open.
    intro hended hreopened
    have hlast : (m.fragment off len).isLast = true := by
      by_contra hmore
      rw [Bool.not_eq_true] at hmore
      rw [hmore, Bool.or_false] at hended
      rw [hmore, hended] at hreopened
      cases hreopened
    have hend : m.payload.length ≤ off + len := by
      have hle := of_decide_eq_true hlast
      rwa [m.fragment_data_length hlen] at hle
    refine ⟨m, ?_⟩
    rw [Nat.le_antisymm hend hlen]
    exact hcur
  · dsimp only
    rw [hcallcorr]
    exact hinv.correlation
  · rcases hpc' with rfl | ⟨rfl, -⟩
    · exact fun _ _ _ _ hm => hm
    · exact fun _ _ _ _ hm => hm
  · intro c hc
    exact (hinv.buffered c hc).deliver ha (hinv.response ha hcur hisres hcorr hc) hlen
      (hinv.accepted_before hg hpc ha hcur) hrpc rfl hcur
  · refine ⟨fun c hc hwake => ?_, fun c hc => ?_, fun c overflow len' hc =>
      (hnot _ _ _ _ hc).elim⟩
    · rw [Bool.or_eq_true]
      rcases hwake with hbit | hset
      · exact .inl (hinv.woken.waiting c hc (.inl hbit))
      · rcases hpc' with rfl | ⟨-, hlast⟩
        · cases hset
        · exact .inr hlast
    · exact Bool.or_eq_true_iff.mpr (.inl (hinv.woken.ended c hc))
  · exact fun c ret overflow len' hc => (hnot _ _ _ _ hc).elim

/-- **Step lemma**: the event handler moves. -/
theorem Calling.mqtt {l : Link cfg} {dev : Device cfg} {h : CallLog} (hinv : Calling l h)
    (hears : l.Hears) (hg : InOrder (l, h) .mqtt) (hst : Device.MqttStep l.dev dev) :
    Calling ⟨dev, l.cur⟩ (CallLog.update l .mqtt ⟨dev, l.cur⟩ h) := by
  have hcont := hinv.continues
  have hhears := hears
  rw [Continues] at hcont
  rw [Link.Hears] at hhears
  rw [CallLog.update]
  cases hst with
  | takeSlot hpc =>
    rw [hpc]
    exact hinv.quiet ⟨rfl, rfl, rfl, rfl⟩ rfl rfl (by rintro ⟨⟩) hinv.arrived (fun _ hm => hm)
      rfl hinv.started trivial
  | busy hpc | response hpc | fill hpc | fillNone hpc =>
    rw [hpc] at hhears ⊢
    obtain ⟨m, len, -, rfl, -⟩ := hhears
    exact hinv.quiet ⟨rfl, rfl, rfl, rfl⟩ rfl rfl (by rintro ⟨⟩) hinv.arrived (fun _ hm => hm)
      rfl hinv.started fun h0 => absurd rfl h0
  | ignored hpc _ _ hpc' =>
    rw [hpc] at hhears ⊢
    obtain ⟨m, len, -, rfl, -, -, hres⟩ := hhears
    refine hinv.quiet ⟨rfl, rfl, rfl, rfl⟩ rfl rfl ?_ hinv.arrived (fun _ hm => hm) rfl
      hinv.started (.of_not_accepts (Link.not_accepts hres))
    rcases hpc' with rfl | rfl <;> rintro ⟨⟩
  | @deliver evt rpc hpc hres hrpc hsame =>
    rw [hpc]
    by_cases hours : l.dev.rpc.Ours l.dev.mqtt.correlation
    · refine hinv.deliver hears hg hpc ⟨hres, hours⟩ hrpc _ ?_
      split
      · next hlast => exact .inr ⟨rfl, decide_eq_true hlast.2⟩
      · exact .inl rfl
    · have hn : ¬ l.Accepts := fun ha => hours ha.2
      obtain ⟨rpc', hrpc', -, hskip, -⟩ := l.dev.rpc.deliverResponse_spec
        l.dev.mqtt.correlation evt.data evt.currentDataOffset evt.totalDataLen
      obtain rfl : rpc = rpc' := congrArg Prod.fst (Option.some.inj (hrpc.symm.trans hrpc'))
      show Calling _ (CallLog.onData l evt h)
      rw [hskip hours, CallLog.onData_other hn, if_neg fun hc => hours hc.1]
      exact hinv.quiet ⟨rfl, rfl, rfl, rfl⟩ rfl rfl (by rintro ⟨⟩) hinv.arrived (fun _ hm => hm)
        rfl (hinv.startedIn_le evt) (.of_not_accepts hn)
  | append hpc hres =>
    rw [hpc]
    dsimp only
    rw [CallLog.onData_other (Link.not_accepts hres)]
    refine hinv.quiet ⟨rfl, rfl, rfl, rfl⟩ rfl rfl ?_ hinv.arrived (fun _ hm => hm) rfl
      (hinv.startedIn_le _) (.of_not_accepts (Link.not_accepts hres))
    dsimp only
    split <;> rintro ⟨⟩
  | dropData hpc hres =>
    rw [hpc]
    dsimp only
    rw [CallLog.onData_other (Link.not_accepts hres)]
    exact hinv.quiet ⟨rfl, rfl, rfl, rfl⟩ rfl rfl (by rintro ⟨⟩) hinv.arrived (fun _ hm => hm)
      rfl (hinv.startedIn_le _) (.of_not_accepts (Link.not_accepts hres))
  | submit hpc | submitNone hpc | setRequest hpc | setConnected hpc | setDisconnected hpc =>
    rw [hpc] at hcont ⊢
    exact hinv.quiet ⟨rfl, rfl, rfl, rfl⟩ rfl rfl (by rintro ⟨⟩) hinv.arrived (fun _ hm => hm)
      rfl hinv.started hcont
  | @dropSlot was _ hpc =>
    rw [hpc] at hcont ⊢
    cases was with
    | false =>
      exact hinv.quiet ⟨rfl, rfl, rfl, rfl⟩ rfl rfl (by rintro ⟨⟩) hinv.arrived (fun _ hm => hm)
        rfl hinv.started hcont
    | true =>
      exact hinv.quiet ⟨rfl, rfl, rfl, rfl⟩ rfl rfl (by rintro ⟨⟩) hinv.arrived (fun _ hm => hm)
        rfl hinv.started hcont
  | setCallDone hpc =>
    rw [hpc] at hcont ⊢
    obtain ⟨harr, hstarted, haccepted, -, hwhole, hcorr, hno, -, hbuf, hwoken, hread⟩ := hinv
    refine ⟨harr, hstarted, haccepted, by rintro ⟨⟩, hwhole, hcorr, hno, hcont, ?_, ?_, hread⟩
    · intro c hc
      exact ⟨(hbuf c hc).acc, (hbuf c hc).overflow⟩
    · -- The bit that is set now was about to be set before.
      exact ⟨fun c hc _ => hwoken.waiting c hc (.inr (by rw [hpc]; rfl)), hwoken.ended, hwoken.read⟩

/-! ### The request task -/

/-- The outstanding call goes on. -/
theorem Calling.within {l : Link cfg} {h : CallLog} {c : Call} (hinv : Calling l h)
    (hout : l.dev.taskPc.outstanding = some c) {bits : EventBits} {pc : TaskPc}
    (hpc : pc.outstanding = some c)
    (hwoken : Woken ⟨{ l.dev with bits, taskPc := pc }, l.cur⟩ h) :
    Calling ⟨{ l.dev with bits, taskPc := pc }, l.cur⟩ h := by
  have hcall := TaskPc.calling_of_outstanding hout
  have hbuf := hinv.buffered c hcall
  have hcorr := hinv.correlation
  rw [hout] at hcorr
  refine ⟨hinv.arrived, hinv.started, hinv.accepted, hinv.setting, hinv.whole, ?_,
    fun _ _ => hinv.numbered c hcall, hinv.continues, ?_, hwoken, ?_⟩
  · show l.dev.rpc.callCorrelation = (pc.outstanding.map Call.correlation).getD []
    rw [hpc]
    exact hcorr
  · intro c' hc
    obtain rfl : c = c' :=
      Option.some.inj ((TaskPc.calling_of_outstanding hpc).symm.trans hc)
    exact ⟨hbuf.acc, hbuf.overflow⟩
  · rintro c' ret overflow len rfl
    cases hpc

/-- **Step lemma**: the request task moves. -/
theorem Calling.task {l : Link cfg} {dev : Device cfg} {h : CallLog} {a : TaskAct}
    (hinv : Calling l h) (hg : InOrder (l, h) (.task a)) (hst : Device.TaskStep l.dev a dev) :
    Calling ⟨dev, l.cur⟩ (CallLog.update l (.task a) ⟨dev, l.cur⟩ h) := by
  have hcorr := hinv.correlation
  cases hst with
  | wake hpc | take hpc | handle hpc | respondOwnForeign hpc | respondOwn hpc | respondRes hpc
  | giveBackFull hpc | callReturn hpc =>
    rw [hpc] at hcorr
    refine hinv.uncalled ?_ hcorr rfl rfl
    first | rfl | exact congrArg TaskPc.calling hpc
  | @giveBack idx rpc hpc hrpc =>
    obtain ⟨q, -, rfl⟩ := Option.map_eq_some_iff.mp hrpc
    rw [hpc] at hcorr
    exact hinv.uncalled rfl hcorr rfl rfl
  | @callBegin method params hpc =>
    -- A new number: nothing has been started or accepted in this call yet.
    have hstarted := hinv.started
    have haccepted := hinv.accepted
    refine ⟨hinv.arrived, Nat.le_succ_of_le hstarted, Nat.le_succ_of_le haccepted, ?_, ?_, rfl,
      fun _ _ => Nat.succ_pos _, ?_, fun c hc => ⟨?_, ?_⟩, ⟨?_, ?_, ?_⟩, ?_⟩
    · intro _ heq
      simp only [CallLog.update] at heq
      omega
    · rintro ⟨⟩
    · rw [Continues]
      split
      · trivial
      · trivial
      · intro _ heq
        simp only [CallLog.update] at heq
        omega
      all_goals
        intro heq
        simp only [CallLog.update] at heq
        omega
    · rintro m e ⟨⟩
    · rintro ⟨⟩
    · rintro c (⟨⟨⟩⟩ | ⟨⟨⟩⟩)
    · rintro c ⟨⟩
    · rintro c overflow len ⟨⟩
    · rintro c ret overflow len ⟨⟩
  | @callClear c hpc =>
    have hno := hinv.numbered c (by rw [hpc]; rfl)
    refine hinv.within (by rw [hpc]; rfl) rfl ⟨?_, by rintro c ⟨⟩, by rintro c overflow len ⟨⟩⟩
    -- The bit is clear now; only a fragment that has been accepted in this call can set it.
    rintro c' - (hbit | hset)
    · cases hbit
    · exact hinv.setting hset (hg hset) hno
  | @callPublish c env hpc hret =>
    exact hinv.within (by rw [hpc]; rfl) rfl
      ⟨fun _ _ hwake => hinv.woken.waiting c (.inl hpc) hwake, by rintro c ⟨⟩,
        by rintro c overflow len ⟨⟩⟩
  | @callPublishFailed c env hpc hret =>
    refine hinv.within (by rw [hpc]; rfl) rfl
      ⟨by rintro c (⟨⟨⟩⟩ | ⟨⟨⟩⟩), ?_, by rintro c overflow len ⟨⟩⟩
    intro c' hc
    injection hc with _ hok
    exact absurd hok hret
  | @callWake c hpc hbit =>
    exact hinv.within (by rw [hpc]; rfl) rfl
      ⟨by rintro c (⟨⟨⟩⟩ | ⟨⟨⟩⟩), fun _ _ => hinv.woken.waiting c (.inr hpc) (.inl hbit),
        by rintro c overflow len ⟨⟩⟩
  | @callTimeout c hpc hbit =>
    exact hinv.within (by rw [hpc]; rfl) rfl
      ⟨by rintro c (⟨⟨⟩⟩ | ⟨⟨⟩⟩), by rintro c ⟨⟩, by rintro c overflow len ⟨⟩⟩
  | @callEnd c ret hpc =>
    obtain ⟨harr, hstarted, haccepted, hset, hwhole, -, hno, hcont, hbuf, hwoken, hread⟩ := hinv
    have hno' := hno c (by rw [hpc]; rfl)
    have hbuf' := hbuf c (by rw [hpc]; rfl)
    rw [InOrder] at hg
    dsimp only at hg
    rw [hpc] at hg
    refine ⟨harr, hstarted, haccepted, hset, hwhole, rfl, fun _ _ => hno', ?_, ?_,
      ⟨?_, ?_, ?_⟩, ?_⟩
    · exact .of_not_accepts fun ha => ha.2.1 rfl
    · rintro c' ⟨⟩
      exact ⟨hbuf'.acc, hbuf'.overflow⟩
    · rintro c' (⟨⟨⟩⟩ | ⟨⟨⟩⟩)
    · rintro c' ⟨⟩
    · rintro c' overflow len ⟨⟩ hfits
      exact hwhole (hwoken.ended c hpc) (hg hfits)
    · rintro c' ret' overflow len ⟨⟩
      exact ⟨rfl, rfl⟩

/-! ## Every run -/

/-- **Step lemma**: any step of the link. -/
theorem Calling.step {l l' : Link cfg} {h : CallLog} {a : LinkAct} (hk : l.dev.Kept)
    (hears : l.Hears) (hinv : Calling l h) (hg : InOrder (l, h) a) (hst : l.step a = some l') :
    Calling l' (CallLog.update l a l' h) := by
  have hs := hk.settled
  cases Link.step_cases hst with
  | @first m len hidle hlen hempty => exact hinv.first hs m len
  | @next m off len hidle hcur hpos hlen =>
    exact hinv.next hs hidle hcur (hears.offset_ne_zero hidle hcur hpos hlen)
  | @connected subscribed hidle => exact (hinv.connection hs hidle subscribed).1
  | disconnected hidle => exact (hinv.connection hs hidle true).2
  | otherEvent => exact hinv
  | mqtt hdev => exact hinv.mqtt hears hg (hs.mqttStep_cases hdev)
  | task hdev => exact hinv.task hg hdev
  | requestReport | stop =>
    exact hinv.quiet ⟨rfl, rfl, rfl, rfl⟩ rfl rfl id hinv.arrived (fun _ hm => hm) rfl
      hinv.started hinv.continues

theorem calling_reach {p : Link cfg × CallLog} (h : (callLogged cfg).ReachBy InOrder p) :
    Calling p.1 p.2 := by
  have hinit : Calling (⟨Device.init cfg, none⟩ : Link cfg) .empty := by
    refine ⟨?_, Nat.le_refl _, Nat.le_refl _, ?_, ?_, rfl, ?_, ?_, ?_, ⟨?_, ?_, ?_⟩, ?_⟩
    · rintro m e ⟨⟩
    · rintro ⟨⟩
    · rintro ⟨⟩
    · rintro c ⟨⟩
    · rintro - - m e ⟨⟩
    · rintro c ⟨⟩
    · rintro c (⟨⟨⟩⟩ | ⟨⟨⟩⟩)
    · rintro c ⟨⟩
    · rintro c overflow len ⟨⟩
    · rintro c ret overflow len ⟨⟩
  refine h.invariant (I := fun p => Calling p.1 p.2) hinit ?_
  intro p a p' hp hI hg hst
  obtain ⟨hst', hlog⟩ := Lts.withHist_step hst
  have hlink := Lts.reach_fst hp
  rw [hlog]
  exact hI.step (Device.kept_reach (Link.reach_dev hlink)) (Link.hears_reach hlink) hg hst'

/-- **`BIT_CALL_DONE` says that the platform answered.** When the bit is set for a waiting call,
a response to it has come in to its last fragment, and it is the one accepted last unless a
further one has begun since. -/
theorem whole_of_callDone {l : Link cfg} {h : CallLog} {c : Call}
    (hreach : (callLogged cfg).ReachBy InOrder (l, h)) (hpc : l.dev.taskPc = .callWait c)
    (hbit : l.dev.bits.callDone = true) :
    h.ended = true ∧ (h.reopened = false →
      ∃ m, h.acc = some (m, m.payload.length) ∧ Response cfg h.arrived c m) := by
  have hinv := calling_reach hreach
  have hended : h.ended = true := hinv.woken.waiting c (.inr hpc) (.inl hbit)
  refine ⟨hended, fun hopen => ?_⟩
  obtain ⟨m, hacc⟩ := hinv.whole hended hopen
  obtain ⟨hresp, -, -⟩ := (hinv.buffered c (by rw [hpc]; rfl)).acc m _ hacc
  exact ⟨m, hacc, hresp⟩

/-- **A woken caller reads its answer**, in every run whose steps are in order. -/
theorem answer_read (cfg : Config) {l : Link cfg} {h : CallLog}
    (hreach : (callLogged cfg).ReachBy InOrder (l, h)) : AnswerRead l h := by
  intro c overflow len hpc
  have hinv := calling_reach hreach
  dsimp only at hinv
  have hcall : l.dev.taskPc.calling = some c := by rw [hpc]; rfl
  obtain ⟨hover, hlen⟩ := hinv.read c .ok overflow len hpc
  have hwhole := hinv.woken.read c overflow len hpc
  obtain ⟨hacc, hbig⟩ := hinv.buffered c hcall
  cases overflow with
  | true => exact hbig hover.symm
  | false =>
    obtain ⟨m, hm⟩ := hwhole rfl
    obtain ⟨hresp, -, htext⟩ := hacc m _ hm
    obtain ⟨hcallLen, hbuf⟩ := htext hover.symm
    refine ⟨m, hresp, hlen.trans hcallLen, ?_⟩
    rw [hlen, hcallLen, hbuf, List.take_length]

/-- The answer to the device's first call. -/
def firstAnswer : Message where
  topic := ascii "d/a1/down/res"
  property := some ⟨ascii "c1", [], nul_notMem_nil⟩
  payload := ascii "{}"

/-- A call that is answered in two fragments. -/
def answeredRun : List LinkAct :=
  [.connected true, .mqtt, .task (.callBegin (ascii "time") (ascii "{}")), .task .callClear,
    .task (.callPublish ⟨true, .ok, 1⟩), .first firstAnswer 1, .mqtt, .mqtt, .next 1, .mqtt,
    .mqtt, .task .callWake, .task .callEnd]

/-- The length of the answer that is about to be evaluated. -/
def TaskPc.answerLen : TaskPc → Option Nat
  | .callParse _ .ok false len => some len
  | _ => none

theorem TaskPc.exists_call {pc : TaskPc} {len : Nat} (h : pc.answerLen = some len) :
    ∃ c, pc = .callParse c .ok false len := by
  unfold answerLen at h
  split at h
  · cases h
    exact ⟨_, rfl⟩
  · cases h

/-- A woken caller reads its answer. -/
theorem answer_read_answered :
    ∃ p : Link .sample × CallLog, (callLogged .sample).ReachBy InOrder p ∧
      ∃ c len m, p.1.dev.taskPc = .callParse c .ok false len ∧
        Response .sample p.2.arrived c m ∧ p.1.dev.rpc.callBuf.text len = m.payload := by
  have hrun : ((callLogged .sample).runBy InOrder (callLogged .sample).init answeredRun).map
      (fun p => p.1.dev.taskPc.answerLen.isSome) = some true := by
    decide +kernel
  obtain ⟨p, hp, hcheck⟩ := Lts.exists_reachBy_of_runBy hrun
  obtain ⟨len, hlen⟩ := Option.isSome_iff_exists.mp hcheck
  obtain ⟨c, hpc⟩ := TaskPc.exists_call hlen
  obtain ⟨m, hresp, -, htext⟩ := answer_read .sample hp c false len hpc
  exact ⟨p, hp, c, len, m, hpc, hresp, htext⟩

/-- The answer to the first call has been accepted when that call times out, but
`BIT_CALL_DONE` is set for it only after the second call has cleared the bit. -/
def staleRun : List LinkAct :=
  [.connected true, .mqtt, .task (.callBegin (ascii "time") (ascii "{}")), .task .callClear,
    .task (.callPublish ⟨true, .ok, 1⟩), .first firstAnswer 2, .mqtt, .mqtt, .task .callTimeout,
    .task .callEnd, .task .callReturn, .task (.callBegin (ascii "ota.check") (ascii "{}")),
    .task .callClear, .mqtt, .task (.callPublish ⟨true, .ok, 2⟩), .task .callWake, .task .callEnd]

/-- The second call is woken with nothing in `call_buf`. -/
theorem answer_read_stale :
    ∃ p : Link .sample × CallLog, (callLogged .sample).run staleRun = some p ∧
      ¬ AnswerRead p.1 p.2 := by
  have hrun : ((callLogged .sample).run staleRun).map
      (fun p => decide (p.1.dev.taskPc.answerLen = some 0 ∧ ∀ m ∈ p.2.arrived, m.payload ≠ [])) =
        some true := by
    decide +kernel
  obtain ⟨p, hp, hcheck⟩ := Option.map_eq_some_iff.mp hrun
  refine ⟨p, hp, ?_⟩
  intro hread
  obtain ⟨hlen, hnone⟩ := of_decide_eq_true hcheck
  obtain ⟨c, hpc⟩ := TaskPc.exists_call hlen
  obtain ⟨m, hresp, hlen', -⟩ := hread c false _ hpc
  exact hnone m hresp.mem (List.length_eq_zero_iff.mp hlen'.symm)

end SoulCloud
