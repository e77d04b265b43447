import SoulCloud.Ownership

/-!
# Delivery of messages to the device

`device cfg` accepts any event at any time. `link cfg` restricts the data events
to what a broker and esp-mqtt produce: a message arrives as consecutive
fragments, from its first byte on, of which none is empty unless the message
is, and a disconnect forgets the message that was being received. Which message
comes next, how it is cut, whether it is abandoned for another first fragment
and how the two tasks interleave are all open.

- `Link`: the device beside the message being received.
- `LinkStep`: the steps of the link by label.
- `reach_dev`: a run of the link is a run of the device, so what `Ownership.lean`
  proves holds here as well.
-/

namespace SoulCloud

open Device (TaskAct)

/-- The device, with the message being received and how much of it has arrived. -/
structure Link (cfg : Config) where
  dev : Device cfg
  cur : Option (Message × Nat)

/-- The steps of the link. -/
inductive LinkAct where
  /-- The first `len` bytes of a message arrive. -/
  | first (m : Message) (len : Nat)
  /-- The next `len` bytes of the current message arrive. -/
  | next (len : Nat)
  | connected (subscribed : Bool)
  | disconnected
  | otherEvent
  /-- The MQTT task moves. -/
  | mqtt
  /-- The request task moves. -/
  | task (a : TaskAct)
  | requestReport
  | stop

namespace Link

variable {cfg : Config}

/-- The device moves and `cur` becomes the message being received. -/
def advance (l : Link cfg) (a : Device.Act) (cur : Option (Message × Nat)) : Option (Link cfg) :=
  (l.dev.step a).map fun dev => ⟨dev, cur⟩

def step (l : Link cfg) : LinkAct → Option (Link cfg)
  | .first m len =>
    if len ≤ m.payload.length ∧ (len = 0 → m.payload = []) then
      l.advance (.event (.data (m.fragment 0 len))) (some (m, len))
    else none
  | .next len =>
    match l.cur with
    | none => none
    | some (m, off) =>
      if 0 < len ∧ off + len ≤ m.payload.length then
        l.advance (.event (.data (m.fragment off len))) (some (m, off + len))
      else none
  | .connected subscribed => l.advance (.event (.connected subscribed)) l.cur
  -- The rest of a message does not arrive after a disconnect.
  | .disconnected => l.advance (.event .disconnected) none
  | .otherEvent => l.advance (.event .other) l.cur
  | .mqtt => l.advance .mqtt l.cur
  | .task a => l.advance (.task a) l.cur
  | .requestReport => l.advance .requestReport l.cur
  | .stop => l.advance .stop l.cur

/-- Step inversion: what each label needs and leaves. -/
inductive LinkStep (l : Link cfg) : LinkAct → Link cfg → Prop
  | first {m : Message} {len : Nat} (hidle : l.dev.mqttPc = .idle)
      (hlen : len ≤ m.payload.length) (hempty : len = 0 → m.payload = []) :
      LinkStep l (.first m len) ⟨l.dev.event (.data (m.fragment 0 len)), some (m, len)⟩
  | next {m : Message} {off len : Nat} (hidle : l.dev.mqttPc = .idle)
      (hcur : l.cur = some (m, off)) (hpos : 0 < len) (hlen : off + len ≤ m.payload.length) :
      LinkStep l (.next len) ⟨l.dev.event (.data (m.fragment off len)), some (m, off + len)⟩
  | connected {subscribed : Bool} (hidle : l.dev.mqttPc = .idle) :
      LinkStep l (.connected subscribed) ⟨l.dev.event (.connected subscribed), l.cur⟩
  | disconnected (hidle : l.dev.mqttPc = .idle) :
      LinkStep l .disconnected ⟨l.dev.event .disconnected, none⟩
  | otherEvent (hidle : l.dev.mqttPc = .idle) : LinkStep l .otherEvent l
  | mqtt {dev : Device cfg} (hdev : l.dev.mqttStep = some dev) : LinkStep l .mqtt ⟨dev, l.cur⟩
  | task {a : TaskAct} {dev : Device cfg} (hdev : Device.TaskStep l.dev a dev) :
      LinkStep l (.task a) ⟨dev, l.cur⟩
  | requestReport :
      LinkStep l .requestReport
        ⟨{ l.dev with bits := { l.dev.bits with reportStatus := true } }, l.cur⟩
  | stop :
      LinkStep l .stop ⟨{ l.dev with mqtt := { l.dev.mqtt with isConnected := false } }, l.cur⟩

theorem advance_event {l l' : Link cfg} {e : MqttEvent} {cur : Option (Message × Nat)}
    (h : l.advance (.event e) cur = some l') :
    l.dev.mqttPc = .idle ∧ l' = ⟨l.dev.event e, cur⟩ := by
  obtain ⟨dev, hdev, rfl⟩ := Option.map_eq_some_iff.mp h
  simp only [Device.step] at hdev
  split at hdev
  · rename_i hidle
    cases hdev
    exact ⟨hidle, rfl⟩
  · cases hdev

theorem step_cases {l l' : Link cfg} {a : LinkAct} (h : l.step a = some l') :
    LinkStep l a l' := by
  cases a with
  | first m len =>
    simp only [step] at h
    split at h
    · rename_i hfit
      obtain ⟨hidle, rfl⟩ := advance_event h
      exact .first hidle hfit.1 hfit.2
    · cases h
  | next len =>
    simp only [step] at h
    split at h
    · cases h
    · rename_i hcur
      split at h
      · rename_i hfit
        obtain ⟨hidle, rfl⟩ := advance_event h
        exact .next hidle hcur hfit.1 hfit.2
      · cases h
  | connected subscribed =>
    obtain ⟨hidle, rfl⟩ := advance_event h
    exact .connected hidle
  | disconnected =>
    obtain ⟨hidle, rfl⟩ := advance_event h
    exact .disconnected hidle
  | otherEvent =>
    obtain ⟨hidle, rfl⟩ := advance_event h
    exact .otherEvent hidle
  | mqtt =>
    obtain ⟨dev, hdev, rfl⟩ := Option.map_eq_some_iff.mp h
    exact .mqtt hdev
  | task a =>
    obtain ⟨dev, hdev, rfl⟩ := Option.map_eq_some_iff.mp h
    exact .task (Device.taskStep_cases hdev)
  | requestReport =>
    cases h
    exact .requestReport
  | stop =>
    cases h
    exact .stop

/-- Every step of the link is a step of the device. -/
theorem step_dev {l l' : Link cfg} {a : LinkAct} (h : l.step a = some l') :
    ∃ b, l.dev.step b = some l'.dev := by
  have hadvance : ∀ {b : Device.Act} {cur : Option (Message × Nat)},
      l.advance b cur = some l' → ∃ b, l.dev.step b = some l'.dev := by
    intro b cur hb
    obtain ⟨dev, hdev, rfl⟩ := Option.map_eq_some_iff.mp hb
    exact ⟨b, hdev⟩
  cases a with
  | first m len =>
    simp only [step] at h
    split at h
    · exact hadvance h
    · cases h
  | next len =>
    simp only [step] at h
    split at h
    · cases h
    · split at h
      · exact hadvance h
      · cases h
  | connected _ | disconnected | otherEvent | mqtt | task _ | requestReport | stop =>
    exact hadvance h

end Link

/-- The link as a transition system. -/
def link (cfg : Config) : Lts (Link cfg) LinkAct := ⟨⟨Device.init cfg, none⟩, Link.step⟩

variable {cfg : Config}

/-- A run of the link is a run of the device. -/
theorem Link.reach_dev {g : Link cfg → LinkAct → Prop} {l : Link cfg}
    (h : (link cfg).ReachBy g l) : (device cfg).Reach l.dev :=
  h.map (T := device cfg) rfl fun _ _ _ hst => by
    obtain ⟨b, hb⟩ := Link.step_dev hst
    exact .inr ⟨b, trivial, hb⟩

/-! ## Events and the message they belong to -/

namespace Link

/-- Message `m` is a response and `rx_correlation` holds its correlation. -/
def FromResponse (l : Link cfg) (m : Message) : Prop :=
  m.IsResponse cfg ∧ l.dev.mqtt.correlation = Property.responseCorrelation m.property

/-- The event in the handler is a fragment of the message being received, and
`rx_response` is set only while that message is a response. -/
def Hears (l : Link cfg) : Prop :=
  match l.dev.mqttPc with
  | .route evt | .fill evt _ =>
    ∃ m len, l.cur = some (m, len) ∧ evt = m.fragment 0 len ∧ len ≤ m.payload.length ∧
      (len = 0 → m.payload = []) ∧ l.dev.mqtt.rxResponse = false
  | .data evt =>
    ∃ m off len, l.cur = some (m, off + len) ∧ evt = m.fragment off len ∧
      off + len ≤ m.payload.length ∧ (off + len = 0 → m.payload = []) ∧
      (l.dev.mqtt.rxResponse = true → l.FromResponse m)
  | .idle | .submit | .setRequest | .setCallDone | .setConnected | .dropSlot _
  | .setDisconnected =>
    ∀ m off, l.cur = some (m, off) →
      (off = 0 → m.payload = []) ∧ (l.dev.mqtt.rxResponse = true → l.FromResponse m)

theorem Hears.congr {l l' : Link cfg} (h : Hears l) (hcur : l'.cur = l.cur)
    (hpc : l'.dev.mqttPc = l.dev.mqttPc)
    (hres : l'.dev.mqtt.rxResponse = l.dev.mqtt.rxResponse)
    (hcorr : l'.dev.mqtt.correlation = l.dev.mqtt.correlation) : Hears l' := by
  unfold Hears FromResponse at h ⊢
  rw [hcur, hpc, hres, hcorr]
  exact h

theorem Hears.idle {l : Link cfg} (h : Hears l) (hidle : l.dev.mqttPc = .idle) {m : Message}
    {off : Nat} (hcur : l.cur = some (m, off)) :
    (off = 0 → m.payload = []) ∧ (l.dev.mqtt.rxResponse = true → l.FromResponse m) := by
  unfold Hears at h
  rw [hidle] at h
  exact h m off hcur

/-- A later fragment has a non-zero offset. -/
theorem Hears.offset_ne_zero {l : Link cfg} (h : Hears l) (hidle : l.dev.mqttPc = .idle)
    {m : Message} {off len : Nat} (hcur : l.cur = some (m, off)) (hpos : 0 < len)
    (hlen : off + len ≤ m.payload.length) : off ≠ 0 := by
  intro h0
  rw [(h.idle hidle hcur).1 h0, List.length_nil] at hlen
  omega

theorem Hears.mqtt {l : Link cfg} {dev : Device cfg} (h : Hears l)
    (hst : Device.MqttStep l.dev dev) : Hears ⟨dev, l.cur⟩ := by
  unfold Hears at h
  cases hst with
  | takeSlot hpc | busy hpc | fill hpc | fillNone hpc =>
    rw [hpc] at h
    obtain ⟨m, len, hcur, rfl, hlen, hempty, hres⟩ := h
    first
    | exact ⟨m, len, hcur, rfl, hlen, hempty, hres⟩
    | exact ⟨m, 0, len, by rw [hcur, Nat.zero_add], rfl, by omega, by simpa using hempty,
        fun hr => by rw [hres] at hr; cases hr⟩
  | @response evt b len hpc hresp hcorr =>
    -- The one place `rx_response` is set, together with the correlation of this message.
    rw [hpc] at h
    obtain ⟨m, len, hcur, rfl, hlen, hempty, -⟩ := h
    exact ⟨m, 0, len, by rw [hcur, Nat.zero_add], rfl, by omega, by simpa using hempty,
      fun _ => ⟨hresp, hcorr⟩⟩
  | @ignored evt pc hpc hreq hresp hpc' =>
    rw [hpc] at h
    obtain ⟨m, len, hcur, rfl, hlen, hempty, hres⟩ := h
    have hnot : l.dev.mqtt.rxResponse = true → l.FromResponse m := fun hr => by
      rw [hres] at hr
      cases hr
    rcases hpc' with rfl | rfl
    · intro m' off hm'
      rw [show l.cur = some (m', off) from hm'] at hcur
      cases hcur
      exact ⟨hempty, hnot⟩
    · exact ⟨m, 0, len, by rw [hcur, Nat.zero_add], rfl, by omega, by simpa using hempty, hnot⟩
  | deliver hpc | append hpc | dropData hpc =>
    rw [hpc] at h
    obtain ⟨m, off, len, hcur, rfl, hlen, hempty, hres⟩ := h
    have hnew : ∀ m' off', l.cur = some (m', off') →
        (off' = 0 → m'.payload = []) ∧ (l.dev.mqtt.rxResponse = true → l.FromResponse m') := by
      intro m' off' hm'
      rw [hcur] at hm'
      cases hm'
      exact ⟨hempty, hres⟩
    unfold Hears
    dsimp only
    first
    | exact hnew
    | split <;> rename_i hif <;> split at hif <;> cases hif <;> exact hnew
  | submit hpc | submitNone hpc | setRequest hpc | setCallDone hpc | setConnected hpc
  | setDisconnected hpc =>
    rw [hpc] at h
    exact h
  | @dropSlot was q hpc hitems =>
    rw [hpc] at h
    cases was <;> exact h

/-- **Step lemma**: any step of the link. -/
theorem Hears.step {l l' : Link cfg} {a : LinkAct} (hs : l.dev.Settled) (h : Hears l)
    (hst : LinkStep l a l') : Hears l' := by
  cases hst with
  | @first m len hidle hlen hempty =>
    obtain ⟨q, hq, -⟩ := hs.giveBackRx
    have hevent := l.dev.event_first (m.fragment 0 len) rfl
    rw [hq] at hevent
    rw [hevent]
    exact ⟨m, len, rfl, rfl, hlen, hempty, rfl⟩
  | @next m off len hidle hcur hpos hlen =>
    have hoff := h.offset_ne_zero hidle hcur hpos hlen
    rw [l.dev.event_later (m.fragment off len) hoff]
    exact ⟨m, off, len, rfl, rfl, hlen, fun h0 => by omega, (h.idle hidle hcur).2⟩
  | @connected subscribed hidle =>
    cases subscribed with
    | true => exact fun m off hcur => h.idle hidle hcur
    | false => exact h
  | disconnected hidle =>
    intro m off hcur
    cases hcur
  | otherEvent => exact h
  | mqtt hdev => exact h.mqtt (hs.mqttStep_cases hdev)
  | task hdev =>
    refine h.congr rfl ?_ ?_ ?_ <;> cases hdev <;> rfl
  | requestReport => exact h.congr rfl rfl rfl rfl
  | stop => exact h.congr rfl rfl rfl rfl

end Link

theorem Link.hears_reach {g : Link cfg → LinkAct → Prop} {l : Link cfg}
    (h : (link cfg).ReachBy g l) : l.Hears := by
  have hinit : Link.Hears (⟨Device.init cfg, none⟩ : Link cfg) := by
    intro m off hcur
    cases hcur
  refine h.invariant hinit ?_
  intro l a l' hl hI _ hst
  exact hI.step (Device.kept_reach (Link.reach_dev hl)).settled (Link.step_cases hst)

end SoulCloud
