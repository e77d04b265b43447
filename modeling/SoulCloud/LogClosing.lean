import SoulCloud.LogUplink

/-!
# How a message on `log/bin` ends (`upload_bin`)

A batch is closed with a TIME_SYNC packet and published with the configured QoS. A packet that is
too big for a batch is published as it is, with QoS 0.

- `LogOptions.Closed`: what a message on `log/bin` is to be like.
- `TakenPacket`, `takings`: the packets that the upload task has taken from the ring buffer.
- `LogOptions.Closes`: a packet that fits in a batch, and the few others that do no harm.
- `takings_step`: what one step publishes is as it should be if the packet it takes is such a one.
- `log_bin_closed_iff`: **so it is in a whole run, and in no other**.
-/

namespace SoulCloud

open Bytes

/-- The message of a call that publishes on `log/bin`, if it reached esp-mqtt. -/
def UploadCall.binMessage? : UploadCall → Option Published
  | .publish .bin _ _ _ sent => sent
  | _ => none

/-- The messages on `log/bin`, in order. -/
def binMessages (calls : List UploadCall) : List Published :=
  calls.filterMap UploadCall.binMessage?

/-- The bytes end with a TIME_SYNC packet that carries the boot id. -/
def LogOptions.EndsWithSync (o : LogOptions) (data : Bytes) : Prop :=
  ∃ body now, data = body ++ o.timeSync o.bootId now

/-- What a message on `log/bin` is to be like. -/
structure LogOptions.Closed (o : LogOptions) (m : Published) : Prop where
  qos : m.qos = o.qos
  data : o.EndsWithSync m.data

/-- esp-mqtt is given what is published now. -/
def MqttMoment.Reaches (m : MqttMoment) : Prop :=
  m.isConnected = true ∧ m.env.locked = true ∧ m.env.property = .ok

instance (m : MqttMoment) : Decidable m.Reaches := inferInstanceAs (Decidable (_ ∧ _))

/-- A packet from the ring buffer, and what `sc_mqtt` finds if it is published on its own. -/
structure TakenPacket where
  packet : Bytes
  moment : MqttMoment

/-- The packet fits in a batch, or does not reach esp-mqtt, or is by itself like a batch. -/
def LogOptions.Closes (o : LogOptions) (r : TakenPacket) : Prop :=
  r.packet.length ≤ o.cap .bin ∨ ¬ r.moment.Reaches ∨
    o.qos1 = false ∧ o.EndsWithSync r.packet

/-- The packet that a step takes. -/
def noteTaken {o : LogOptions} (s : UploadState o) (a : UploadAct) (_ : UploadState o)
    (taken : List TakenPacket) : List TakenPacket :=
  match a, s.pc, s.ring .bin with
  | .next _ _ second, .drain .bin _, packet :: _ => taken ++ [⟨packet, second⟩]
  | _, _, _ => taken

/-- The logging tasks and the upload task, with the packets that have been taken. -/
def takings (o : LogOptions) : Lts (UploadState o × List TakenPacket) UploadAct :=
  (uploads o).withHist [] noteTaken

theorem binMessages_append (calls new : List UploadCall) :
    binMessages (calls ++ new) = binMessages calls ++ binMessages new :=
  List.filterMap_append

section Messages

variable {o : LogOptions}

/-- What of a publish reaches esp-mqtt. -/
theorem sent_published (o : LogOptions) (report : Nat) (data : Bytes) (qos : Nat)
    (m : MqttMoment) :
    (o.published .bin report data qos m).binMessage? =
      if m.Reaches then
        some ⟨o.cfg.upTopic ++ LogKind.bin.subTopic, data, qos,
          some ⟨some LogKind.bin.contentType, [], none⟩⟩
      else none := by
  have hshort : LogKind.bin.subTopic.length ≤ 64 := by decide
  show (publish o.cfg m.isConnected m.env LogKind.bin.subTopic data qos
    (some ⟨some LogKind.bin.contentType, [], none⟩)).2 = _
  rw [publish_of_short hshort, publishTopic, if_neg (not_not.mpr (List.prefix_append _ _))]
  by_cases hreaches : m.Reaches
  · obtain ⟨hconn, hlocked, hproperty⟩ := hreaches
    have hset : propertyRet m.env (some ⟨some LogKind.bin.contentType, [], none⟩) = .ok := hproperty
    rw [if_neg (not_not.mpr hconn), if_neg (not_not.mpr hlocked), if_pos hset,
      if_pos ⟨hconn, hlocked, hproperty⟩]
  · rw [if_neg hreaches]
    split_ifs with hconn hlocked hproperty
    · exact absurd ⟨hconn, hlocked, hproperty⟩ hreaches
    · rfl
    · rfl
    · rfl

theorem forall_binMessages_published {P : Published → Prop} {report : Nat} {data : Bytes}
    {qos : Nat} {m : MqttMoment} :
    (∀ msg ∈ binMessages [o.published .bin report data qos m], P msg) ↔
      (m.Reaches → P ⟨o.cfg.upTopic ++ LogKind.bin.subTopic, data, qos,
        some ⟨some LogKind.bin.contentType, [], none⟩⟩) := by
  have hsent := sent_published o report data qos m
  by_cases hreaches : m.Reaches
  · rw [if_pos hreaches] at hsent
    rw [binMessages, List.filterMap_cons_some hsent]
    simp [hreaches]
  · rw [if_neg hreaches] at hsent
    rw [binMessages, List.filterMap_cons_none hsent]
    simp [hreaches]

/-- A batch is closed before it is published. -/
theorem closed_batch (report : Nat) (d : Bytes) (now : BitVec 64) (m : MqttMoment) :
    ∀ msg ∈ binMessages [o.published .bin report (d ++ o.closing .bin now) o.qos m],
      o.Closed msg :=
  forall_binMessages_published.mpr fun _ => ⟨rfl, d, now, rfl⟩

/-- A packet that is published on its own. -/
theorem closed_alone_iff {r : TakenPacket} (hbig : o.cap .bin < r.packet.length) :
    (∀ msg ∈ binMessages [o.published .bin 0 r.packet 0 r.moment], o.Closed msg) ↔
      o.Closes r := by
  have hqos : 0 = o.qos ↔ o.qos1 = false := by
    rw [LogOptions.qos]
    cases o.qos1 with
    | true => decide
    | false => decide
  rw [forall_binMessages_published, LogOptions.Closes, or_iff_right (not_le.mpr hbig), ← hqos]
  constructor
  · intro h
    by_cases hreaches : r.moment.Reaches
    · obtain ⟨hzero, hends⟩ := h hreaches
      exact .inr ⟨hzero, hends⟩
    · exact .inl hreaches
  · rintro (hnot | ⟨hzero, hends⟩) hreaches
    · exact absurd hreaches hnot
    · exact ⟨hzero, hends⟩

/-- **Step lemma**: what a step publishes on `log/bin` is as it is to be if and only if the packet
that it takes closes. -/
theorem takings_step {p p' : UploadState o × List TakenPacket} {a : UploadAct}
    (h : (takings o).step p a = some p') (hs : UploadState.Filled p.1) :
    ∃ calls new, p'.1.calls = p.1.calls ++ calls ∧ p'.2 = p.2 ++ new ∧
      ((∀ m ∈ binMessages calls, o.Closed m) ↔ ∀ r ∈ new, o.Closes r) := by
  obtain ⟨s, taken⟩ := p
  obtain ⟨s', taken'⟩ := p'
  obtain ⟨hst, hnote⟩ := Lts.withHist_step h
  dsimp only at hst hnote hs ⊢
  cases UploadState.step_cases hst with
  | accept | drop =>
    exact ⟨_, [], rfl, hnote.trans (List.append_nil taken).symm, iff_of_true nofun nofun⟩
  | wake =>
    exact ⟨[], [], (List.append_nil _).symm, hnote.trans (List.append_nil taken).symm,
      iff_of_true nofun nofun⟩
  | begin hpc =>
    exact ⟨_, [], (UploadState.uploadStart_holding (hs.dropped_lt _) _).calls_eq,
      hnote.trans (List.append_nil taken).symm, iff_of_true nofun nofun⟩
  | @item k report item rest now first second hpc hring =>
    have hcalls := (UploadState.uploadItem_holding report rest (hs.len_le _ _ hpc)
      (hs.line_of_ring hring) now first second).calls_eq
    rw [List.append_assoc] at hcalls
    cases k with
    | text =>
      have hquiet : ∀ t, noteTaken s (.next now first second) t taken = taken := by
        intro t
        simp only [noteTaken, hpc]
      refine ⟨_, [], hcalls, hnote.trans ((hquiet _).trans (List.append_nil taken).symm), ?_⟩
      refine iff_of_true ?_ nofun
      split_ifs <;> exact nofun
    | bin =>
      have htaken : ∀ t, noteTaken s (.next now first second) t taken =
          taken ++ [⟨item, second⟩] := by
        intro t
        simp only [noteTaken, hpc, hring]
      refine ⟨_, [⟨item, second⟩], hcalls, hnote.trans (htaken _), ?_⟩
      have hbatch : ∀ msg ∈ binMessages (if s.Full .bin item then
          [o.published .bin report (s.contents ++ o.closing .bin now) o.qos first] else []),
          o.Closed msg := by
        split_ifs
        · exact closed_batch report _ now first
        · exact nofun
      rw [binMessages_append, List.forall_mem_append, and_iff_right hbatch,
        List.forall_mem_singleton]
      by_cases hbig : o.cap .bin < item.length
      · rw [if_pos hbig]
        exact @closed_alone_iff o ⟨item, second⟩ hbig
      · rw [if_neg hbig]
        exact iff_of_true nofun (.inl (not_lt.mp hbig))
  | @finish k report now first second hpc hring =>
    have hcalls := (UploadState.uploadEnd_holding report (hs.len_le _ _ hpc) now first).calls_eq
    have hquiet : ∀ t, noteTaken s (.next now first second) t taken = taken := by
      intro t
      cases k with
      | bin => simp only [noteTaken, hpc, hring]
      | text => simp only [noteTaken, hpc]
    refine ⟨_, [], hcalls, hnote.trans ((hquiet _).trans (List.append_nil taken).symm), ?_⟩
    refine iff_of_true ?_ nofun
    split_ifs
    · cases k with
      | bin => exact closed_batch report _ now first
      | text => exact nofun
    · exact nofun

/-- **Every message on `log/bin` ends with a TIME_SYNC packet and has the configured QoS** exactly
in the runs in which every packet taken from the ring buffer fits in a batch, or does not reach
esp-mqtt, or is by itself like a batch that is sent with QoS 0. -/
theorem log_bin_closed_iff (o : LogOptions) {p : UploadState o × List TakenPacket}
    (h : (takings o).Reach p) :
    (∀ m ∈ binMessages p.1.calls, o.Closed m) ↔ ∀ r ∈ p.2, o.Closes r := by
  induction h with
  | init => exact iff_of_true nofun nofun
  | step hp _ hst ih =>
    have hfilled := UploadState.filled_of_reach (Lts.reach_fst hp)
    obtain ⟨calls, new, hcalls, hnew, hiff⟩ := takings_step hst hfilled
    rw [hcalls, hnew, binMessages_append, List.forall_mem_append, List.forall_mem_append, ih, hiff]

/-- A packet that fits goes out in a batch. -/
theorem log_bin_closed_sample :
    ∃ p, (takings .sample).Reach p ∧ (binMessages p.1.calls).length = 1 ∧
      ((∀ m ∈ binMessages p.1.calls, LogOptions.sample.Closed m) ↔
        ∀ r ∈ p.2, LogOptions.sample.Closes r) := by
  have hrun : ((takings .sample).run [.accept .bin [165, 16, 0, 1, 7], .wake true, .begin 0,
      .next 0 .sample .sample, .next 0 .sample .sample]).map
      (fun p => decide ((binMessages p.1.calls).length = 1)) = some true := by
    decide +kernel
  obtain ⟨p, hp, hcheck⟩ := Lts.exists_reach_of_run hrun
  exact ⟨p, hp, of_decide_eq_true hcheck, log_bin_closed_iff .sample hp⟩

/-- Packets with up to 65535 bytes of payload. -/
def LogOptions.dumps : LogOptions :=
  { LogOptions.sample with
    payloadLen := fun header => (header.getD 2 0).toNat + 256 * (header.getD 3 0).toNat }

/-- A packet of 492 bytes, where a batch has room for 490: it goes out with QoS 0 although QoS 1 is
configured, and its last byte is one of its payload. -/
theorem log_bin_alone :
    ∃ s, (uplink .dumps).Reach s ∧ ∃ m ∈ binMessages s.uploader.calls,
      m.qos ≠ LogOptions.dumps.qos ∧ ¬ LogOptions.dumps.EndsWithSync m.data := by
  have hrun : ((uplink .dumps).run [.sinkStart (some [165, 16, 232, 1]) (some fun _ => 0),
      .sinkPayload (List.replicate 488 7), .sinkEnd, .wake true, .begin 0,
      .next 0 .sample .sample]).map
      (fun s => (binMessages s.uploader.calls).any fun m =>
        decide (m.qos = 0 ∧ m.data.getLast? = some 7)) = some true := by
    decide +kernel
  obtain ⟨s, hs, hcheck⟩ := Lts.exists_reach_of_run hrun
  obtain ⟨m, hm, hlast⟩ := List.any_eq_true.mp hcheck
  obtain ⟨hqos, hseven⟩ := of_decide_eq_true hlast
  refine ⟨s, hs, m, hm, ?_, ?_⟩
  · rw [hqos]
    decide
  · rintro ⟨body, now, hdata⟩
    have hsync : LogOptions.dumps.timeSync LogOptions.dumps.bootId now = [165, 96, 1, 0] := rfl
    rw [hdata, hsync, List.getLast?_append] at hseven
    cases hseven

end Messages

end SoulCloud
