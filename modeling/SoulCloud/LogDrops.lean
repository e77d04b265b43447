import SoulCloud.LogDelivery

/-!
# Conservation of drop counts (`bin_dropped`, `text_dropped`)

An upload takes a counter before the payload that reports it is filled and sent. Where a count is
then: in a payload that was published, in one whose publish failed, in the counter, or in the
batch.

- `drop_ledger`: in every run these four make up all the drops of a log.
- `report_of_publish`: a payload that carries a count begins with the report of it.
- `CountArrives`, `drops_conserved`: **no count is lost, as long as the publishes that carry one
  succeed**; `drops_lost` is a run with one that does not.
-/

namespace SoulCloud

open Bytes

/-! ## Where the counts are -/

namespace UploadCall

variable (kind : LogKind)

/-- The drops of a log that a successful publish reports. -/
def delivered : UploadCall → Nat
  | .publish k report _ ret _ => if k = kind ∧ ret = .ok then report else 0
  | _ => 0

/-- Those that a failed one would have reported. -/
def lost : UploadCall → Nat
  | .publish k report _ ret _ => if k = kind ∧ ret ≠ .ok then report else 0
  | _ => 0

/-- The count that a payload of the log carries. -/
def count : UploadCall → Nat
  | .publish k report _ _ _ => if k = kind then report else 0
  | _ => 0

theorem delivered_add_lost (c : UploadCall) : c.delivered kind + c.lost kind = c.count kind := by
  cases c with
  | publish k report data ret sent =>
    by_cases hok : ret = .ok
    · simp [delivered, lost, count, hok]
    · simp [delivered, lost, count, hok]
  | accepted k item => rfl
  | dropped k => rfl
  | taken k n => rfl

end UploadCall

/-- The count in the batch. -/
def UploadPc.carried (kind : LogKind) : UploadPc → Nat
  | .drain k report => if k = kind then report else 0
  | _ => 0

namespace UploadState

variable {o : LogOptions}

def drops (s : UploadState o) (kind : LogKind) : Nat := s.calls.countP (·.isDrop kind)

def delivered (s : UploadState o) (kind : LogKind) : Nat := (s.calls.map (·.delivered kind)).sum

def lost (s : UploadState o) (kind : LogKind) : Nat := (s.calls.map (·.lost kind)).sum

/-- Every drop of a log is accounted for. The counter is a `uint32_t`. -/
def Ledger (s : UploadState o) (kind : LogKind) : Prop :=
  s.drops kind ≡ s.delivered kind + s.lost kind + s.dropped kind + s.pc.carried kind [MOD 2 ^ 32]

variable {s s' t : UploadState o} {a : UploadAct} {kind k : LogKind}

/-- What one publish, or none, reports. -/
theorem sum_published {p : Prop} [Decidable p] {report qos : Nat} {data : Bytes} {m : MqttMoment} :
    ((if p then [o.published k report data qos m] else []).map (·.count kind)).sum =
      if p ∧ k = kind then report else 0 := by
  by_cases hp : p
  · simp [hp, LogOptions.published, UploadCall.count]
  · simp [hp]

/-- A step that only publishes moves the count in the batch, or leaves it there. -/
theorem Ledger.publish {calls : List UploadCall} (h : s.Ledger kind)
    (hcalls : s'.calls = s.calls ++ calls)
    (hpublished : ∀ c ∈ calls, ∃ report data qos m, c = o.published k report data qos m)
    (hdropped : s'.dropped = s.dropped)
    (hcarried : (calls.map (·.count kind)).sum + s'.pc.carried kind = s.pc.carried kind) :
    s'.Ledger kind := by
  have hcount : (calls.map (·.delivered kind)).sum + (calls.map (·.lost kind)).sum =
      (calls.map (·.count kind)).sum := by
    rw [← List.sum_map_add]
    simp only [UploadCall.delivered_add_lost]
  have hnone : calls.countP (·.isDrop kind) = 0 :=
    List.countP_eq_zero.mpr fun c hc => by
      obtain ⟨_, _, _, _, rfl⟩ := hpublished c hc
      exact Bool.false_ne_true
  unfold Ledger drops delivered lost at *
  rw [hcalls, hdropped, List.countP_append, hnone, List.map_append, List.map_append,
    List.sum_append, List.sum_append, Nat.add_zero]
  refine h.trans (congrArg (· % 2 ^ 32) ?_)
  omega

theorem Ledger.drop (h : s.Ledger kind) : (s.drop k).Ledger kind := by
  have hdelivered : (s.drop k).delivered kind = s.delivered kind := by
    simp [delivered, UploadState.drop, call, UploadCall.delivered]
  have hlost : (s.drop k).lost kind = s.lost kind := by
    simp [lost, UploadState.drop, call, UploadCall.lost]
  unfold Ledger
  rw [hdelivered, hlost]
  by_cases hk : k = kind
  · subst hk
    have hdrops : (s.drop k).drops k = s.drops k + 1 := by
      simp [drops, UploadState.drop, call, UploadCall.isDrop]
    have hdropped : (s.drop k).dropped k = (s.dropped k + 1) % 2 ^ 32 := Function.update_self _ _ _
    rw [hdrops, hdropped]
    show s.drops k + 1 ≡ s.delivered k + s.lost k + (s.dropped k + 1) % 2 ^ 32 + s.pc.carried k
      [MOD 2 ^ 32]
    calc s.drops k + 1
        ≡ s.delivered k + s.lost k + s.dropped k + s.pc.carried k + 1 [MOD 2 ^ 32] :=
          Nat.ModEq.add_right 1 h
      _ = s.delivered k + s.lost k + (s.dropped k + 1) + s.pc.carried k := by omega
      _ ≡ s.delivered k + s.lost k + (s.dropped k + 1) % 2 ^ 32 + s.pc.carried k [MOD 2 ^ 32] :=
          ((Nat.mod_modEq _ _).symm.add_left _).add_right _
  · have hdrops : (s.drop k).drops kind = s.drops kind := by
      simp [drops, UploadState.drop, call, UploadCall.isDrop, hk]
    have hdropped : (s.drop k).dropped kind = s.dropped kind :=
      Function.update_of_ne (Ne.symm hk) _ _
    rw [hdrops, hdropped]
    exact h

/-- The counter moves into the batch. -/
theorem Ledger.start (h : s.Ledger kind) (hs : Filled s) (hpc : s.pc = .start k)
    (now : BitVec 64) : (s.uploadStart now k).Ledger kind := by
  have hholding := uploadStart_holding (hs.dropped_lt k) now
  have hnone : s.pc.carried kind = 0 := by
    rw [hpc]
    rfl
  unfold Ledger drops delivered lost at *
  rw [hholding.calls_eq, hholding.dropped_eq, hholding.pc_eq]
  rw [hnone] at h
  by_cases hk : k = kind
  · subst hk
    simpa [call, UploadCall.isDrop, UploadCall.delivered, UploadCall.lost, UploadPc.carried] using h
  · simpa [call, UploadCall.isDrop, UploadCall.delivered, UploadCall.lost, UploadPc.carried, hk,
      Function.update_of_ne (Ne.symm hk)] using h

theorem Ledger.item (h : s.Ledger kind) (hs : Filled s) {report : Nat} {item : Bytes}
    {rest : List Bytes} (hpc : s.pc = .drain k report) (hring : s.ring k = item :: rest)
    (now : BitVec 64) (first second : MqttMoment) :
    (s.uploadItem report item rest now first second k).Ledger kind := by
  have hholding := uploadItem_holding report rest (hs.len_le k report hpc)
    (hs.line_of_ring hring) now first second
  have hcalls := hholding.calls_eq
  simp only [List.append_assoc] at hcalls
  refine h.publish hcalls (fun c hc => (List.mem_append.mp hc).elim mem_ite_published
    mem_ite_published) hholding.dropped_eq ?_
  rw [List.map_append, List.sum_append, sum_published, sum_published, ite_self, Nat.add_zero,
    hholding.pc_eq, hpc]
  simp only [UploadPc.carried]
  by_cases hk : k = kind
  · simp only [hk, and_true, if_true]
    -- The count is in the payload, or still in the batch.
    split
    · exact Nat.add_zero report
    · exact Nat.zero_add report
  · simp only [hk, and_false, if_false]

theorem Ledger.finish (h : s.Ledger kind) (hs : Filled s) {report : Nat}
    (hpc : s.pc = .drain k report) (now : BitVec 64) (m : MqttMoment) :
    (s.uploadEnd report now m k).Ledger kind := by
  have hholding := uploadEnd_holding report (hs.len_le k report hpc) now m
  refine h.publish hholding.calls_eq (fun c hc => mem_ite_published hc) hholding.dropped_eq ?_
  rw [sum_published, hholding.pc_eq, hpc]
  have hgone : (afterLog k).carried kind = 0 := by
    cases k with
    | bin => rfl
    | text => rfl
  rw [hgone, Nat.add_zero, UploadPc.carried]
  by_cases hpos : 0 < s.len
  · simp only [hpos, true_and]
  · -- A batch that carries a count is not empty.
    have hreport : report = 0 := Nat.eq_zero_of_not_pos fun hreport =>
      hpos (hs.lead k report hpc hreport).1
    rw [hreport, ite_self, ite_self]

theorem ledger_step (h : (uploads o).step s a = some s') (hs : Filled s) (hledger : s.Ledger kind) :
    s'.Ledger kind := by
  cases step_cases h with
  | @accept k item hitem hline =>
    unfold Ledger drops delivered lost at *
    simpa [accept, call, UploadCall.isDrop, UploadCall.delivered, UploadCall.lost] using hledger
  | drop => exact hledger.drop
  | @wake isConnected hpc =>
    have hcarried : (if isConnected then UploadPc.start .bin else .idle).carried kind =
        s.pc.carried kind := by
      rw [hpc]
      cases isConnected with
      | true => rfl
      | false => rfl
    unfold Ledger at *
    rw [hcarried]
    exact hledger
  | begin hpc => exact hledger.start hs hpc _
  | item hpc hring => exact hledger.item hs hpc hring _ _ _
  | finish hpc hring => exact hledger.finish hs hpc _ _

/-- **Every drop is accounted for**, in every run, whatever becomes of the publishes. -/
theorem drop_ledger (kind : LogKind) (h : (uploads o).Reach s) : s.Ledger kind := by
  induction h with
  | init => rfl
  | step hs _ hstep ih => exact ledger_step hstep (filled_of_reach hs) ih

end UploadState

/-- A payload that carries a count begins with the report of it. -/
def UploadCall.BeginsWithReport (o : LogOptions) : UploadCall → Prop
  | .publish kind report data _ _ => 0 < report → ∃ now, o.report kind report now <+: data
  | _ => True

/-- A publish of a payload that carries a count succeeds. -/
def UploadCall.CountSent : UploadCall → Prop
  | .publish _ report _ ret _ => 0 < report → ret = .ok
  | _ => True

/-- A moment at which publishing succeeds. -/
def MqttMoment.Succeeds (m : MqttMoment) : Prop :=
  m.isConnected = true ∧ m.env.locked = true ∧ m.env.property = .ok ∧ 0 ≤ m.env.msgId

/-- If a step publishes a batch that carries a count, this succeeds. -/
def CountArrives {o : LogOptions} (s : UploadState o) : UploadAct → Prop
  | .next _ first _ => ∀ kind report, s.pc = .drain kind report → 0 < report → s.Flushes kind →
    first.Succeeds
  | _ => True

section Conservation

open UploadState

variable {o : LogOptions} {s : UploadState o} {kind : LogKind}

/-- **The count of a payload is in its text**, in every run. -/
theorem report_of_publish (h : (uploads o).Reach s) : ∀ c ∈ s.calls, c.BeginsWithReport o := by
  induction h with
  | init => exact List.forall_mem_nil _
  | step hs _ hstep ih =>
    have hfilled := filled_of_reach hs
    obtain ⟨calls, hcalls, hnew⟩ := step_calls hstep hfilled
    rw [hcalls]
    refine List.forall_mem_append.mpr ⟨ih, fun c hc => ?_⟩
    cases hnew c hc with
    | accepted => trivial
    | dropped => trivial
    | taken => trivial
    | batch ha hpc hflush =>
      intro hpos
      obtain ⟨-, now, hbegins⟩ := hfilled.lead _ _ hpc hpos
      exact ⟨now, hbegins.trans (List.prefix_append _ _)⟩
    | alone => exact fun hpos => absurd hpos (lt_irrefl 0)

theorem countSent_of_reachBy (h : (uploads o).ReachBy CountArrives s) :
    ∀ c ∈ s.calls, c.CountSent := by
  induction h with
  | init => exact List.forall_mem_nil _
  | step hs hg hstep ih =>
    obtain ⟨calls, hcalls, hnew⟩ := step_calls hstep (filled_of_reach hs.reach)
    rw [hcalls]
    refine List.forall_mem_append.mpr ⟨ih, fun c hc => ?_⟩
    cases hnew c hc with
    | accepted => trivial
    | dropped => trivial
    | taken => trivial
    | @batch k report _ _ _ ha hpc hflush =>
      intro hpos
      subst ha
      exact (publish_ok_iff (subTopic_length k)).mpr (hg k report hpc hpos hflush)
    | alone => exact fun hpos => absurd hpos (lt_irrefl 0)

theorem lost_eq_zero (kind : LogKind) (h : ∀ c ∈ s.calls, c.CountSent) : s.lost kind = 0 := by
  refine List.sum_eq_zero fun n hn => ?_
  obtain ⟨c, hc, rfl⟩ := List.mem_map.mp hn
  have hsent := h c hc
  cases c with
  | publish k report data ret sent =>
    by_cases hlost : k = kind ∧ ret ≠ .ok
    · refine (if_pos hlost).trans (Nat.eq_zero_of_not_pos fun hpos => ?_)
      exact hlost.2 (hsent hpos)
    · exact if_neg hlost
  | accepted k item => rfl
  | dropped k => rfl
  | taken k count => rfl

end Conservation

/-- **No count of drops is lost, as long as every publish of a payload that carries one succeeds**:
between two uploads of a log, its drops are those that have been reported and those in the
counter, modulo 2^32. The reports are what the payloads begin with. -/
theorem drops_conserved {o : LogOptions} {s : LogUplink o}
    (h : (uplink o).ReachBy (fun s a => ∀ b, a.task? = some b → CountArrives s.uploader b) s)
    {kind : LogKind} (hbetween : ∀ report, s.uploader.pc ≠ .drain kind report) :
    s.uploader.drops kind ≡ s.uploader.delivered kind + s.uploader.dropped kind [MOD 2 ^ 32] ∧
      ∀ c ∈ s.uploader.calls, c.BeginsWithReport o := by
  have huploads := LogUplink.reachBy_uploader (fun _ _ _ => trivial) (fun _ _ => trivial) h
  have hledger := UploadState.drop_ledger kind huploads.reach
  have hlost := lost_eq_zero kind (countSent_of_reachBy huploads)
  have hcarried : s.uploader.pc.carried kind = 0 := by
    cases hpc : s.uploader.pc with
    | idle => rfl
    | start k => rfl
    | drain k report =>
      refine if_neg ?_
      rintro rfl
      exact hbetween report hpc
  refine ⟨?_, report_of_publish huploads.reach⟩
  unfold UploadState.Ledger at hledger
  rwa [hlost, hcarried, Nat.add_zero, Nat.add_zero] at hledger

instance (m : MqttMoment) : Decidable m.Succeeds := inferInstanceAs (Decidable (_ ∧ _))

/-- Steps at moments at which publishing succeeds. -/
def LogAct.Connected : LogAct → Bool
  | .next _ first _ => decide first.Succeeds
  | _ => true

theorem countArrives_of_connected {o : LogOptions} {s : LogUplink o} {a : LogAct} {b : UploadAct}
    (ha : a.Connected = true) (hb : a.task? = some b) : CountArrives s.uploader b := by
  cases a with
  | wake isConnected =>
    cases hb
    trivial
  | begin now =>
    cases hb
    trivial
  | next now first second =>
    cases hb
    exact fun _ _ _ _ _ => of_decide_eq_true ha
  | _ => cases hb

/-- One packet is dropped, and the next upload reports it. -/
theorem drops_conserved_sample :
    ∃ s : LogUplink .sample, s.uploader.drops .bin = 1 ∧ s.uploader.dropped .bin = 0 ∧
      s.uploader.drops .bin ≡ s.uploader.delivered .bin + s.uploader.dropped .bin [MOD 2 ^ 32] ∧
      ∀ c ∈ s.uploader.calls, c.BeginsWithReport .sample := by
  have hrun : ((uplink .sample).runBy (fun _ a => a.Connected = true) (uplink .sample).init
      [.sinkStart (some [165, 16, 0, 2]) none, .sinkEnd, .wake true, .begin 0,
        .next 0 .sample .sample]).map
      (fun s => decide (s.uploader.pc = .start .text ∧ s.uploader.drops .bin = 1 ∧
        s.uploader.dropped .bin = 0)) = some true := by
    decide +kernel
  obtain ⟨s, hs, hcheck⟩ := Lts.exists_reachBy_of_runBy hrun
  obtain ⟨hpc, hdrops, hdropped⟩ := of_decide_eq_true hcheck
  have hreach : (uplink .sample).ReachBy
      (fun s a => ∀ b, a.task? = some b → CountArrives s.uploader b) s :=
    hs.mono fun _ _ ha _ hb => countArrives_of_connected ha hb
  have hbetween : ∀ report, s.uploader.pc ≠ .drain .bin report := by
    rw [hpc]
    nofun
  exact ⟨s, hdrops, hdropped, drops_conserved hreach hbetween⟩

/-- The connection is lost between `mqtt->connected()` and the publish: the count of the packet that
was dropped is neither reported nor in the counter any more. -/
theorem drops_lost :
    ∃ s : LogUplink .sample, (uplink .sample).Reach s ∧ s.uploader.pc = .idle ∧
      ¬ s.uploader.drops .bin ≡ s.uploader.delivered .bin + s.uploader.dropped .bin
        [MOD 2 ^ 32] := by
  have hrun : ((uplink .sample).run
      [.sinkStart (some [165, 16, 0, 2]) none, .sinkEnd, .wake true, .begin 0,
        .next 0 ⟨false, ⟨true, .ok, 0⟩⟩ .sample, .begin 0, .next 0 .sample .sample]).map
      (fun s => decide (s.uploader.pc = .idle ∧ s.uploader.drops .bin = 1 ∧
        s.uploader.delivered .bin = 0 ∧ s.uploader.dropped .bin = 0)) = some true := by
    decide +kernel
  obtain ⟨s, hs, hcheck⟩ := Lts.exists_reach_of_run hrun
  obtain ⟨hpc, hdrops, hdelivered, hdropped⟩ := of_decide_eq_true hcheck
  refine ⟨s, hs, hpc, ?_⟩
  rw [hdrops, hdelivered, hdropped]
  decide

end SoulCloud
