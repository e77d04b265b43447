import SoulCloud.LogDelivery

/-!
# Nothing is left behind (`sc_log_uplink::task_handler`)

The upload task warns about every batch that it loses, and its warnings come back through the hook
of esp_log. They do not keep it busy: once the other tasks are quiet, the ring buffers run empty.

- `Clean`: nothing is left of either log.
- `work`: how many steps the upload task may take until then.
- `settle_step`: a step of the task leads there, or does some of the work.
- `Settling`: what happens while nobody but the upload task logs.
- `logs_delivered`: **everything that has been logged arrives**, whole, once and in order, and an
  upload leaves nothing of its log behind.
- `logs_come_through`: once nothing is left, nothing more is sent.
-/

namespace SoulCloud

open Bytes

/-- The steps of the upload task while the device is connected. -/
def UploadAct.Settles : UploadAct → Prop
  | .wake isConnected => isConnected = true
  | .begin _ | .next _ _ _ => True
  | .accept _ _ | .drop _ => False

namespace UploadState

variable {o : LogOptions} {s s' : UploadState o} {a : UploadAct} {kind : LogKind}

/-! ## The work that is left -/

/-- Nothing is left of either log: in a ring buffer, in a counter, or in the batch. -/
structure Clean (s : UploadState o) : Prop where
  ring : ∀ kind, s.ring kind = []
  dropped : ∀ kind, s.dropped kind = 0
  batch : ∀ kind report, s.pc = .drain kind report → report = 0 ∧ s.len = 0

/-- An upper bound of the steps that the upload task takes until nothing is left. What has come in
behind the turn of its log waits for another upload. -/
def work (s : UploadState o) : Nat :=
  let bin := (s.ring .bin).length
  let text := (s.ring .text).length
  match s.pc with
  | .idle => 5 + bin + text
  | .start .bin => 4 + bin + text
  | .drain .bin _ => 3 + bin + text + if 0 < s.dropped .bin then 5 else 0
  | .start .text => 2 + text + if 0 < bin + s.dropped .bin then 5 + bin else 0
  | .drain .text _ =>
    1 + text + if 0 < bin + s.dropped .bin + s.dropped .text then 5 + bin else 0

theorem work_pos (s : UploadState o) : 0 < s.work := by
  unfold work
  dsimp only
  split <;> omega

theorem work_le (s : UploadState o) :
    s.work ≤ (s.ring .bin).length + (s.ring .text).length + 8 := by
  unfold work
  dsimp only
  split
  · omega
  · omega
  · split <;> omega
  · split <;> omega
  · split <;> omega

theorem work_idle (hpc : s.pc = .idle) :
    s.work = 5 + (s.ring .bin).length + (s.ring .text).length := by
  rw [work, hpc]

theorem work_startBin (hpc : s.pc = .start .bin) :
    s.work = 4 + (s.ring .bin).length + (s.ring .text).length := by
  rw [work, hpc]

theorem work_drainBin {report : Nat} (hpc : s.pc = .drain .bin report) :
    s.work = 3 + (s.ring .bin).length + (s.ring .text).length +
      if 0 < s.dropped .bin then 5 else 0 := by
  rw [work, hpc]

theorem work_startText (hpc : s.pc = .start .text) :
    s.work = 2 + (s.ring .text).length +
      if 0 < (s.ring .bin).length + s.dropped .bin then 5 + (s.ring .bin).length else 0 := by
  rw [work, hpc]

theorem work_drainText {report : Nat} (hpc : s.pc = .drain .text report) :
    s.work = 1 + (s.ring .text).length +
      if 0 < (s.ring .bin).length + s.dropped .bin + s.dropped .text then
        5 + (s.ring .bin).length
      else 0 := by
  rw [work, hpc]

/-! ## What a step does -/

theorem Holding.len_eq {t : UploadState o} {d : Bytes} (h : Holding s d t) : t.len = d.length := by
  obtain ⟨batch, rfl, -⟩ := h
  rfl

/-- A count is taken. Where there was none, the batch is empty. -/
theorem settle_begin (hs : Filled s) (hpc : s.pc = .start kind) (now : BitVec 64) :
    Clean (s.uploadStart now kind) ∨ ¬ Clean s ∧ (s.uploadStart now kind).work < s.work := by
  have hholding := uploadStart_holding (hs.dropped_lt kind) now
  have hpc' := hholding.pc_eq
  have hring : (s.uploadStart now kind).ring = s.ring := hholding.ring_eq
  have hdropped : (s.uploadStart now kind).dropped = Function.update s.dropped kind 0 :=
    hholding.dropped_eq
  by_cases hclean : Clean s
  · left
    refine ⟨fun k => ?_, fun k => ?_, fun k report hdrain => ?_⟩
    · rw [hring, hclean.ring]
    · rw [hdropped, Function.update_eq_self_iff.mpr (hclean.dropped kind).symm, hclean.dropped]
    · obtain ⟨-, hreport⟩ := UploadPc.drain.inj (hpc'.symm.trans hdrain)
      rw [hholding.len_eq, if_neg (by rw [hclean.dropped]; exact lt_irrefl 0)]
      exact ⟨hreport ▸ hclean.dropped kind, rfl⟩
  · right
    refine ⟨hclean, ?_⟩
    cases kind with
    | bin =>
      rw [work_startBin hpc, work_drainBin hpc', hring, hdropped, Function.update_self,
        if_neg (lt_irrefl 0)]
      omega
    | text =>
      have hbin : Function.update s.dropped .text 0 .bin = s.dropped .bin :=
        Function.update_of_ne (by decide) _ _
      rw [work_startText hpc, work_drainText hpc', hring, hdropped, Function.update_self, hbin,
        Nat.add_zero]
      omega

/-- An item leaves the ring buffer. -/
theorem settle_item (hs : Filled s) {report : Nat} {item : Bytes} {rest : List Bytes}
    (hpc : s.pc = .drain kind report) (hring : s.ring kind = item :: rest) (now : BitVec 64)
    (first second : MqttMoment) :
    ¬ Clean s ∧ (s.uploadItem report item rest now first second kind).work < s.work := by
  have hholding := uploadItem_holding report rest (hs.len_le _ _ hpc) (hs.line_of_ring hring) now
    first second
  have hpc' := hholding.pc_eq
  have hring' : (s.uploadItem report item rest now first second kind).ring =
      Function.update s.ring kind rest := hholding.ring_eq
  have hdropped : (s.uploadItem report item rest now first second kind).dropped = s.dropped :=
    hholding.dropped_eq
  have hlength : (s.ring kind).length = rest.length + 1 := by
    rw [hring, List.length_cons]
  refine ⟨fun hclean => ?_, ?_⟩
  · rw [hclean.ring] at hring
    cases hring
  · cases kind with
    | bin =>
      have htext : Function.update s.ring .bin rest .text = s.ring .text :=
        Function.update_of_ne (by decide) _ _
      rw [work_drainBin hpc, work_drainBin hpc', hring', hdropped, Function.update_self, htext]
      omega
    | text =>
      have hbin : Function.update s.ring .text rest .bin = s.ring .bin :=
        Function.update_of_ne (by decide) _ _
      rw [work_drainText hpc, work_drainText hpc', hring', hdropped, Function.update_self, hbin]
      omega

/-- The ring buffer is empty, and the task goes on behind the loop. -/
theorem settle_end (hs : Filled s) {report : Nat} (hpc : s.pc = .drain kind report)
    (hring : s.ring kind = []) (now : BitVec 64) (m : MqttMoment) :
    Clean (s.uploadEnd report now m kind) ∨
      ¬ Clean s ∧ (s.uploadEnd report now m kind).work < s.work := by
  have hholding := uploadEnd_holding report (hs.len_le _ _ hpc) now m
  have hpc' : (s.uploadEnd report now m kind).pc = afterLog kind := hholding.pc_eq
  have hring' : (s.uploadEnd report now m kind).ring = s.ring := hholding.ring_eq
  have hdropped : (s.uploadEnd report now m kind).dropped = s.dropped := hholding.dropped_eq
  by_cases hempty : (∀ k, s.ring k = []) ∧ ∀ k, s.dropped k = 0
  · refine .inl ⟨fun k => ?_, fun k => ?_, fun k r hdrain => ?_⟩
    · rw [hring', hempty.1]
    · rw [hdropped, hempty.2]
    · exact absurd (hpc'.symm.trans hdrain) (afterLog_ne_drain kind k r)
  · refine .inr ⟨fun hclean => hempty ⟨hclean.ring, hclean.dropped⟩, ?_⟩
    have hlength : (s.ring kind).length = 0 := by
      rw [hring, List.length_nil]
    cases kind with
    | bin =>
      rw [work_drainBin hpc, work_startText hpc', hring', hdropped, hlength]
      simp only [Nat.zero_add, Nat.add_zero]
      omega
    | text =>
      -- What is left is of the binary log, or a count of this one.
      have hleft : 0 < (s.ring .bin).length + s.dropped .bin + s.dropped .text := by
        by_contra hzero
        refine hempty ⟨fun k => ?_, fun k => ?_⟩
        · cases k with
          | bin => exact List.eq_nil_of_length_eq_zero (by omega)
          | text => exact hring
        · cases k with
          | bin => omega
          | text => omega
      rw [work_drainText hpc, work_idle hpc', hring', if_pos hleft]
      omega

/-- A step of the upload task leads to where nothing is left, or does some of the work. -/
theorem settle_step (hs : Filled s) (ha : a.Settles) (h : UploadStep s a s') :
    Clean s' ∨ ¬ Clean s ∧ s'.work < s.work := by
  cases h with
  | accept => exact ha.elim
  | drop => exact ha.elim
  | @wake isConnected hpc =>
    obtain rfl : isConnected = true := ha
    by_cases hclean : Clean s
    · exact .inl ⟨hclean.ring, hclean.dropped, fun k r hdrain => by cases hdrain⟩
    · refine .inr ⟨hclean, ?_⟩
      have hwork : work { s with pc := .start .bin } =
          4 + (s.ring .bin).length + (s.ring .text).length := work_startBin rfl
      rw [if_pos rfl, work_idle hpc, hwork]
      omega
  | begin hpc => exact settle_begin hs hpc _
  | item hpc hring => exact .inr (settle_item hs hpc hring _ _ _)
  | finish hpc hring => exact settle_end hs hpc hring _ _

/-- While the batch of a log is being filled the task drains its ring buffer. -/
theorem pc_of_filling (h : (s.view kind).filling ≠ none) : ∃ report, s.pc = .drain kind report := by
  have hpc : s.pc.filling kind s.contents ≠ none := h
  unfold UploadPc.filling at hpc
  split at hpc
  · next k report hdrain =>
    by_cases hk : k = kind
    · exact ⟨report, hk ▸ hdrain⟩
    · exact absurd (if_neg hk) hpc
  · exact absurd rfl hpc

theorem filling_ne_none {report : Nat} (hpc : s.pc = .drain kind report) :
    (s.view kind).filling ≠ none := by
  show s.pc.filling kind s.contents ≠ none
  rw [hpc, filling_self]
  exact Option.some_ne_none _

/-- **An upload ends only where its ring buffer is empty.** -/
theorem ring_of_ended (hs : Filled s) (h : UploadStep s a s')
    (hbefore : (s.view kind).filling ≠ none) (hafter : (s'.view kind).filling = none) :
    (s'.view kind).ring = [] := by
  obtain ⟨carried, hdrain⟩ := pc_of_filling hbefore
  cases h with
  | accept | drop => exact absurd hafter (filling_ne_none hdrain)
  | wake hpc | begin hpc =>
    rw [hdrain] at hpc
    cases hpc
  | @item k report item rest now first second hpc hring =>
    have hpc' := (uploadItem_holding report rest (hs.len_le _ _ hpc) (hs.line_of_ring hring) now
      first second).pc_eq
    rw [hdrain] at hpc
    cases hpc
    exact absurd hafter (filling_ne_none hpc')
  | @finish k report now first second hpc hring =>
    have hholding := uploadEnd_holding report (hs.len_le _ _ hpc) now first
    rw [hdrain] at hpc
    cases hpc
    show (s.uploadEnd carried now first kind).ring kind = []
    rw [hholding.ring_eq]
    exact hring

/-- Where nothing is left, the task takes counts of 0 and publishes nothing. -/
theorem silent_step (hs : Filled s) (hclean : Clean s) (ha : a.Settles) (h : UploadStep s a s') :
    ∃ calls, s'.calls = s.calls ++ calls ∧ ∀ c ∈ calls, ∃ kind, c = .taken kind 0 := by
  cases h with
  | accept => exact ha.elim
  | drop => exact ha.elim
  | wake hpc => exact ⟨[], (List.append_nil _).symm, List.forall_mem_nil _⟩
  | @begin kind now hpc =>
    refine ⟨_, (uploadStart_holding (hs.dropped_lt kind) now).calls_eq, ?_⟩
    exact List.forall_mem_singleton.mpr ⟨kind, by rw [hclean.dropped]⟩
  | item hpc hring =>
    rw [hclean.ring] at hring
    cases hring
  | @finish kind report now first second hpc hring =>
    have hcalls := (uploadEnd_holding report (hs.len_le _ _ hpc) now first).calls_eq
    rw [if_neg (by rw [(hclean.batch _ _ hpc).2]; exact lt_irrefl 0)] at hcalls
    exact ⟨[], hcalls, List.forall_mem_nil _⟩

end UploadState

/-! ## The whole uplink -/

/-- Nobody but the upload task logs, the device is connected, and the switches may be moved. -/
def LogAct.Settling : LogAct → Prop
  | .setTextEnabled _ | .setBinEnabled _ => True
  | .textVprintf own _ _ => own = true
  | .wake isConnected => isConnected = true
  | .begin _ | .next _ _ _ => True
  | .sinkStart _ _ | .sinkPayload _ | .sinkEnd => False

instance (a : LogAct) : Decidable a.Settling :=
  match a with
  | .setTextEnabled _ | .setBinEnabled _ | .begin _ | .next _ _ _ =>
    inferInstanceAs (Decidable True)
  | .textVprintf _ _ _ | .wake _ => inferInstanceAs (Decidable (_ = true))
  | .sinkStart _ _ | .sinkPayload _ | .sinkEnd => inferInstanceAs (Decidable False)

/-- The action is a step of the upload task. -/
def LogAct.ofTask (a : LogAct) : Bool := a.task?.isSome

namespace LogUplink

open UploadState

variable {o : LogOptions} {s s' : LogUplink o} {a : LogAct}

/-- Only the upload task does anything to the rings, and what it logs itself does nothing. -/
theorem settling_step (h : (uplink o).step s a = some s') (ha : a.Settling) :
    (a.ofTask = false ∧ s'.uploader = s.uploader) ∨
      ∃ b, b.Settles ∧ UploadStep s.uploader b s'.uploader := by
  have hstep : s.step a = some s' := h
  cases a with
  | setTextEnabled enabled =>
    cases hstep
    exact .inl ⟨rfl, rfl⟩
  | setBinEnabled enabled =>
    cases hstep
    exact .inl ⟨rfl, rfl⟩
  | sinkStart header memory => exact ha.elim
  | sinkPayload payload => exact ha.elim
  | sinkEnd => exact ha.elim
  | textVprintf own text room =>
    obtain rfl : own = true := ha
    cases hstep
    refine .inl ⟨rfl, congrArg LogUplink.uploader (if_neg ?_)⟩
    rintro ⟨-, hown⟩
    cases hown
  | wake isConnected =>
    obtain ⟨u, hu, rfl⟩ := Option.map_eq_some_iff.mp hstep
    exact .inr ⟨.wake isConnected, ha, step_cases hu⟩
  | begin now =>
    obtain ⟨u, hu, rfl⟩ := Option.map_eq_some_iff.mp hstep
    exact .inr ⟨.begin now, trivial, step_cases hu⟩
  | next now first second =>
    obtain ⟨u, hu, rfl⟩ := Option.map_eq_some_iff.mp hstep
    exact .inr ⟨.next now first second, trivial, step_cases hu⟩

/-- What a step of the uplink does for the goal. -/
theorem progress_step (hs : (uplink o).Reach s) (ha : a.Settling)
    (h : (uplink o).step s a = some s') :
    s'.uploader.Clean ∨
      ¬ s.uploader.Clean ∧ s'.uploader.work + (if a.ofTask then 1 else 0) ≤ s.uploader.work := by
  rcases settling_step h ha with ⟨hother, hsame⟩ | ⟨b, hb, hst⟩
  · rw [hsame, if_neg (by rw [hother]; exact Bool.false_ne_true)]
    by_cases hclean : s.uploader.Clean
    · exact .inl hclean
    · exact .inr ⟨hclean, Nat.le_refl _⟩
  · rcases settle_step (filled_of_reach (reach_uploader hs)) hb hst with hclean | ⟨hnot, hless⟩
    · exact .inl hclean
    · refine .inr ⟨hnot, ?_⟩
      split <;> omega

/-- The upload task can always go on. -/
theorem exists_task_step (s : LogUplink o) :
    ∃ a s', a.Settling ∧ a.ofTask = true ∧ (uplink o).step s a = some s' := by
  have htask : ∃ b u, s.uploader.step b = some u ∧
      (b = .wake true ∨ b = .begin 0 ∨ b = .next 0 .sample .sample) := by
    unfold UploadState.step
    cases hpc : s.uploader.pc with
    | idle => exact ⟨.wake true, _, rfl, .inl rfl⟩
    | start kind => exact ⟨.begin 0, _, rfl, .inr (.inl rfl)⟩
    | drain kind report =>
      refine ⟨.next 0 .sample .sample, ?_⟩
      cases hring : s.uploader.ring kind with
      | nil =>
        exact ⟨s.uploader.uploadEnd report 0 .sample kind, by simp only [hring], .inr (.inr rfl)⟩
      | cons item rest =>
        exact ⟨s.uploader.uploadItem report item rest 0 .sample .sample kind,
          by simp only [hring], .inr (.inr rfl)⟩
  obtain ⟨b, u, hu, rfl | rfl | rfl⟩ := htask
  · exact ⟨.wake true, _, rfl, rfl, Option.map_eq_some_iff.mpr ⟨u, hu, rfl⟩⟩
  · exact ⟨.begin 0, _, trivial, rfl, Option.map_eq_some_iff.mpr ⟨u, hu, rfl⟩⟩
  · exact ⟨.next 0 .sample .sample, _, trivial, rfl, Option.map_eq_some_iff.mpr ⟨u, hu, rfl⟩⟩

/-- From where nothing is left, nothing is published, however long the others are quiet. -/
theorem silent_run {s s' : LogUplink o} (h : (uplink o).Reach s) (hclean : s.uploader.Clean)
    {as : List LogAct} (hrun : (uplink o).runBy (fun _ a => a.Settling) s as = some s') :
    ∃ calls, s'.uploader.calls = s.uploader.calls ++ calls ∧
      ∀ c ∈ calls, ∃ kind, c = .taken kind 0 := by
  let kept : LogUplink o → Prop := fun t => (uplink o).Reach t ∧ t.uploader.Clean ∧
    ∃ calls, t.uploader.calls = s.uploader.calls ++ calls ∧ ∀ c ∈ calls, ∃ kind, c = .taken kind 0
  have hkept : kept s := ⟨h, hclean, [], (List.append_nil _).symm, List.forall_mem_nil _⟩
  refine (Lts.runBy_keeps (I := kept) ?_ hkept hrun).2.2
  rintro t a t' ⟨hreach, hclean, calls, hcalls, hzero⟩ ha hstep
  refine ⟨.step hreach trivial hstep, ?_⟩
  have hfilled := filled_of_reach (reach_uploader hreach)
  rcases settling_step hstep ha with ⟨-, hsame⟩ | ⟨b, hb, hst⟩
  · rw [hsame]
    exact ⟨hclean, calls, hcalls, hzero⟩
  · obtain ⟨new, hnew, hnone⟩ := silent_step hfilled hclean hb hst
    rcases settle_step hfilled hb hst with hclean' | ⟨hnot, -⟩
    · refine ⟨hclean', calls ++ new, ?_, List.forall_mem_append.mpr ⟨hzero, hnone⟩⟩
      rw [hnew, hcalls, List.append_assoc]
    · exact absurd hclean hnot

end LogUplink

/-- All that has been accepted of a log is in the payloads that have arrived, and all that has been
dropped is in the counts that they report. -/
def WhollyDelivered (o : LogOptions) (kind : LogKind) (v : LogView) : Prop :=
  ∃ uploads, Delivered o kind v uploads [] ∧ (∀ u ∈ uploads, u.Reported) ∧
    v.accepted = uploads.flatMap Upload.items ∧
    v.drops ≡ (uploads.map Upload.taken).sum [MOD 2 ^ 32]

theorem UploadState.Clean.whollyDelivered {o : LogOptions} {s : UploadState o} (h : s.Clean)
    {kind : LogKind} (haccounted : Accounted o kind (s.view kind)) :
    WhollyDelivered o kind (s.view kind) := by
  obtain ⟨uploads, pending, hd, hstage⟩ := haccounted
  have hlast : pending = [] ∧ ∀ u ∈ uploads, u.Reported := by
    cases hfill : (s.view kind).filling with
    | none =>
      rw [hfill] at hstage
      cases hstage with
      | between hreported => exact ⟨rfl, hreported⟩
    | some filling =>
      have hempty : filling = (0, []) := by
        obtain ⟨report, hdrain⟩ := UploadState.pc_of_filling (hfill ▸ Option.some_ne_none filling)
        obtain ⟨rfl, hlen⟩ := h.batch _ _ hdrain
        have hcontents : s.pc.filling kind s.contents = some filling := hfill
        rw [hdrain, filling_self, UploadState.contents, hlen] at hcontents
        exact (Option.some.inj hcontents).symm
      rw [hfill, hempty] at hstage
      obtain ⟨hnil, hreported, -⟩ := hstage.of_empty
      exact ⟨hnil, hreported⟩
  obtain ⟨rfl, hreported⟩ := hlast
  have hring : (s.view kind).ring = [] := h.ring kind
  have hdropped : (s.view kind).dropped = 0 := h.dropped kind
  have hitems := hd.items
  have hcounted := hd.counted
  rw [hring, List.append_nil, List.append_nil] at hitems
  rw [hdropped, Nat.add_zero] at hcounted
  exact ⟨uploads, hd, hreported, hitems, hcounted⟩

/-- How many entries wait in the ring buffers. -/
def LogUplink.waiting {o : LogOptions} (s : LogUplink o) : Nat :=
  (s.uploader.ring .bin).length + (s.uploader.ring .text).length

namespace LogUplink

variable {o : LogOptions} {s s' : LogUplink o} {as : List LogAct}

theorem reach_settling (h : (uplink o).Reach s)
    (hrun : (uplink o).runBy (fun _ a => a.Settling) s as = some s') : (uplink o).Reach s' :=
  Lts.runBy_keeps (I := (uplink o).Reach) (fun hs _ hstep => .step hs trivial hstep) h hrun

/-- While nobody else logs and the device is connected, the upload task can always go on. -/
theorem exists_settling_run (h : (uplink o).Reach s) (n : Nat) :
    ∃ as s', (uplink o).runBy (fun _ a => a.Settling) s as = some s' ∧
      as.countP LogAct.ofTask = n := by
  refine Lts.exists_run_of_enabled (I := (uplink o).Reach) ?_ n h
  intro s hs
  obtain ⟨a, s', ha, htask, hstep⟩ := exists_task_step s
  exact ⟨a, s', ha, htask, hstep, .step hs trivial hstep⟩

/-- Then after 8 steps of its own and one for each entry that waits nothing is left. -/
theorem clean_of_settling (h : (uplink o).Reach s)
    (hrun : (uplink o).runBy (fun _ a => a.Settling) s as = some s')
    (hlong : s.waiting + 8 ≤ as.countP LogAct.ofTask) : s'.uploader.Clean := by
  have hprogress : s'.uploader.Clean ∨ ¬ s.uploader.Clean ∧
      as.countP LogAct.ofTask + s'.uploader.work ≤ s.uploader.work :=
    Lts.reaches_of_variant (I := (uplink o).Reach) (fun hs _ hstep => .step hs trivial hstep)
      progress_step h hrun
  rcases hprogress with hclean | ⟨-, hle⟩
  · exact hclean
  · have hpos := s'.uploader.work_pos
    have hwork := s.uploader.work_le
    unfold waiting at hlong
    omega

end LogUplink

/-- **Logs arrive**: in every run of the uplink nothing is written behind the batch buffer. While
every publish succeeds, the payloads of a log are those of uploads that account for everything:
stripped of the reports in front and of what closes a batch they are the accepted entries in
order, each whole in one payload, up to those still in the batch and in the ring buffer; and each
count that an upload has taken is reported in front of its first payload and nowhere else. Between
two uploads nothing is left in the batch, and no count is left unreported. An upload ends only
where its ring buffer is empty; and while nobody else logs and the device is connected, the upload
task can always go on, and after 8 steps of its own and one for each entry that waits all that has
been accepted has arrived and every drop has been reported. -/
theorem logs_delivered {o : LogOptions} {s : LogUplink o} (h : (uplink o).Reach s) :
    s.uploader.pastEnd = false ∧
      ((∀ c ∈ s.uploader.calls, ¬ c.Failed) → ∀ kind, ∃ uploads pending,
        Delivered o kind (s.uploader.view kind) uploads pending ∧
        ((s.uploader.view kind).filling = none →
          pending = [] ∧ ∀ u ∈ uploads, u.Reported)) ∧
      (∀ kind a s', (uplink o).step s a = some s' → (s.uploader.view kind).filling ≠ none →
        (s'.uploader.view kind).filling = none → (s'.uploader.view kind).ring = []) ∧
      (∀ n, ∃ as s', (uplink o).runBy (fun _ a => a.Settling) s as = some s' ∧
        as.countP LogAct.ofTask = n) ∧
      ∀ as s', (uplink o).runBy (fun _ a => a.Settling) s as = some s' →
        s.waiting + 8 ≤ as.countP LogAct.ofTask → (∀ c ∈ s'.uploader.calls, ¬ c.Failed) →
          ∀ kind, WhollyDelivered o kind (s'.uploader.view kind) := by
  have hfilled := UploadState.filled_of_reach (LogUplink.reach_uploader h)
  refine ⟨hfilled.pastEnd, fun hok kind => ?_, fun kind a s' hstep hbefore hafter => ?_,
    LogUplink.exists_settling_run h, fun as s' hrun hlong hok kind => ?_⟩
  · exact (accounted_of_reach kind (LogUplink.reach_uploader h) hok).between
  · rcases LogUplink.uploader_step hstep with heq | ⟨b, hb, -⟩
    · rw [heq] at hafter
      exact absurd hafter hbefore
    · exact UploadState.ring_of_ended hfilled (UploadState.step_cases hb) hbefore hafter
  · have hreach := LogUplink.reach_settling h hrun
    exact (LogUplink.clean_of_settling h hrun hlong).whollyDelivered
      (accounted_of_reach kind (LogUplink.reach_uploader hreach) hok)

/-- A packet and a line are logged, and a packet that the ring buffer has no room for. The
upload reports that one and sends the others. -/
theorem logs_delivered_sample :
    ∃ s s' : LogUplink .sample, (uplink .sample).Reach s ∧ s.waiting = 2 ∧
      (s'.uploader.view .bin).arrived =
        [[165, 80, 0, 4, 1, 0, 0, 0] ++ [165, 16, 0, 2, 7, 8] ++ [165, 96, 1, 0]] ∧
      ∀ kind, WhollyDelivered .sample kind (s'.uploader.view kind) := by
  have hrun : (((uplink .sample).run
      [.sinkStart (some [165, 16, 0, 2]) (some fun _ => 0), .sinkPayload [7], .sinkPayload [8],
        .sinkEnd, .sinkStart (some [165, 16, 0, 2]) none, .sinkEnd,
        .textVprintf false (some [104, 105, 10]) true]).bind fun s =>
      ((uplink .sample).runBy (fun _ a => a.Settling) s
        [.wake true, .begin 0, .next 0 .sample .sample, .next 0 .sample .sample,
          .begin 0, .next 0 .sample .sample, .next 0 .sample .sample,
          .wake true, .begin 0, .next 0 .sample .sample]).map fun s' =>
        decide (s.waiting = 2 ∧ (∀ c ∈ s'.uploader.calls, ¬ c.Failed) ∧
          (s'.uploader.view .bin).arrived =
            [[165, 80, 0, 4, 1, 0, 0, 0] ++ [165, 16, 0, 2, 7, 8] ++ [165, 96, 1, 0]])) =
      some true := by
    decide +kernel
  obtain ⟨s, hs, hrest⟩ := Option.bind_eq_some_iff.mp hrun
  obtain ⟨s', hs', hcheck⟩ := Option.map_eq_some_iff.mp hrest
  obtain ⟨hwaiting, hok, harrived⟩ := of_decide_eq_true hcheck
  obtain ⟨-, -, -, -, hwhole⟩ := logs_delivered (Lts.reach_of_run hs)
  exact ⟨s, s', Lts.reach_of_run hs, hwaiting, harrived,
    hwhole _ s' hs' (by rw [hwaiting]; decide) hok⟩

/-- **Logs come to rest.** From any reachable state, while nobody else logs and the device is
connected, the upload task can always go on, and after 8 steps of its own and one for each entry
that waits nothing is left of either log. From then on nothing is published, whatever the upload
task itself logs. -/
theorem logs_come_through {o : LogOptions} {s : LogUplink o} (h : (uplink o).Reach s) :
    (∀ n, ∃ as s', (uplink o).runBy (fun _ a => a.Settling) s as = some s' ∧
      as.countP LogAct.ofTask = n) ∧
    ∀ as s', (uplink o).runBy (fun _ a => a.Settling) s as = some s' →
      s.waiting + 8 ≤ as.countP LogAct.ofTask →
        s'.uploader.Clean ∧
          ∀ bs t, (uplink o).runBy (fun _ a => a.Settling) s' bs = some t →
            ∃ calls, t.uploader.calls = s'.uploader.calls ++ calls ∧
              ∀ c ∈ calls, ∃ kind, c = .taken kind 0 := by
  refine ⟨LogUplink.exists_settling_run h, fun as s' hrun hlong => ?_⟩
  have hclean := LogUplink.clean_of_settling h hrun hlong
  exact ⟨hclean, fun bs t hrest =>
    LogUplink.silent_run (LogUplink.reach_settling h hrun) hclean hrest⟩

/-- A packet waits for an upload that has already turned to the lines, and a line is counted as
dropped meanwhile. -/
theorem logs_come_through_sample :
    ∃ s : LogUplink .sample, s.waiting = 1 ∧ s.uploader.dropped .text = 1 ∧
      ∃ as s', (uplink .sample).runBy (fun _ a => a.Settling) s as = some s' ∧
        s'.uploader.Clean := by
  have hrun : ((uplink .sample).run
      [.wake true, .begin 0, .next 0 .sample .sample, .begin 0,
        .sinkStart (some [165, 16, 0, 2]) (some fun _ => 0), .sinkPayload [7, 8], .sinkEnd,
        .textVprintf false (some [104, 105, 10]) false]).map
      (fun s => decide (s.waiting = 1 ∧ s.uploader.dropped .text = 1)) = some true := by
    decide +kernel
  obtain ⟨s, hs, hcheck⟩ := Lts.exists_reach_of_run hrun
  obtain ⟨hwaiting, hdropped⟩ := of_decide_eq_true hcheck
  obtain ⟨hexists, hthen⟩ := logs_come_through hs
  obtain ⟨as, s', hsettled, hcount⟩ := hexists 9
  exact ⟨s, hwaiting, hdropped, as, s', hsettled,
    (hthen as s' hsettled (by rw [hwaiting, hcount])).1⟩

end SoulCloud
