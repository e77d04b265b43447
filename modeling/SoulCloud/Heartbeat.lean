import SoulCloud.Client

/-!
# The deadline of the heartbeat (`sc_client::run_task`)

The tick counter has 32 bits and wraps around, and `next_report` with it. Beside a run the ticks
are counted on, so that the loop's signed differences can be held against the time that passed.

- `Clock`: when `next_report` was last set, and when the counter was last read.
- `ticked`: the client on a counter that wraps.
- `Keeps`: how late it can be at each point of the loop.
- `deadline_unwrapped`: the loop judges and waits as it would with a counter that never wraps.
-/

namespace SoulCloud

open Word

/-- The tick count that a step reads. -/
def ClientAct.time : ClientAct → Option Nat
  | .boot now | .deadline now | .tellUp now | .due now | .rearm now => some now
  | _ => none

/-- The step with what `xTaskGetTickCount` returns. -/
def ClientAct.counted : ClientAct → ClientAct
  | .boot now => .boot (toSizeT now)
  | .deadline now => .deadline (toSizeT now)
  | .tellUp now => .tellUp (toSizeT now)
  | .due now => .due (toSizeT now)
  | .rearm now => .rearm (toSizeT now)
  | a => a

/-- Ticks, counted without wrapping. -/
structure Clock where
  /-- When `next_report` was last set. -/
  armed : Nat
  /-- When the counter was last read. -/
  seen : Nat

/-- The clock after a step. -/
def Clock.read (k : Clock) : ClientAct → Clock
  | .boot now | .tellUp now | .rearm now => ⟨now, now⟩
  | .deadline now | .due now => { k with seen := now }
  | _ => k

/-- The client, with a clock that it does not see. -/
def ticked (cfg : Config) (opts : ClientOptions) : Lts (Client cfg × Clock) ClientAct where
  init := (.init cfg opts, ⟨0, 0⟩)
  step p a := (p.1.step opts a.counted).map fun s => (s, p.2.read a)

/-- Time does not go back, and after the start, at any count, less than 2^30 ticks pass between
two readings. -/
def Timely {cfg : Config} (p : Client cfg × Clock) (a : ClientAct) : Prop :=
  ∀ now ∈ a.time, p.1.pc ≠ .boot → p.2.seen ≤ now ∧ now < p.2.seen + 2 ^ 30

instance {cfg : Config} (p : Client cfg × Clock) (a : ClientAct) : Decidable (Timely p a) :=
  inferInstanceAs (Decidable (∀ now ∈ a.time, _))

/-- The deadline has been evaluated and is evaluated again before it is moved by a report. -/
def ClientPc.beforeDue : ClientPc → Bool
  | .boot | .deadline | .heartbeat | .report | .rearm => false
  | _ => true

namespace Client

variable {cfg : Config} {opts : ClientOptions} {s s' : Client cfg} {a : ClientAct}
  {p p' : Client cfg × Clock}

/-- How late it can be: before a wait the deadline has not passed, and before the report is
judged it has not passed for long. -/
structure Keeps (opts : ClientOptions) (p : Client cfg × Clock) : Prop where
  ordered : p.2.armed ≤ p.2.seen
  set : p.1.pc ≠ .boot → p.1.nextReport = toSizeT (p.2.armed + opts.heartbeat)
  early : p.1.pc = .deadline → p.2.seen < p.2.armed + opts.heartbeat
  late : p.1.pc.beforeDue = true → p.2.seen < p.2.armed + opts.heartbeat + 2 ^ 30

/-- What a step that does not read the counter leaves alone. -/
structure Quiet (s s' : Client cfg) : Prop where
  nextReport : s'.nextReport = s.nextReport
  boot : s'.pc ≠ .boot → s.pc ≠ .boot
  deadline : s'.pc = .deadline → s.pc = .deadline
  beforeDue : s'.pc.beforeDue = true → s.pc.beforeDue = true

/-- The loop goes on before the deadline is evaluated. -/
theorem Quiet.onward (hnext : s'.nextReport = s.nextReport) (hpc : s.pc.beforeDue = true)
    (hpc' : s'.pc.beforeDue = true) : Quiet s s' := by
  refine ⟨hnext, fun _ hboot => ?_, fun hdeadline => ?_, fun _ => hpc⟩
  · rw [hboot] at hpc
    cases hpc
  · rw [hdeadline] at hpc'
    cases hpc'

theorem afterWait_beforeDue (woken : EventBits) : (afterWait woken).beforeDue = true := by
  unfold afterWait
  split_ifs <;> rfl

theorem tell_nextReport (s : Client cfg) (connected : Bool) :
    (s.tell opts connected).nextReport = s.nextReport := by
  unfold tell
  split_ifs <;> rfl

theorem quiet_step (h : ClientStep opts s a s') (ha : a.time = none) : Quiet s s' := by
  cases h with
  | boot | deadline | tellUp | due | rearm => cases ha
  | event | mqtt | requestReport | stop => exact ⟨rfl, id, id, id⟩
  | wake hpc =>
    refine .onward rfl ?_ (afterWait_beforeDue _)
    rw [hpc]
    rfl
  | birth hpc =>
    refine .onward rfl ?_ ?_
    · rw [hpc]
      rfl
    · dsimp only
      split_ifs <;> rfl
  | confirm hpc =>
    refine .onward ?_ ?_ rfl
    · dsimp only [confirmRunningImage]
      split_ifs <;> rfl
    · rw [hpc]
      rfl
  | tellDown hpc =>
    refine .onward (tell_nextReport s false) ?_ rfl
    rw [hpc]
    rfl
  | clockSet hpc | syncTime hpc | checkUpdate hpc | take hpc | drained hpc =>
    refine .onward rfl ?_ rfl
    rw [hpc]
    rfl
  | @task b dev dest hpc =>
    have hbefore : s.pc.beforeDue = true ∧ dest.beforeDue = true := by
      rcases hpc with ⟨hpc, rfl⟩ | ⟨hpc, rfl⟩ | ⟨hpc, rfl⟩ <;> rw [hpc] <;> exact ⟨rfl, rfl⟩
    refine .onward rfl hbefore.1 ?_
    dsimp only
    split
    · exact hbefore.2
    · exact hbefore.1
  | heartbeat hpc =>
    refine ⟨rfl, fun _ => ?_, ?_, ?_⟩
    · rw [hpc]
      nofun
    all_goals
      dsimp only
      split_ifs <;> exact nofun
  | report hpc =>
    refine ⟨rfl, fun _ => ?_, nofun, nofun⟩
    rw [hpc]
    nofun

theorem keeps_init (cfg : Config) (opts : ClientOptions) : Keeps opts (ticked cfg opts).init :=
  ⟨Nat.le_refl 0, fun h => absurd rfl h, nofun, nofun⟩

/-- `next_report` is set. -/
theorem keeps_armed {now : Nat} (hperiod : 0 < opts.heartbeat)
    (hnext : s.nextReport = arm opts (toSizeT now)) : Keeps opts (s, ⟨now, now⟩) where
  ordered := Nat.le_refl now
  set _ := hnext.trans (toSizeT_toSizeT_add now opts.heartbeat)
  early _ := by
    dsimp only
    omega
  late _ := by
    dsimp only
    omega

/-- A step that does not read the counter. -/
theorem Keeps.quiet {k : Clock} (h : Keeps opts (s, k)) (hquiet : Quiet s s') :
    Keeps opts (s', k) where
  ordered := h.ordered
  set hpc := hquiet.nextReport.trans (h.set (hquiet.boot hpc))
  early hpc := h.early (hquiet.deadline hpc)
  late hpc := h.late (hquiet.beforeDue hpc)

/-- The remaining ticks, as the loop computes them, if it is not 2^31 ticks late. -/
theorem Keeps.untilReport_eq {now : Nat} (h : Keeps opts p) (hpc : p.1.pc ≠ .boot)
    (hperiod : opts.heartbeat < 2 ^ 30) (hearly : p.2.seen ≤ now)
    (hlate : now < p.2.armed + opts.heartbeat + 2 ^ 31) :
    p.1.untilReport (toSizeT now) = (p.2.armed + opts.heartbeat : Nat) - (now : Int) := by
  have hordered := h.ordered
  rw [untilReport, h.set hpc]
  exact toInt32_sub_toSizeT hlate (by omega)

/-- Before the wait, where the deadline had not passed at the last reading. -/
theorem Keeps.until_deadline {now : Nat} (h : Keeps opts p) (hpc : p.1.pc = .deadline)
    (hperiod : opts.heartbeat < 2 ^ 30) (htime : Timely p (.deadline now)) :
    p.1.untilReport (toSizeT now) = (p.2.armed + opts.heartbeat : Nat) - (now : Int) := by
  have hboot : p.1.pc ≠ .boot := by
    rw [hpc]
    nofun
  obtain ⟨hle, hlt⟩ := htime now rfl hboot
  have hearly := h.early hpc
  exact h.untilReport_eq hboot hperiod hle (by omega)

/-- Behind the wait, where it had not passed for 2^30 ticks. -/
theorem Keeps.until_due {now : Nat} (h : Keeps opts p) (hpc : p.1.pc = .due)
    (hperiod : opts.heartbeat < 2 ^ 30) (htime : Timely p (.due now)) :
    p.1.untilReport (toSizeT now) = (p.2.armed + opts.heartbeat : Nat) - (now : Int) := by
  have hboot : p.1.pc ≠ .boot := by
    rw [hpc]
    nofun
  obtain ⟨hle, hlt⟩ := htime now rfl hboot
  have hlate := h.late (by rw [hpc]; rfl)
  exact h.untilReport_eq hboot hperiod hle (by omega)

/-- A report is judged due when the period is over, or one was requested. -/
theorem Keeps.reportDue_iff {now : Nat} (h : Keeps opts p) (hpc : p.1.pc = .due)
    (hperiod : opts.heartbeat < 2 ^ 30) (htime : Timely p (.due now)) :
    p.1.reportDue (toSizeT now) = true ↔
      p.1.woken.reportStatus = true ∨ p.2.armed + opts.heartbeat ≤ now := by
  rw [reportDue, h.until_due hpc hperiod htime, Bool.or_eq_true, decide_eq_true_eq]
  refine or_congr_right ?_
  omega

/-- **Step lemma.** -/
theorem keeps_step (hperiod : 0 < opts.heartbeat ∧ opts.heartbeat < 2 ^ 30) (h : Keeps opts p)
    (htime : Timely p a) (hst : (ticked cfg opts).step p a = some p') : Keeps opts p' := by
  obtain ⟨s, k⟩ := p
  obtain ⟨s', hs', rfl⟩ := Option.map_eq_some_iff.mp hst
  have hcases := step_cases hs'
  cases a with
  | boot now =>
    cases hcases
    exact keeps_armed hperiod.1 rfl
  | rearm now =>
    cases hcases
    exact keeps_armed hperiod.1 rfl
  | tellUp now =>
    cases hcases
    exact keeps_armed hperiod.1 rfl
  | deadline now =>
    cases hcases with
    | deadline hpc =>
      have hboot : s.pc ≠ .boot := by
        rw [hpc]
        nofun
      obtain ⟨hle, hlt⟩ := htime now rfl hboot
      have hearly := h.early hpc
      refine ⟨h.ordered.trans hle, fun _ => h.set hboot, nofun, fun _ => ?_⟩
      dsimp only at hearly hlt ⊢
      show now < k.armed + opts.heartbeat + 2 ^ 30
      omega
  | due now =>
    cases hcases with
    | due hpc =>
      have hboot : s.pc ≠ .boot := by
        rw [hpc]
        nofun
      obtain ⟨hle, -⟩ := htime now rfl hboot
      have hdue := h.reportDue_iff hpc hperiod.2 htime
      dsimp only at hdue
      refine ⟨h.ordered.trans hle, fun _ => h.set hboot, fun hpc' => ?_, fun hpc' => ?_⟩
      · -- The loop waits again because the period is not over.
        dsimp only at hpc'
        split_ifs at hpc' with hno
        rw [hdue, not_or] at hno
        exact Nat.lt_of_not_le hno.2
      · dsimp only at hpc'
        split_ifs at hpc' <;> cases hpc'
  | _ => exact h.quiet (quiet_step hcases rfl)

theorem keeps_reach (hperiod : 0 < opts.heartbeat ∧ opts.heartbeat < 2 ^ 30)
    (h : (ticked cfg opts).ReachBy Timely p) : Keeps opts p :=
  h.invariant (keeps_init cfg opts) fun _ hk htime hst => keeps_step hperiod hk htime hst

/-- **The deadline does not notice that the counter wraps.** In every run that reads it often
enough, from any count on, a report is judged due exactly when a period has passed since
`next_report` was set, and the wait is for the rest of the period. -/
theorem deadline_unwrapped (cfg : Config) {opts : ClientOptions} {p : Client cfg × Clock}
    (hperiod : 0 < opts.heartbeat ∧ opts.heartbeat < 2 ^ 30)
    (h : (ticked cfg opts).ReachBy Timely p) (now : Nat) :
    (∀ s', Timely p (.due now) → p.1.step opts (.due (toSizeT now)) = some s' →
      (p.1.untilReport (toSizeT now) ≤ 0 ↔ p.2.armed + opts.heartbeat ≤ now) ∧
      (s'.pc = .heartbeat ↔
        p.1.woken.reportStatus = true ∨ p.2.armed + opts.heartbeat ≤ now)) ∧
    (∀ s', Timely p (.deadline now) → p.1.step opts (.deadline (toSizeT now)) = some s' →
      s'.pc = .wait ((p.2.armed + opts.heartbeat - now : Nat) : Int)) := by
  have hkeeps := keeps_reach hperiod h
  constructor
  · intro s' htime hst
    cases step_cases hst with
    | due hpc =>
      constructor
      · rw [hkeeps.until_due hpc hperiod.2 htime]
        omega
      · rw [← hkeeps.reportDue_iff hpc hperiod.2 htime]
        dsimp only
        split_ifs with hdue
        · exact ⟨fun _ => hdue, fun _ => rfl⟩
        · exact ⟨nofun, fun h => absurd h hdue⟩
  · intro s' htime hst
    cases step_cases hst with
    | deadline hpc =>
      have hrest : max ((p.2.armed + opts.heartbeat : Nat) - (now : Int)) 0 =
          ((p.2.armed + opts.heartbeat - now : Nat) : Int) := by omega
      rw [hkeeps.until_deadline hpc hperiod.2 htime, hrest]

/-- A report that is due after the counter has wrapped, at the first tick where it is. -/
theorem deadline_unwrapped_sample :
    ∃ p : Client .sample × Clock, (ticked .sample .sample).ReachBy Timely p ∧
      p.2.armed = 2 ^ 32 - 100 ∧
      ∃ s', p.1.step .sample (.due (toSizeT (2 ^ 32 + 59900))) = some s' ∧ s'.pc = .heartbeat := by
  have hrun : ((ticked .sample .sample).runBy Timely (ticked .sample .sample).init
      [.boot (2 ^ 32 - 100), .deadline (2 ^ 32 - 90), .wake true, .drained]).map
      (fun p => decide (p.1.pc = .due ∧ p.2.armed = 2 ^ 32 - 100 ∧ p.2.seen = 2 ^ 32 - 90)) =
        some true := by
    decide +kernel
  obtain ⟨p, hreach, hcheck⟩ := Lts.exists_reachBy_of_runBy hrun
  obtain ⟨hpc, harmed, hseen⟩ := of_decide_eq_true hcheck
  have htime : Timely p (.due (2 ^ 32 + 59900)) := by
    rintro now ⟨⟩ -
    rw [hseen]
    decide
  have hst : p.1.step .sample (.due (toSizeT (2 ^ 32 + 59900))) = some
      { p.1 with
        pc := if p.1.reportDue (toSizeT (2 ^ 32 + 59900)) then .heartbeat else .deadline } := by
    simp only [step, hpc]
  have hdue := ((deadline_unwrapped .sample (by decide) hreach (2 ^ 32 + 59900)).1 _ htime hst).2
  refine ⟨p, hreach, harmed, _, hst, hdue.mpr (.inr ?_)⟩
  rw [harmed]
  decide

end Client

end SoulCloud
