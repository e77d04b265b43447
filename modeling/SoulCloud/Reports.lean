import Mathlib.Data.Int.ConditionallyCompleteOrder
import SoulCloud.Lib.Ascending
import SoulCloud.Verification

/-!
# What an attempt reports (`sc_ota::report`)

The reports of an attempt and the calls on its handle come from three functions, and a download
reports its progress across any number of connections.

- `reportedStates`, `percents`, `handleCalls`: the three readings of what an attempt has shown.
- `OtaPc.Shown`: what has been reported and opened at each program counter.
- `OtaPc.top`: what the progress has come to there; it follows what the flash holds, not the bytes
  of the present connection.
- `attempt_reports`: **the reports of an attempt and the calls on its handle**.
-/

namespace SoulCloud

open Bytes Word

/-- The state that a call reports. -/
def OtaCall.state? : OtaCall → Option UpdateState
  | .report evt => some evt.state
  | _ => none

/-- The progress that a call reports, unless it reports a failure. -/
def OtaCall.percent? : OtaCall → Option Int
  | .report evt => if evt.state = .failed then none else some evt.progress
  | _ => none

/-- The call opens or releases a handle. -/
def OtaCall.onHandle : OtaCall → Bool
  | .otaBegin | .otaAbort | .otaEnd => true
  | _ => false

/-- The states that were reported, in order. -/
def reportedStates (calls : List OtaCall) : List UpdateState := calls.filterMap OtaCall.state?

/-- The progress of every report but the failed ones, in order. -/
def percents (calls : List OtaCall) : List Int := calls.filterMap OtaCall.percent?

/-- The calls that open or release a handle, in order. -/
def handleCalls (calls : List OtaCall) : List OtaCall := calls.filter OtaCall.onHandle

/-- One or more downloading. -/
def Downloads (states : List UpdateState) : Prop :=
  ∃ n, states = List.replicate (n + 1) .downloading

/-- One or more downloading, then verifying. -/
def Verifies (states : List UpdateState) : Prop :=
  ∃ n, states = List.replicate (n + 1) .downloading ++ [.verifying]

/-- What a whole attempt reports: it fails at once, or downloads and fails, or verifies what it has
downloaded and then fails or reboots. -/
inductive Complete : List UpdateState → Prop
  | refused : Complete [.failed]
  | interrupted {states : List UpdateState} (h : Downloads states) : Complete (states ++ [.failed])
  | rejected {states : List UpdateState} (h : Verifies states) : Complete (states ++ [.failed])
  | updated {states : List UpdateState} (h : Verifies states) : Complete (states ++ [.rebooting])

/-- No handle was opened, or one, and it was released once. -/
def Released (calls : List OtaCall) : Prop :=
  calls = [] ∨ calls = [.otaBegin, .otaAbort] ∨ calls = [.otaBegin, .otaEnd]

instance (calls : List OtaCall) : Decidable (Released calls) :=
  inferInstanceAs (Decidable (_ ∨ _ ∨ _))

/-- The attempt has ended: `run` returns, or restarts the device. -/
def OtaPc.over : OtaPc → Bool
  | .ended _ | .restart | .restarted => true
  | _ => false

/-- What has been reported and opened at each program counter. -/
def OtaPc.Shown (states : List UpdateState) (handles : List OtaCall) : OtaPc → Prop
  | .idle => True
  | .getPartition => states = [] ∧ handles = []
  | .otaBegin => Downloads states ∧ handles = []
  | .otaEnd => Verifies states ∧ handles = [.otaBegin]
  | .setBoot => Verifies states ∧ handles = [.otaBegin, .otaEnd]
  | .restart | .restarted | .ended _ => Complete states ∧ Released handles
  | _ => Downloads states ∧ handles = [.otaBegin]

/-- The percentage of the image that `w` bytes are. -/
def percentOf (size w : Nat) : Int := ((w * 100 / size : Nat) : Int)

/-- What the progress has come to at each program counter, with `w` bytes in the flash. -/
def OtaPc.top (size w : Nat) : OtaPc → Int
  | .getPartition | .otaBegin => 0
  | .prepare | .loop _ | .connect _ | .fetch _ | .check _ _ | .read _ _ | .write _ _ _
  | .close _ _ | .finish _ | .abort _ => percentOf size w
  | _ => 100

/-- Percentages that never decrease. -/
structure Progress (log : List Int) (top : Int) : Prop where
  ascends : Ascends log top
  range : ∀ x ∈ log, 0 ≤ x ∧ x ≤ 100

namespace Progress

variable {log : List Int} {top x : Int}

theorem mono (h : Progress log top) (hle : top ≤ x) : Progress log x :=
  ⟨h.ascends.mono hle, h.range⟩

/-- All percentages are at most 100. -/
theorem hundred (h : Progress log top) : Progress log 100 :=
  ⟨⟨h.ascends.sorted, fun x hx => (h.range x hx).2⟩, h.range⟩

theorem snoc (h : Progress log top) (hle : top ≤ x) (hrange : 0 ≤ x ∧ x ≤ 100) :
    Progress (log ++ [x]) x := by
  refine ⟨h.ascends.snoc hle, fun y hy => ?_⟩
  rcases List.mem_append.mp hy with hy | hy
  · exact h.range y hy
  · rw [List.mem_singleton.mp hy]
    exact hrange

end Progress

theorem percentOf_range {size w : Nat} (hle : w ≤ size) :
    0 ≤ percentOf size w ∧ percentOf size w ≤ 100 := by
  have hdiv : w * 100 / size ≤ 100 := Nat.div_le_of_le_mul (Nat.mul_le_mul_right 100 hle)
  exact ⟨Int.natCast_nonneg _, Int.ofNat_le.mpr hdiv⟩

theorem percentOf_mono (size : Nat) {w w' : Nat} (hle : w ≤ w') :
    percentOf size w ≤ percentOf size w' :=
  Int.ofNat_le.mpr (Nat.div_le_div_right (Nat.mul_le_mul_right 100 hle))

/-- One more report of progress. -/
theorem Downloads.snoc {states : List UpdateState} (h : Downloads states) :
    Downloads (states ++ [.downloading]) := by
  obtain ⟨n, rfl⟩ := h
  exact ⟨n + 1, List.replicate_succ'.symm⟩

namespace Ota

variable {port : OtaPort} {s s' : Ota} {a : OtaAct}

/-- What the attempt has shown goes with where it is. -/
def Shown (s : Ota) : Prop := s.pc.Shown (reportedStates s.calls) (handleCalls s.calls)

/-- The progress of the attempt goes with where it is. -/
def Progressing (s : Ota) : Prop :=
  Progress (percents s.calls) (s.pc.top s.params.size s.written.length)

theorem reportedStates_append (calls new : List OtaCall) :
    reportedStates (calls ++ new) = reportedStates calls ++ reportedStates new :=
  List.filterMap_append

theorem percents_append (calls new : List OtaCall) :
    percents (calls ++ new) = percents calls ++ percents new :=
  List.filterMap_append

theorem handleCalls_append (calls new : List OtaCall) :
    handleCalls (calls ++ new) = handleCalls calls ++ handleCalls new :=
  List.filter_append _ _

theorem shown_iff {pc : OtaPc} (hpc : s.pc = pc) :
    s.Shown ↔ pc.Shown (reportedStates s.calls) (handleCalls s.calls) := by
  rw [Shown, hpc]

theorem progressing_iff {pc : OtaPc} (hpc : s.pc = pc) :
    s.Progressing ↔ Progress (percents s.calls) (pc.top s.params.size s.written.length) := by
  rw [Progressing, hpc]

theorem afterTransfer_shown {states : List UpdateState} {handles : List OtaCall} (d : Attempt)
    (readLen : Int) (h : Downloads states ∧ handles = [.otaBegin]) :
    (afterTransfer d readLen).Shown states handles := by
  rcases afterTransfer_cases d readLen with ⟨_, hpc⟩ | ⟨_, -, hpc⟩ <;>
  · rw [hpc]
    exact h

theorem afterTransfer_top (size w : Nat) (d : Attempt) (readLen : Int) :
    (afterTransfer d readLen).top size w = percentOf size w := by
  rcases afterTransfer_cases d readLen with ⟨_, hpc⟩ | ⟨_, -, hpc⟩ <;>
  · rw [hpc]
    rfl

/-- The attempt with some more calls. -/
theorem shown_of_calls {new : List OtaCall} (hcalls : s'.calls = s.calls ++ new)
    (h : s'.pc.Shown (reportedStates s.calls ++ reportedStates new)
      (handleCalls s.calls ++ handleCalls new)) : s'.Shown := by
  rw [Shown, hcalls, reportedStates_append, handleCalls_append]
  exact h

/-- A call that neither reports nor touches the handle. -/
theorem shown_of_silent {c : OtaCall} (hcalls : s'.calls = s.calls ++ [c])
    (hstate : c.state? = none) (hhandle : c.onHandle = false)
    (h : s'.pc.Shown (reportedStates s.calls) (handleCalls s.calls)) : s'.Shown := by
  have hstates : reportedStates [c] = [] := by simp [reportedStates, hstate]
  have hhandles : handleCalls [c] = [] := by simp [handleCalls, hhandle]
  refine shown_of_calls hcalls ?_
  rw [hstates, hhandles, List.append_nil, List.append_nil]
  exact h

theorem progressing_of_calls {new : List OtaCall} (hcalls : s'.calls = s.calls ++ new)
    (h : Progress (percents s.calls ++ percents new)
      (s'.pc.top s'.params.size s'.written.length)) : s'.Progressing := by
  rw [Progressing, hcalls, percents_append]
  exact h

/-- The calls after a digest that is not the announced one. -/
theorem calls_mismatch (s : Ota) :
    (((s.report .verifying 100 none).call .otaAbort).failWith .invalidCrc
      (ascii "SHA-256 mismatch")).calls =
      s.calls ++ [.report ⟨s.params.taskId.bytes, .verifying, 100, none⟩, .otaAbort,
        .report ⟨s.params.taskId.bytes, .failed, -1, some (ascii "SHA-256 mismatch")⟩] := by
  simp only [failWith, report, call, List.append_assoc]
  rfl

/-- **Step lemma** for the states and the handle. -/
theorem shown_step (h : OtaStep port s a s') (hs : s.Shown) : s'.Shown := by
  cases h with
  | startRunning | cancelRefused | cancel => exact hs
  | @start params created =>
    cases created with
    | true => exact ⟨rfl, rfl⟩
    | false => trivial
  | cancelStore => exact shown_of_silent rfl rfl rfl hs
  | noPartition hpc | tooLarge hpc =>
    obtain ⟨hstates, hhandles⟩ := (shown_iff hpc).mp hs
    refine shown_of_calls rfl ?_
    rw [hstates, hhandles]
    exact ⟨.refused, .inl rfl⟩
  | getPartition hpc =>
    obtain ⟨hstates, hhandles⟩ := (shown_iff hpc).mp hs
    refine shown_of_calls rfl ?_
    rw [hstates, hhandles]
    exact ⟨⟨0, rfl⟩, rfl⟩
  | otaBegin hpc =>
    obtain ⟨hstates, hhandles⟩ := (shown_iff hpc).mp hs
    refine shown_of_calls rfl ?_
    rw [hhandles]
    exact ⟨(List.append_nil (reportedStates s.calls)).symm ▸ hstates, rfl⟩
  | otaBeginFailed hpc =>
    obtain ⟨hstates, hhandles⟩ := (shown_iff hpc).mp hs
    refine shown_of_calls rfl ?_
    rw [hhandles]
    exact ⟨.interrupted hstates, .inl rfl⟩
  | prepareFailed hpc | prepare hpc | loopDone hpc | loopCancelled hpc | loop hpc | connect hpc
  | refused hpc | fetch hpc | checkDone hpc | check hpc | readEnd hpc | read hpc | writeFailed hpc
  | finish hpc | finishFailed hpc => exact (shown_iff hpc).mp hs
  | connectFailed hpc | close hpc =>
    have hdownload := (shown_iff hpc).mp hs
    rw [Shown]
    dsimp only
    exact afterTransfer_shown _ _ hdownload
  | @write _ _ data hashed now percent hpc =>
    obtain ⟨hstates, hhandles⟩ := (shown_iff hpc).mp hs
    obtain ⟨_, _, calls, heq, hcalls⟩ := reportProgress_spec
      { s with written := s.written ++ data, hash := s.hash.update data hashed } percent now
    rw [heq]
    rcases hcalls with rfl | rfl
    · exact ⟨hstates, hhandles⟩
    · refine shown_of_calls rfl ?_
      rw [hhandles]
      exact ⟨hstates.snoc, rfl⟩
  | abort hpc =>
    obtain ⟨hstates, hhandles⟩ := (shown_iff hpc).mp hs
    refine shown_of_calls (List.append_assoc _ _ _) ?_
    rw [hhandles]
    exact ⟨.interrupted hstates, .inr (.inl rfl)⟩
  | verify hpc =>
    obtain ⟨⟨n, hstates⟩, hhandles⟩ := (shown_iff hpc).mp hs
    refine shown_of_calls rfl ?_
    rw [hstates, hhandles]
    exact ⟨⟨n, rfl⟩, rfl⟩
  | mismatch hpc =>
    obtain ⟨⟨n, hstates⟩, hhandles⟩ := (shown_iff hpc).mp hs
    refine shown_of_calls s.calls_mismatch ?_
    have hcomplete :
        Complete ((List.replicate (n + 1) .downloading ++ [.verifying]) ++ [.failed]) :=
      .rejected ⟨n, rfl⟩
    rw [List.append_assoc] at hcomplete
    rw [hstates, hhandles]
    exact ⟨hcomplete, .inr (.inl rfl)⟩
  | otaEnd hpc =>
    obtain ⟨hstates, hhandles⟩ := (shown_iff hpc).mp hs
    refine shown_of_calls rfl ?_
    rw [hhandles]
    exact ⟨(List.append_nil (reportedStates s.calls)).symm ▸ hstates, rfl⟩
  | otaEndFailed hpc =>
    obtain ⟨hstates, hhandles⟩ := (shown_iff hpc).mp hs
    refine shown_of_calls (List.append_assoc _ _ _) ?_
    rw [hhandles]
    exact ⟨.rejected hstates, .inr (.inr rfl)⟩
  | setBoot hpc =>
    obtain ⟨hstates, hhandles⟩ := (shown_iff hpc).mp hs
    refine shown_of_calls (List.append_assoc _ _ _) ?_
    rw [hhandles]
    exact ⟨.updated hstates, .inr (.inr rfl)⟩
  | setBootFailed hpc =>
    obtain ⟨hstates, hhandles⟩ := (shown_iff hpc).mp hs
    refine shown_of_calls (List.append_assoc _ _ _) ?_
    rw [hhandles]
    exact ⟨.rejected hstates, .inr (.inr rfl)⟩
  | restart hpc => exact shown_of_silent rfl rfl rfl ((shown_iff hpc).mp hs)
  | clear hpc => trivial

/-- Calls that report no progress. -/
theorem progressing_of_quiet {new : List OtaCall} (hcalls : s'.calls = s.calls ++ new)
    (hquiet : percents new = [])
    (h : Progress (percents s.calls) (s'.pc.top s'.params.size s'.written.length)) :
    s'.Progressing := by
  refine progressing_of_calls hcalls ?_
  rw [hquiet, List.append_nil]
  exact h

/-- What a write makes of the progress. -/
theorem progress_write {d : Attempt} {n : Nat} {data : Bytes}
    (hn : Streamed s.params.size s.written s.hash.fed (d.offset + n))
    (hle : d.offset + n + data.length ≤ s.params.size) :
    s.progress d (toInt32 (toInt32 n + data.length)) =
      percentOf s.params.size (s.written.length + data.length) := by
  have hsize := hn.size_le
  have hsum : toSizeT (d.offset + toInt32 (toInt32 n + data.length)) =
      s.written.length + data.length := by
    rw [toInt32_add_toInt32, toSizeT_add_toInt32, hn.length]
    have := toSizeT_of_lt (by omega : d.offset + n + data.length < 2 ^ 32)
    rwa [Nat.cast_add, Nat.cast_add, add_assoc] at this
  rw [progress, hsum]
  rfl

/-- **Step lemma** for the progress. -/
theorem progressing_step (h : OtaStep port s a s') (hstage : s.Stage) (hs : s.Progressing) :
    s'.Progressing := by
  have hfirst : (0 : Int) ≤ 0 ∧ (0 : Int) ≤ 100 := by decide
  have hlast : (0 : Int) ≤ 100 ∧ (100 : Int) ≤ 100 := by decide
  cases h with
  | startRunning | cancelRefused | cancel => exact hs
  | start => exact ⟨.nil _, nofun⟩
  | cancelStore => exact progressing_of_quiet rfl rfl hs
  | noPartition | tooLarge | otaBeginFailed | otaEnd | restart =>
    exact progressing_of_quiet rfl rfl hs.hundred
  | getPartition hpc =>
    refine progressing_of_calls rfl ?_
    exact ((progressing_iff hpc).mp hs).snoc (Int.le_refl 0) hfirst
  | otaBegin hpc =>
    have hzero : percentOf s.params.size 0 = 0 := by simp [percentOf]
    refine progressing_of_quiet rfl rfl ?_
    show Progress (percents s.calls) (percentOf s.params.size 0)
    rw [hzero]
    exact (progressing_iff hpc).mp hs
  | prepareFailed hpc | prepare hpc | loopDone hpc | loopCancelled hpc | loop hpc | connect hpc
  | refused hpc | fetch hpc | checkDone hpc | check hpc | readEnd hpc | read hpc | writeFailed hpc
  | finishFailed hpc => exact (progressing_iff hpc).mp hs
  | connectFailed hpc | close hpc =>
    have hsame := (progressing_iff hpc).mp hs
    rw [Progressing, afterTransfer_top]
    exact hsame
  | @write d total data hashed now percent hpc hpercent =>
    rw [stage_iff hpc] at hstage
    obtain ⟨n, htotal, hn, hle⟩ := hstage
    rw [htotal, progress_write hn hle] at hpercent
    obtain ⟨_, _, calls, heq, hcalls⟩ := reportProgress_spec
      { s with written := s.written ++ data, hash := s.hash.update data hashed } percent now
    rw [heq]
    have hold := (progressing_iff hpc).mp hs
    have hmore : percentOf s.params.size s.written.length ≤ percent := by
      rw [hpercent]
      exact percentOf_mono _ (Nat.le_add_right _ _)
    have hrange : 0 ≤ percent ∧ percent ≤ 100 := by
      rw [hpercent, hn.length]
      exact percentOf_range hle
    have hlen : percentOf s.params.size (s.written ++ data).length = percent := by
      rw [List.length_append, hpercent]
    rcases hcalls with rfl | rfl
    · show Progress (percents s.calls) (percentOf s.params.size (s.written ++ data).length)
      rw [hlen]
      exact hold.mono hmore
    · refine progressing_of_calls rfl ?_
      show Progress (percents s.calls ++ [percent])
        (percentOf s.params.size (s.written ++ data).length)
      rw [hlen]
      exact hold.snoc hmore hrange
  | finish | clear => exact hs.hundred
  | abort | otaEndFailed | setBootFailed =>
    exact progressing_of_quiet (List.append_assoc _ _ _) rfl hs.hundred
  | verify =>
    refine progressing_of_calls rfl ?_
    exact hs.hundred.snoc (Int.le_refl 100) hlast
  | mismatch =>
    refine progressing_of_calls s.calls_mismatch ?_
    exact hs.hundred.snoc (Int.le_refl 100) hlast
  | setBoot =>
    refine progressing_of_calls (List.append_assoc _ _ _) ?_
    exact hs.hundred.snoc (Int.le_refl 100) hlast

theorem shown_reach (h : (ota port).Reach s) : s.Shown := by
  refine h.invariant trivial ?_
  intro s a s' _ hs _ hst
  exact shown_step (otaStep_cases hst) hs

theorem progressing_reach (h : (ota port).Reach s) : s.Progressing := by
  refine h.invariant ⟨.nil _, nofun⟩ ?_
  intro s a s' hreach hs _ hst
  exact progressing_step (otaStep_cases hst) (stage_reach hreach) hs

/-- **The reports of an attempt and the calls on its handle.** Whatever the server, the flash, the
request task and the connection do: where an attempt ends it has reported failed alone, or
downloading at least once and failed, or downloading at least once, verifying and one of failed and
rebooting, and a handle that it opened has been released once; and at all times the progress in its
reports but the failed ones is between 0 and 100 and has never decreased. -/
theorem attempt_reports (port : OtaPort) {s : Ota} (h : (ota port).Reach s) :
    (s.pc.over = true → Complete (reportedStates s.calls) ∧ Released (handleCalls s.calls)) ∧
      (percents s.calls).Pairwise (· ≤ ·) ∧ ∀ x ∈ percents s.calls, 0 ≤ x ∧ x ≤ 100 := by
  have hprogress := progressing_reach h
  refine ⟨fun hover => ?_, hprogress.ascends.sorted, hprogress.range⟩
  have hshown := shown_reach h
  cases hpc : s.pc with
  | restart | restarted | ended ret => exact (shown_iff hpc).mp hshown
  | _ =>
    rw [hpc] at hover
    cases hover

/-- An update over two connections, the second of them after two seconds. -/
theorem attempt_reports_sample :
    ∃ s, (ota .sample).Reach s ∧ percents s.calls = [0, 66, 100, 100] ∧
      Complete (reportedStates s.calls) ∧ Released (handleCalls s.calls) := by
  have hrun : ((ota .sample).run (sampleStart ++ [.read [0xe9, 1], .write .ok true 2000000] ++
      sampleResume.drop 2 ++ [.verify, .otaEnd .ok, .setBoot .ok])).map
      (fun s => s.pc.over && decide (percents s.calls = [0, 66, 100, 100])) = some true := by
    decide +kernel
  obtain ⟨s, hs, hcheck⟩ := Lts.exists_reach_of_run hrun
  obtain ⟨hover, hpercents⟩ := Bool.and_eq_true_iff.mp hcheck
  obtain ⟨hcomplete, hreleased⟩ := (attempt_reports .sample hs).1 hover
  exact ⟨s, hs, of_decide_eq_true hpercents, hcomplete, hreleased⟩

end Ota

end SoulCloud
