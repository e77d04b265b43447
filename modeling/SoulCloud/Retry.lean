import SoulCloud.Ota

/-!
# A start after a failed update (`sc_ota::start`)

`start` answers `ESP_OK` for the task id of the update that is running, and takes
`running` for it. The update task clears `running` some time after its terminal report,
so a start in between is answered `ESP_OK` and nothing comes of it.

- `Ota.failureReported`: the last attempt was for this task id and has reported its failure.
- `StartCall`: what a call of `start` found, answered and did; `otaStarts` notes them.
- `start_after_failure`: in runs in which no start for the failed update's own task id falls
  between the report and the clearing of `running`, every start that succeeds after a
  failure has created a task.
- `start_between`: a platform that tries again as soon as it sees the failure.
-/

namespace SoulCloud

/-- The terminal report of a failed attempt. -/
def OtaCall.isFailure : OtaCall → Bool
  | .report evt => decide (evt.state = .failed)
  | _ => false

/-- `run` has returned and `running` is not cleared yet. -/
def OtaPc.isEnded : OtaPc → Bool
  | .ended _ => true
  | _ => false

/-- What a call of `sc_ota::start` found, answered and did. -/
structure StartCall where
  /-- The last attempt for its task id had reported that it failed. -/
  afterFailure : Bool
  ret : EspErr
  /-- The call has created an update task. -/
  created : Bool

/-- A start that succeeds after a failure has an attempt of its own. -/
def StartCall.OwnAttempt (c : StartCall) : Prop :=
  c.afterFailure = true → c.ret = .ok → c.created = true

instance (c : StartCall) : Decidable c.OwnAttempt := inferInstanceAs (Decidable (_ → _))

namespace Ota

variable {port : OtaPort} {s s' : Ota} {a : OtaAct}

/-- The last attempt was for this task and has reported that it failed. -/
def failureReported (s : Ota) (taskId : CStr 40) : Bool :=
  decide (s.params.taskId = taskId) && s.calls.any OtaCall.isFailure

/-- The call of `start` that a step makes. -/
def noteStart (s : Ota) (a : OtaAct) (_ : Ota) (starts : List StartCall) : List StartCall :=
  match a with
  | .start params created =>
    starts ++ [⟨s.failureReported params.taskId, s.startRet params created,
      !s.running && created⟩]
  | _ => starts

/-- No start for the failed update's own task id comes before `running` is cleared. -/
def startsInTurn (s : Ota) : OtaAct → Bool
  | .start params _ => !(s.pc.isEnded && decide (params.taskId = s.params.taskId))
  | _ => true

/-- An attempt that has reported its failure is about to clear `running`, or has done so. -/
def FailureEnds (s : Ota) : Prop :=
  s.calls.any OtaCall.isFailure = true → s.pc.isEnded = true ∨ s.running = false

theorem FailureEnds.idle (h : s.FailureEnds) {pc : OtaPc} (hpc : s.pc = pc)
    (hopen : pc.isEnded = false) (hfail : s.calls.any OtaCall.isFailure = true) :
    s.running = false := by
  rcases h hfail with hended | hidle
  · rw [hpc, hopen] at hended
    cases hended
  · exact hidle

theorem failureEnds_step (h : OtaStep port s a s') (hs : s.FailureEnds) : s'.FailureEnds := by
  cases h with
  | startRunning | cancelRefused | cancel => exact hs
  | start => exact nofun
  | cancelStore =>
    intro hfail
    simp only [call, List.any_append] at hfail
    exact hs (by simpa [OtaCall.isFailure] using hfail)
  -- The failed reports come with the end of `run`.
  | noPartition | tooLarge | otaBeginFailed | abort | mismatch | otaEndFailed
  | setBootFailed => exact fun _ => .inl rfl
  | clear => exact fun _ => .inr rfl
  -- No other step reports a failure, and none of them starts from the end of `run`.
  | prepareFailed hpc | prepare hpc | loopDone hpc | loopCancelled hpc | loop hpc
  | connectFailed hpc | connect hpc | refused hpc | fetch hpc | checkDone hpc | check hpc
  | readEnd hpc | read hpc | writeFailed hpc | close hpc | finish hpc | finishFailed hpc =>
    exact fun hfail => .inr (hs.idle hpc rfl hfail)
  | getPartition hpc | otaBegin hpc | verify hpc | otaEnd hpc | setBoot hpc | restart hpc =>
    intro hfail
    refine .inr (hs.idle hpc rfl ?_)
    simpa [report, call, OtaCall.isFailure] using hfail
  | @write _ _ data hashed now percent hpc _ =>
    obtain ⟨_, _, calls, heq, hcalls⟩ := reportProgress_spec
      { s with written := s.written ++ data, hash := s.hash.update data hashed } percent now
    rw [heq]
    intro hfail
    refine .inr (hs.idle hpc rfl ?_)
    rcases hcalls with rfl | rfl
    · exact hfail
    · simpa [OtaCall.isFailure] using hfail

/-- What makes a start go wrong: it is for the task id of an update that has failed and has
not cleared `running` yet. -/
theorem ownAttempt_of_inTurn (hs : s.FailureEnds) {params : OtaParams} {created : Bool}
    (hg : startsInTurn s (.start params created) = true) :
    StartCall.OwnAttempt
      ⟨s.failureReported params.taskId, s.startRet params created, !s.running && created⟩ := by
  intro hfail hret
  obtain ⟨htask, hfail⟩ := Bool.and_eq_true_iff.mp hfail
  have hidle : s.running = false := by
    rcases hs hfail with hended | hidle
    · have hsame := (of_decide_eq_true htask).symm
      simp [startsInTurn, hended, hsame] at hg
    · exact hidle
  have hcreated : created = true := by
    by_contra hno
    rw [Bool.not_eq_true] at hno
    simp [startRet, hidle, hno] at hret
  simp [hidle, hcreated]

end Ota

/-- The update component with the calls of `start` so far. -/
def otaStarts (port : OtaPort) : Lts (Ota × List StartCall) OtaAct :=
  (ota port).withHist [] Ota.noteStart

namespace Ota

theorem failureEnds_reach {port : OtaPort} {s : Ota} (h : (ota port).Reach s) :
    s.FailureEnds := by
  refine h.invariant (I := FailureEnds) ?_ ?_
  · intro hfail
    cases hfail
  · intro s a s' _ hs _ hst
    exact failureEnds_step (otaStep_cases hst) hs

/-- **A start after a failure starts again.** In every run in which no start for the task id of
a failed update falls between its terminal report and the clearing of `running`, every start
that returns `ESP_OK` after the last attempt for its task id has reported its failure has
created an update task. -/
theorem start_after_failure (port : OtaPort) {p : Ota × List StartCall}
    (h : (otaStarts port).ReachBy (fun p a => startsInTurn p.1 a = true) p) :
    ∀ c ∈ p.2, c.OwnAttempt := by
  refine h.invariant (I := fun p => ∀ c ∈ p.2, c.OwnAttempt) nofun ?_
  rintro p a p' hp hI hg hst
  obtain ⟨-, hstarts⟩ := Lts.withHist_step hst
  have hs := failureEnds_reach (Lts.reach_fst hp)
  rw [hstarts]
  cases a with
  | start params created =>
    intro c hc
    rcases List.mem_append.mp hc with hold | hnew
    · exact hI c hold
    · rw [List.mem_singleton.mp hnew]
      exact ownAttempt_of_inTurn hs hg
  | _ => exact hI

/-- The failed update of the samples: the device has no second partition. -/
def failedUpdate : List OtaAct := [.start .sample true, .getPartition none]

/-- The platform tries again once `running` is cleared. -/
theorem start_after_failure_sample :
    ∃ p, (otaStarts .sample).ReachBy (fun p a => startsInTurn p.1 a = true) p ∧
      (∃ c ∈ p.2, c.afterFailure = true ∧ c.ret = .ok) ∧ ∀ c ∈ p.2, c.OwnAttempt := by
  have hrun : ((otaStarts .sample).runBy (fun p a => startsInTurn p.1 a = true)
      (otaStarts .sample).init (failedUpdate ++ [.clear, .start .sample true])).map
      (fun p => p.2.any fun c => c.afterFailure && decide (c.ret = .ok)) = some true := by
    decide +kernel
  obtain ⟨p, hp, hcheck⟩ := Lts.exists_reachBy_of_runBy hrun
  refine ⟨p, hp, ?_, start_after_failure .sample hp⟩
  simpa using hcheck

/-- The platform tries again as soon as it sees the failure: `ESP_OK`, and no update. -/
theorem start_between :
    ∃ p, (otaStarts .sample).run (failedUpdate ++ [.start .sample true, .clear]) = some p ∧
      ¬ ∀ c ∈ p.2, c.OwnAttempt := by
  have hrun : ((otaStarts .sample).run (failedUpdate ++ [.start .sample true, .clear])).map
      (fun p => decide (∀ c ∈ p.2, c.OwnAttempt)) = some false := by
    decide +kernel
  obtain ⟨p, hp, hcheck⟩ := Option.map_eq_some_iff.mp hrun
  exact ⟨p, hp, of_decide_eq_false hcheck⟩

end Ota

end SoulCloud
