import SoulCloud.Verification

/-!
# When a cancelled update stops (`sc_ota::cancel`)

`cancel` answers `ESP_OK` as long as `running` is true, but `cancel_requested` is
only tested at the two loop conditions of the download. A cancel that comes after
the last test is accepted and the partition is booted all the same.

- `CancelHonoured`: after an accepted cancel the attempt does not switch the boot
  partition.
- `StillTests`: bytes are missing, so that the download has to come back to a test
  of the flag, or there is nothing left to stop.
- `cancelInTime`: cancels are stored while the flag is still to be tested, and the chunk
  that is being read or written then does not complete the image.
- `cancel_honoured`: in runs whose cancels come in time, every accepted cancel is honoured.
- `cancel_ignored`: a cancel between the last byte and the verification.
-/

namespace SoulCloud

/-- No boot switch follows an accepted cancel. -/
def CancelHonoured (calls : List OtaCall) : Prop :=
  OtaCall.setBootPartition ∉ calls.dropWhile (· != .cancelAccepted)

instance (calls : List OtaCall) : Decidable (CancelHonoured calls) :=
  inferInstanceAs (Decidable (_ ∉ _))

namespace CancelHonoured

theorem of_not_mem {calls : List OtaCall} (h : OtaCall.cancelAccepted ∉ calls) :
    CancelHonoured calls := by
  have hall : calls.dropWhile (· != .cancelAccepted) = [] := by
    rw [List.dropWhile_eq_nil_iff]
    intro c hc
    have hne : c ≠ .cancelAccepted := by
      rintro rfl
      exact h hc
    simpa using hne
  unfold CancelHonoured
  rw [hall]
  simp

theorem append {calls new : List OtaCall} (h : CancelHonoured calls)
    (hnew : OtaCall.setBootPartition ∉ new) : CancelHonoured (calls ++ new) := by
  intro hmem
  rw [List.dropWhile_append] at hmem
  split at hmem
  · exact hnew ((List.dropWhile_suffix _).subset hmem)
  · rcases List.mem_append.mp hmem with hold | hadd
    · exact h hold
    · exact hnew hadd

end CancelHonoured

/-- The attempt is past the last test of `cancel_requested` and goes on. -/
def OtaPc.pastTests : OtaPc → Bool
  | .verify _ | .otaEnd | .setBoot => true
  | .finish ret => decide (ret = .ok)
  | _ => false

/-- The attempt has failed, or the boot partition is switched already. -/
def OtaPc.decided : OtaPc → Bool
  | .idle | .abort _ | .ended _ | .restart | .restarted => true
  | .finish ret => decide (ret ≠ .ok)
  | _ => false

/-- A chunk is being read or written: the flag is not tested before it is in flash. -/
def OtaPc.handlesChunk : OtaPc → Bool
  | .read _ _ | .write _ _ _ => true
  | _ => false

/-- The bytes read and not yet written. -/
def OtaPc.inHand : OtaPc → Bytes
  | .write _ _ data => data
  | _ => []

namespace Ota

variable {port : OtaPort} {s s' : Ota} {a : OtaAct}

/-- Bytes are missing, so that the download comes back to a test of the flag, or there
is nothing left to stop. -/
def StillTests (s : Ota) : Prop :=
  s.pc.decided = true ∨ s.pc.pastTests = false ∧ s.written.length < s.params.size

instance (s : Ota) : Decidable s.StillTests := inferInstanceAs (Decidable (_ ∨ _ ∧ _))

/-- The chunk that is being read or written was begun before the cancel was stored. -/
def chunkBegun (s : Ota) (a : OtaAct) (_ : Ota) (begun : Bool) : Bool :=
  match a with
  | .cancelStore => s.pc.handlesChunk
  | .start _ _ | .cancel _ | .read _ => begun
  | _ => false

/-- The updater with a note of the chunk that a cancel finds in hand. -/
def cancelLogged (port : OtaPort) : Lts (Ota × Bool) OtaAct := (ota port).withHist false chunkBegun

/-- A cancel is stored while the flag is still to be tested, and the chunk that it finds in hand
does not complete the image. -/
def cancelInTime (p : Ota × Bool) : OtaAct → Bool
  | .cancelStore => decide p.1.StillTests
  | .write ret _ _ =>
    decide (p.2 = true → ret = .ok → p.1.written.length + p.1.pc.inHand.length < p.1.params.size)
  | _ => true

theorem StillTests.missing (h : s.StillTests) {pc : OtaPc} (hpc : s.pc = pc)
    (hopen : pc.decided = false) : s.written.length < s.params.size := by
  rcases h with hdec | ⟨-, hlt⟩
  · rw [hpc, hopen] at hdec
    cases hdec
  · exact hlt

theorem StillTests.not_past (h : s.StillTests) {pc : OtaPc} (hpc : s.pc = pc)
    (hopen : pc.decided = false) : pc.pastTests = false := by
  rcases h with hdec | ⟨hpast, -⟩
  · rw [hpc, hopen] at hdec
    cases hdec
  · rw [← hpc]
    exact hpast

theorem afterTransfer_stillTests (d : Attempt) (readLen : Int)
    (h : s.written.length < s.params.size) :
    StillTests { s with pc := afterTransfer d readLen } := by
  rcases afterTransfer_cases d readLen with ⟨d', hpc⟩ | ⟨ret, hret, hpc⟩ <;> rw [hpc]
  · exact .inr ⟨rfl, h⟩
  · exact .inl (decide_eq_true hret)

/-- What a set flag says of the download. -/
structure Stopping (s : Ota) (begun : Bool) : Prop where
  tests : s.StillTests
  /-- Only the chunk that the cancel has found is still read and written. -/
  chunk : s.pc.handlesChunk = true → begun = true

/-- Once a cancel is requested, every step keeps the image short of complete or the
attempt decided. -/
theorem stillTests_step {begun : Bool} (h : OtaStep port s a s')
    (hg : cancelInTime (s, begun) a = true) (hstage : s.Stage)
    (hs : s.cancelRequested = true → s.Stopping begun) (hcan : s'.cancelRequested = true) :
    s'.StillTests := by
  cases h with
  | startRunning | cancelRefused | cancel => exact (hs hcan).tests
  | start => cases hcan
  | cancelStore => exact of_decide_eq_true hg
  | noPartition | tooLarge | otaBeginFailed | prepareFailed | abort | mismatch | otaEndFailed
  | setBootFailed | setBoot | restart | clear | finishFailed | loopCancelled => exact .inl rfl
  | getPartition hpc => exact .inr ⟨rfl, (hs hcan).tests.missing hpc rfl⟩
  | otaBegin hpc =>
    have hlt := (hs hcan).tests.missing hpc rfl
    exact .inr ⟨rfl, Nat.lt_of_le_of_lt (Nat.zero_le _) hlt⟩
  | prepare hpc | connect hpc | fetch hpc | refused hpc | checkDone hpc | readEnd hpc | read hpc
  | writeFailed hpc => exact .inr ⟨rfl, (hs hcan).tests.missing hpc rfl⟩
  | loopDone hpc hsize =>
    -- All of the image is in: the flag cannot have been set before.
    have hlt := (hs hcan).tests.missing hpc rfl
    rw [stage_iff hpc] at hstage
    have hlen := hstage.length
    omega
  | loop _ _ hno | check _ _ hno =>
    exact absurd (hno.symm.trans hcan) (by decide)
  | connectFailed hpc | close hpc =>
    exact afterTransfer_stillTests _ _ ((hs hcan).tests.missing hpc rfl)
  | write hpc =>
    -- The chunk is the one that the cancel has found, which is not the last one.
    simp only [reportProgress_cancelRequested] at hcan
    have hbegun := (hs hcan).chunk (by rw [hpc]; rfl)
    have hlt := of_decide_eq_true hg hbegun rfl
    rw [hpc] at hlt
    refine .inr ⟨rfl, ?_⟩
    simp only [reportProgress_params, reportProgress_written, List.length_append]
    exact hlt
  | finish hpc | verify hpc | otaEnd hpc =>
    -- No test lies ahead: the flag cannot be set here.
    have hpast := (hs hcan).tests.not_past hpc rfl
    cases hpast

theorem afterTransfer_handlesChunk (d : Attempt) (readLen : Int) :
    (afterTransfer d readLen).handlesChunk = false := by
  rcases afterTransfer_cases d readLen with ⟨d', hpc⟩ | ⟨ret, -, hpc⟩ <;> rw [hpc] <;> rfl

/-- The test before a chunk is read keeps a cancelled download from beginning another one. -/
theorem chunk_step {begun : Bool} (h : OtaStep port s a s')
    (hs : s.cancelRequested = true → s.Stopping begun) (hcan : s'.cancelRequested = true)
    (hchunk : s'.pc.handlesChunk = true) : chunkBegun s a s' begun = true := by
  cases h with
  | startRunning | cancelRefused | cancel => exact (hs hcan).chunk hchunk
  | start => cases hcan
  | cancelStore => exact hchunk
  | check _ _ hno => exact absurd (hno.symm.trans hcan) (by decide)
  | read hpc => exact (hs hcan).chunk (by rw [hpc]; rfl)
  | connectFailed | close =>
    rw [afterTransfer_handlesChunk] at hchunk
    cases hchunk
  | clear | restart | setBoot | setBootFailed | otaEnd | otaEndFailed | verify | mismatch | abort
  | finish | finishFailed | write | writeFailed | readEnd | checkDone | fetch | refused | connect
  | loop | loopCancelled | loopDone | prepare | prepareFailed | otaBegin | otaBeginFailed
  | getPartition | tooLarge | noPartition => cases hchunk

/-- What is known of cancels in a run. -/
structure Heeded (s : Ota) (begun : Bool) : Prop where
  stage : s.Stage
  unbooted : s.Unbooted
  stopping : s.cancelRequested = true → s.Stopping begun
  accepted : OtaCall.cancelAccepted ∈ s.calls → s.cancelRequested = true
  honoured : CancelHonoured s.calls

/-- Only a start takes a request for cancelling back. -/
theorem cancelRequested_step (h : OtaStep port s a s') :
    s'.calls = [] ∨ a = .cancelStore ∧ s'.cancelRequested = true ∨
      s'.cancelRequested = s.cancelRequested := by
  cases h with
  | start => exact .inl rfl
  | cancelStore => exact .inr (.inl ⟨rfl, rfl⟩)
  | write => exact .inr (.inr (reportProgress_cancelRequested ..))
  | _ => exact .inr (.inr rfl)

theorem heeded_step {begun : Bool} (h : OtaStep port s a s')
    (hg : cancelInTime (s, begun) a = true) (hs : s.Heeded begun) :
    s'.Heeded (chunkBegun s a s' begun) := by
  have hstopping : s'.cancelRequested = true → s'.Stopping (chunkBegun s a s' begun) := fun hcan =>
    ⟨stillTests_step h hg hs.stage hs.stopping hcan, chunk_step h hs.stopping hcan⟩
  refine ⟨stage_step h hs.stage, unbooted_step h hs.unbooted, hstopping, ?_, ?_⟩
  · intro hmem
    rcases h.calls with ⟨-, _, _, rfl⟩ | ⟨new, hnew, -, hacc⟩
    · cases hmem
    · rcases cancelRequested_step h with hnil | ⟨-, hset⟩ | hkeep
      · rw [hnil] at hmem
        cases hmem
      · exact hset
      · rw [hnew, List.mem_append] at hmem
        rcases hmem with hold | hadd
        · rw [hkeep]
          exact hs.accepted hold
        · obtain rfl := hacc.mp hadd
          cases h
          rfl
  · rcases h.calls with ⟨-, _, _, rfl⟩ | ⟨new, hnew, hboot, hacc⟩
    · exact .of_not_mem (by simp [launch])
    · rw [hnew]
      by_cases hmem : OtaCall.setBootPartition ∈ new
      · -- The switch is made while no cancel is requested.
        obtain ⟨hpc, -, hne⟩ := hboot hmem
        have hno : OtaCall.cancelAccepted ∉ s.calls := by
          intro hold
          have hpast := (hs.stopping (hs.accepted hold)).tests.not_past hpc rfl
          cases hpast
        refine .of_not_mem ?_
        rw [List.mem_append, not_or]
        exact ⟨hno, fun hadd => hne (hacc.mp hadd)⟩
      · exact hs.honoured.append hmem

/-- **Cancels that come in time are honoured.** In every run whose cancels are stored while
`cancel_requested` is still to be tested, with no chunk in hand that completes the image, no
attempt switches the boot partition after its cancel was accepted. -/
theorem cancel_honoured (port : OtaPort) {p : Ota × Bool}
    (h : (cancelLogged port).ReachBy (fun p a => cancelInTime p a = true) p) :
    CancelHonoured p.1.calls := by
  have hinit : Heeded Ota.init false := ⟨trivial, nofun, nofun, nofun, .of_not_mem nofun⟩
  have hheeded : p.1.Heeded p.2 := by
    refine h.invariant (I := fun p => p.1.Heeded p.2) hinit ?_
    intro p a p' _ hs hg hst
    obtain ⟨hstep, hlog⟩ := Lts.withHist_step hst
    rw [hlog]
    exact heeded_step (otaStep_cases hstep) hg hs
  exact hheeded.honoured

/-- A cancel while the first chunk is written. -/
theorem cancel_honoured_sample :
    ∃ p, (cancelLogged .sample).ReachBy (fun p a => cancelInTime p a = true) p ∧
      OtaCall.cancelAccepted ∈ p.1.calls ∧ CancelHonoured p.1.calls := by
  have hrun : ((cancelLogged .sample).runBy (fun p a => cancelInTime p a = true)
      (cancelLogged .sample).init
      (sampleStart ++ [.read [0xe9, 1], .cancel (Bytes.ascii "t1"), .cancelStore,
        .write .ok true 0, .test, .close, .test, .finish true, .abort, .clear])).map
      (fun p => decide (OtaCall.cancelAccepted ∈ p.1.calls)) = some true := by
    decide +kernel
  obtain ⟨p, hp, hcheck⟩ := Lts.exists_reachBy_of_runBy hrun
  exact ⟨p, hp, of_decide_eq_true hcheck, cancel_honoured .sample hp⟩

/-- A cancel that comes after the last byte is accepted, and the image is booted. -/
theorem cancel_ignored :
    ∃ s, (ota .sample).run (sampleStart ++ sampleResume ++
        [.cancel (Bytes.ascii "t1"), .cancelStore, .verify, .otaEnd .ok, .setBoot .ok]) = some s ∧
      ¬ CancelHonoured s.calls := by
  have hrun : ((ota .sample).run (sampleStart ++ sampleResume ++
      [.cancel (Bytes.ascii "t1"), .cancelStore, .verify, .otaEnd .ok, .setBoot .ok])).map
      (fun s => decide (CancelHonoured s.calls)) = some false := by
    decide +kernel
  obtain ⟨s, hs, hcheck⟩ := Option.map_eq_some_iff.mp hrun
  exact ⟨s, hs, of_decide_eq_false hcheck⟩

end Ota

end SoulCloud
