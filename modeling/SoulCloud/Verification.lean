import SoulCloud.Ota

/-!
# Only a verified image is booted

The flash stream, the hash and the download's own byte count are advanced by
different statements of `download_from`, across any number of connections.
`OtaPc.Stage` says what ties them together at each program counter:

- `Streamed`: so many bytes of the image have gone through the handle and the
  hash alike.
- `Ota.stage_reach`: every reachable state is at its stage, whatever the server,
  the flash and the request task do.
- `boot_verified`: the image whose partition is made the boot partition has the
  announced size and SHA-256.

`total_read` is an `int` that doubles as an error code, and an image may have
2^31 bytes or more. A count that has wrapped is below -1 and ends the download
(`closing_afterTransfer`); it cannot be mistaken for -1, no progress, because a
partition ends at least one sector before 2^32.
-/

namespace SoulCloud

open Bytes Word

/-- `k` bytes have gone through the handle and the hash alike, and the image fits a
partition. -/
structure Streamed (size : Nat) (written fed : Bytes) (k : Nat) : Prop where
  size_le : size ≤ 2 ^ 32 - 4096
  le : k ≤ size
  length : written.length = k
  fed : fed = written

/-- What `download_from` may end with: a refused status or a failed write (both
negative), or the bytes it has read. -/
def Closing (size : Nat) (written fed : Bytes) (d : Attempt) (total : Int) : Prop :=
  total = -2 ∨ total = -1 ∧ Streamed size written fed d.offset ∨
    ∃ n : Nat, total = toInt32 n ∧ Streamed size written fed (d.offset + n)

/-- How far the image is at each program counter. -/
def OtaPc.Stage (size : Nat) (written fed : Bytes) : OtaPc → Prop
  | .idle | .getPartition | .abort _ | .ended _ => True
  | .otaBegin => size ≤ 2 ^ 32 - 4096
  | .prepare => size ≤ 2 ^ 32 - 4096 ∧ written = []
  | .loop d | .connect d | .fetch d => Streamed size written fed d.offset
  | .check d total | .read d total =>
    ∃ n : Nat, total = toInt32 n ∧ Streamed size written fed (d.offset + n)
  | .write d total data =>
    ∃ n : Nat, total = toInt32 n ∧ Streamed size written fed (d.offset + n) ∧
      d.offset + n + data.length ≤ size
  | .close d total => Closing size written fed d total
  | .finish ret => ret = .ok → Streamed size written fed size
  | .verify _ | .otaEnd | .setBoot | .restart | .restarted => Streamed size written fed size

/-- The digest has been compared and the attempt goes on. -/
def OtaPc.accepted : OtaPc → Bool
  | .otaEnd | .setBoot | .restart | .restarted => true
  | _ => false

namespace Ota

variable {port : OtaPort} {s s' : Ota} {a : OtaAct}

/-- The state is at the stage of its program counter. -/
def Stage (s : Ota) : Prop := s.pc.Stage s.params.size s.written s.hash.fed

theorem stage_iff {pc : OtaPc} (hpc : s.pc = pc) :
    s.Stage ↔ pc.Stage s.params.size s.written s.hash.fed := by
  unfold Stage
  rw [hpc]

/-- The end of a transfer: the offset advances by exactly the bytes that went
through, stays when there were none, or the download is over. -/
theorem closing_afterTransfer {size : Nat} {written fed : Bytes} {d : Attempt} {total : Int}
    (h : Closing size written fed d total) :
    (afterTransfer d (transferRet total)).Stage size written fed := by
  -- Without progress the offset stays, or the attempts are used up.
  have hretry : Streamed size written fed d.offset →
      (afterTransfer d (-1)).Stage size written fed := by
    intro hd
    show OtaPc.Stage size written fed (if _ then _ else if _ then _ else if _ then _ else _)
    rw [if_neg (by decide), if_neg (by decide)]
    split
    · intro hok
      cases hok
    · exact hd
  rcases h with rfl | ⟨rfl, hd⟩ | ⟨n, htotal, hn⟩
  · intro hok
    cases hok
  · exact hretry hd
  · have hsize := hn.size_le
    have hle := hn.le
    by_cases hsmall : n < 2 ^ 31
    · have hcount : total = n := htotal.trans (toInt32_of_lt hsmall)
      by_cases hzero : n = 0
      · rw [hcount, hzero]
        rw [hzero] at hn
        exact hretry hn
      · have hret : transferRet total = n := by
          rw [hcount]
          exact if_neg (by omega)
        rw [hret]
        show OtaPc.Stage size written fed (if _ then _ else _)
        rw [if_pos (by omega)]
        have hoff : toSizeT (d.offset + n) = d.offset + n := by
          have := toSizeT_of_lt (n := d.offset + n) (by omega)
          rwa [Nat.cast_add] at this
        show Streamed size written fed (toSizeT (d.offset + n))
        rw [hoff]
        exact hn
    · -- The count has wrapped to a value below -1.
      have hcount : total = n - 2 ^ 32 := htotal.trans (toInt32_of_ge (by omega) (by omega))
      have hret : transferRet total = total := if_neg (by omega)
      rw [hret]
      show OtaPc.Stage size written fed (if _ then _ else if _ then _ else _)
      rw [if_neg (by omega), if_pos (by omega)]
      intro hok
      cases hok

/-- What is asked of the server is at most what is missing. -/
theorem want_le {d : Attempt} {n : Nat}
    (h : Streamed s.params.size s.written s.hash.fed (d.offset + n)) :
    want port s d (toInt32 n) ≤ s.params.size - (d.offset + n) := by
  have hsize := h.size_le
  have hle := h.le
  have hmissing : toSizeT (s.params.size - d.offset - toInt32 n) =
      s.params.size - (d.offset + n) := by
    rw [toSizeT_sub_toInt32]
    have := toSizeT_of_lt (n := s.params.size - (d.offset + n)) (by omega)
    rwa [Nat.cast_sub hle, Nat.cast_add, ← sub_sub] at this
  unfold want
  rw [hmissing]
  omega

/-- A write moves the flash, the hash and the count by the same bytes. -/
theorem streamed_write {size : Nat} {written fed data : Bytes} {d : Attempt} {n : Nat}
    (h : Streamed size written fed (d.offset + n)) (hle : d.offset + n + data.length ≤ size) :
    ∃ m : Nat, toInt32 (toInt32 n + data.length) = toInt32 m ∧
      Streamed size (written ++ data) (fed ++ data) (d.offset + m) := by
  refine ⟨n + data.length, ?_, h.size_le, by omega, ?_, by rw [h.fed]⟩
  · rw [toInt32_add_toInt32, Nat.cast_add]
  · rw [List.length_append, h.length]
    omega

/-- Every step leads to the stage of its new program counter. -/
theorem stage_step (h : OtaStep port s a s') (hs : s.Stage) : s'.Stage := by
  cases h with
  | startRunning | cancelRefused => exact hs
  | @start params created =>
    show OtaPc.Stage _ _ _ (if created then .getPartition else .idle)
    cases created <;> trivial
  | cancel | cancelStore => exact hs
  | noPartition | tooLarge | otaBeginFailed | prepareFailed | abort | mismatch | otaEndFailed
  | setBootFailed | clear | finishFailed => trivial
  | @getPartition p hpc hsize => exact hsize.trans p.size_le
  | otaBegin hpc =>
    rw [stage_iff hpc] at hs
    exact ⟨hs, rfl⟩
  | prepare hpc =>
    rw [stage_iff hpc] at hs
    obtain ⟨hsize, hwritten⟩ := hs
    exact ⟨hsize, Nat.zero_le _, by rw [hwritten]; rfl, hwritten.symm⟩
  | @loopDone d hpc hsize =>
    rw [stage_iff hpc] at hs
    intro _
    have hoff : d.offset = s.params.size := Nat.le_antisymm hs.le hsize
    exact ⟨hs.size_le, Nat.le_refl _, hs.length.trans hoff, hs.fed⟩
  | loopCancelled =>
    intro hok
    cases hok
  | loop hpc =>
    rw [stage_iff hpc] at hs
    exact hs
  | connectFailed hpc =>
    rw [stage_iff hpc] at hs
    exact closing_afterTransfer (.inr (.inl ⟨rfl, hs⟩))
  | connect hpc =>
    rw [stage_iff hpc] at hs
    exact hs
  | refused hpc _ htotal =>
    -- No body is read: the total is the code for a final or a passing failure.
    rw [stage_iff hpc] at hs
    rw [htotal]
    show Closing _ _ _ _ (if _ then _ else _)
    split
    · exact .inl rfl
    · exact .inr (.inl ⟨rfl, hs⟩)
  | fetch hpc =>
    rw [stage_iff hpc] at hs
    exact ⟨0, (toInt32_of_lt (n := 0) (by omega)).symm, hs⟩
  | checkDone hpc =>
    rw [stage_iff hpc] at hs
    exact .inr (.inr hs)
  | check hpc =>
    rw [stage_iff hpc] at hs
    exact hs
  | readEnd hpc =>
    rw [stage_iff hpc] at hs
    exact .inr (.inr hs)
  | @read d total data hpc _ hwant =>
    rw [stage_iff hpc] at hs
    obtain ⟨n, htotal, hn⟩ := hs
    rw [htotal] at hwant
    have hle := hn.le
    have hdata := hwant.trans (want_le hn)
    refine ⟨n, htotal, hn, ?_⟩
    show d.offset + n + data.length ≤ s.params.size
    omega
  | writeFailed => exact .inl rfl
  | write hpc =>
    rw [stage_iff hpc] at hs
    obtain ⟨n, htotal, hn, hle⟩ := hs
    simp only [Stage, reportProgress_params, reportProgress_written, reportProgress_hash, htotal]
    exact streamed_write hn hle
  | close hpc =>
    rw [stage_iff hpc] at hs
    exact closing_afterTransfer hs
  | finish hpc =>
    rw [stage_iff hpc] at hs
    exact hs rfl
  | verify hpc | otaEnd hpc | setBoot hpc | restart hpc =>
    rw [stage_iff hpc] at hs
    exact hs

theorem stage_reach {g : Ota → OtaAct → Prop} (h : (ota port).ReachBy g s) : s.Stage := by
  refine h.invariant trivial ?_
  intro s a s' _ hs _ hst
  exact stage_step (otaStep_cases hst) hs

/-! ## The boot switch -/

/-- While the attempt may still switch the boot partition it has not done so. -/
def Unbooted (s : Ota) : Prop :=
  s.pc.beforeBoot = true → OtaCall.setBootPartition ∉ s.calls

theorem unbooted_step (h : OtaStep port s a s') (hs : s.Unbooted) : s'.Unbooted := by
  intro hpc' hmem
  rcases h.calls with ⟨-, _, _, rfl⟩ | ⟨new, hnew, hboot, -⟩
  · cases hmem
  · have hold : OtaCall.setBootPartition ∉ s.calls := by
      rcases h.beforeBoot hpc' with hpc | hnil
      · exact hs hpc
      · rw [hnil] at hmem
        cases hmem
    rw [hnew, List.mem_append] at hmem
    obtain ⟨-, hafter, -⟩ := hboot (hmem.resolve_left hold)
    rw [hafter] at hpc'
    cases hpc'

theorem unbooted_reach {g : Ota → OtaAct → Prop} (h : (ota port).ReachBy g s) : s.Unbooted := by
  refine h.invariant nofun ?_
  intro s a s' _ hs _ hst
  exact unbooted_step (otaStep_cases hst) hs

/-- What the attempt has written is the image it was asked for. -/
structure Verified (port : OtaPort) (s : Ota) : Prop where
  length : s.written.length = s.params.size
  fed : s.hash.fed = s.written
  sha256 : hexLower (port.sha256 s.written).bytes = s.params.sha256.bytes

/-- The hash calls of a step succeed. -/
def hashWorks : OtaAct → Bool
  | .write _ hashed _ => hashed
  | .finish finished => finished
  | _ => true

/-- What ties the hash operation to the boot switch. -/
structure Checked (port : OtaPort) (s : Ota) : Prop where
  valid : s.hash.valid = true
  digest : ∀ digest, s.pc = .verify digest → digest = port.sha256 s.hash.fed
  accepted : s.pc.accepted = true →
    hexLower (port.sha256 s.hash.fed).bytes = s.params.sha256.bytes
  booted : OtaCall.setBootPartition ∈ s.calls → s.Verified port

theorem afterTransfer_ne_verify {d : Attempt} {readLen : Int} {digest : Buf 32} :
    afterTransfer d readLen ≠ .verify digest := by
  rcases afterTransfer_cases d readLen with ⟨_, h⟩ | ⟨_, -, h⟩ <;> simp [h]

theorem afterTransfer_not_accepted {d : Attempt} {readLen : Int} :
    (afterTransfer d readLen).accepted ≠ true := by
  rcases afterTransfer_cases d readLen with ⟨_, h⟩ | ⟨_, -, h⟩ <;> simp [h, OtaPc.accepted]

theorem checked_step (h : OtaStep port s a s') (hwork : hashWorks a = true) (hstage : s.Stage)
    (hun : s.Unbooted) (hs : s.Checked port) : s'.Checked port := by
  refine ⟨?_, ?_, ?_, ?_⟩
  · cases h with
    | start | prepare => rfl
    | @write _ _ _ hashed =>
      simp only [reportProgress_hash]
      show (s.hash.valid && hashed) = true
      rw [hs.valid]
      exact hwork
    | _ => exact hs.valid
  · intro digest hpc'
    cases h with
    | @finish finished hpc =>
      -- A hash call that failed would leave the zeroed digest to be compared.
      obtain rfl : finished = true := hwork
      cases hpc'
      unfold Ota.digest
      rw [hs.valid]
      rfl
    | startRunning | cancelRefused | cancel | cancelStore => exact hs.digest _ hpc'
    | @start params created => cases created <;> cases hpc'
    | connectFailed | close =>
      dsimp only at hpc'
      exact absurd hpc' afterTransfer_ne_verify
    | _ => cases hpc'
  · intro hacc
    cases h with
    | startRunning | cancelRefused | cancel | cancelStore => exact hs.accepted hacc
    | @verify digest hpc hhex =>
      rw [hs.digest _ hpc] at hhex
      exact hhex
    | otaEnd hpc | setBoot hpc | restart hpc => exact hs.accepted (by rw [hpc]; rfl)
    | @start params created => cases created <;> cases hacc
    | connectFailed | close =>
      dsimp only at hacc
      exact absurd hacc afterTransfer_not_accepted
    | _ => cases hacc
  · intro hmem
    rcases h.calls with ⟨-, _, _, rfl⟩ | ⟨new, hnew, hboot, -⟩
    · cases hmem
    · rw [hnew, List.mem_append] at hmem
      -- Either the switch was made before, or this step makes it.
      have hend : s.pc.beforeBoot = false ∧ s.Verified port ∨ s.pc = .setBoot := by
        rcases hmem with hold | hadd
        · exact .inl ⟨Bool.eq_false_iff.mpr fun hpc => hun hpc hold, hs.booted hold⟩
        · exact .inr (hboot hadd).1
      have hver : s.Verified port := by
        rcases hend with ⟨-, hver⟩ | hpc
        · exact hver
        · rw [stage_iff hpc] at hstage
          refine ⟨hstage.length, hstage.fed, ?_⟩
          rw [← hstage.fed]
          exact hs.accepted (by rw [hpc]; rfl)
      -- The image does not change where the switch is possible or past.
      rcases h.image with hnil | hpc | hpc | ⟨_, _, _, hpc⟩ | ⟨hparams, hwritten, hhash⟩
      · rw [hnil] at hnew
        rw [← List.mem_append, ← hnew] at hmem
        cases hmem
      iterate 3
        · rw [hpc] at hend
          rcases hend with ⟨hpc, -⟩ | hpc <;> cases hpc
      · refine ⟨?_, ?_, ?_⟩
        · rw [hwritten, hparams]
          exact hver.length
        · rw [hhash, hwritten]
          exact hver.fed
        · rw [hwritten, hparams]
          exact hver.sha256

/-- **Only a verified image is booted.** Whatever the server, the flash and the request
task do, in every state after `esp_ota_set_boot_partition` was called the bytes taken by
`esp_ota_write` are `params.size` bytes, the same bytes went to `psa_hash_update`, and the
lower-case hex of their SHA-256 is `params.sha256`. -/
theorem boot_verified (port : OtaPort) {s : Ota}
    (h : (ota port).ReachBy (fun _ a => hashWorks a = true) s)
    (hboot : OtaCall.setBootPartition ∈ s.calls) : s.Verified port := by
  have hchecked : s.Checked port := by
    refine h.invariant (I := Checked port) ?_ ?_
    · exact ⟨rfl, nofun, nofun, nofun⟩
    · intro s a s' hreach hs hwork hst
      exact checked_step (otaStep_cases hst) hwork (stage_reach hreach) (unbooted_reach hreach) hs
  exact hchecked.booted hboot

/-- An update over two connections that switches the boot partition. -/
theorem boot_verified_sample :
    ∃ s, (ota .sample).ReachBy (fun _ a => hashWorks a = true) s ∧
      OtaCall.setBootPartition ∈ s.calls ∧ s.Verified .sample := by
  have hrun : ((ota .sample).runBy (fun _ a => hashWorks a = true) (ota .sample).init
      (sampleStart ++ sampleResume ++ [.verify, .otaEnd .ok, .setBoot .ok])).map
      (fun s => decide (OtaCall.setBootPartition ∈ s.calls)) = some true := by
    decide +kernel
  obtain ⟨s, hs, hcheck⟩ := Lts.exists_reachBy_of_runBy hrun
  have hboot := of_decide_eq_true hcheck
  exact ⟨s, hs, hboot, boot_verified .sample hs hboot⟩

end Ota

end SoulCloud
